import GradleWorkspace.Proofs.DependencyGraph.Resolution
import GradleWorkspace.Report

/-!
# The sections of a report agree

The modules, the unresolved references, the cycles and the build order of a report are found
separately.  This file shows that they fit together, for the report as it is laid out in a
document.

There are three groups.

* Reading a document.  `Document.field?` and the definitions below it are views of a record: the
  items of a list in one of its fields, the texts among them, the entries of a record in it.
* The fields of a report.  One lemma for each field says what stands there.
* Agreement.  `Report.sections_agree` puts the sections together.
-/

namespace GradleWorkspace

/-! ## Reading a document -/

namespace Document

/-- The value of a field of a record. -/
def field? (name : String) : Document → Option Document
  | .record fields => fields.lookup name
  | _ => none

/-- The content of a text. -/
def content? : Document → Option String
  | .text content => some content
  | _ => none

/-- The text in a field. -/
def textIn (name : String) (d : Document) : Option String := (d.field? name).bind content?

/-- The items of the list in a field; none if the field is absent. -/
def itemsIn (name : String) (d : Document) : List Document :=
  match d.field? name with
  | some (.list items) => items
  | _ => []

/-- The texts of the list in a field. -/
def textsIn (name : String) (d : Document) : List String := (d.itemsIn name).filterMap content?

/-- The fields of the record in a field. -/
def entriesIn (name : String) (d : Document) : List (String × Document) :=
  match d.field? name with
  | some (.record fields) => fields
  | _ => []

theorem textsIn_eq {d : Document} {name : String} {items : List String}
    (h : d.field? name = some (.texts items)) : d.textsIn name = items := by
  have hitems : d.itemsIn name = items.map .text := by
    rw [itemsIn, h]
    rfl
  rw [textsIn, hitems, List.filterMap_map]
  exact List.filterMap_some

/-- A field that is left out if there is nothing to list is no other field. -/
theorem lookup_fieldUnlessEmpty_of_ne {name other : String} (h : other ≠ name)
    (items : List Document) : (fieldUnlessEmpty name items).lookup other = none := by
  cases items with
  | nil => rfl
  | cons item items => simp [fieldUnlessEmpty, List.lookup_cons, beq_false_of_ne h]

theorem itemsIn_fieldUnlessEmpty (name : String) (items : List Document) :
    (record (fieldUnlessEmpty name items)).itemsIn name = items := by
  cases items <;> simp [fieldUnlessEmpty, itemsIn, field?]

end Document

/-! ## The fields of a report -/

namespace Report

open DependencyGraph

/-- A report as a document. -/
def document (r : Report) : Document := .record r.fields

theorem field?_modules (r : Report) :
    r.document.field? "modules" =
      some (.record (r.modules.map fun (m, dependsOn) => (m.name, moduleEntry m dependsOn))) :=
  rfl

theorem itemsIn_unresolved (r : Report) :
    r.document.itemsIn "unresolved" = r.unresolved.map unresolvedEntry := rfl

theorem itemsIn_cycles (r : Report) : r.document.itemsIn "cycles" = r.cycles.map .texts := rfl

/-- The last fields of a report are the build order and what belongs to it, and after them the
transitive dependencies. -/
theorem field?_eq_lookup (r : Report) {name : String}
    (h : name = "buildOrder" ∨ name = "error") :
    r.document.field? name = (buildOrderFields r.buildOrder).lookup name := by
  have htransitive : (r.transitive.toList.map fun (found : String × List String) =>
      ("transitiveDependencies", Document.record [(found.1, .texts found.2)])).lookup name =
        none := by
    rcases h with rfl | rfl <;> cases r.transitive <;> rfl
  rw [document, fields, Document.field?, List.lookup_append, htransitive, Option.or_none,
    List.lookup_append]
  rcases h with rfl | rfl <;> rfl

/-- Either there is a build order and no error, or the build order is null and an error says
why. -/
theorem buildOrder_fields_cases (r : Report) :
    (∃ order, r.buildOrder = .ok order ∧
        r.document.field? "buildOrder" = some (.texts order) ∧
        r.document.field? "error" = none) ∨
      ∃ e, r.buildOrder = .error e ∧ r.document.field? "buildOrder" = some .null ∧
        r.document.field? "error" = some (.text e.message) := by
  rw [field?_eq_lookup r (.inl rfl), field?_eq_lookup r (.inr rfl)]
  cases r.buildOrder with
  | ok order => exact Or.inl ⟨order, rfl, rfl, rfl⟩
  | error e => exact Or.inr ⟨e, rfl, rfl, rfl⟩

theorem textIn_module_unresolvedEntry (ref : UnresolvedReference) :
    (unresolvedEntry ref).textIn "module" = some ref.module := rfl

theorem textsIn_dependsOn_moduleEntry (m : Module) (dependsOn : List String) :
    (moduleEntry m dependsOn).textsIn "dependsOn" = dependsOn :=
  Document.textsIn_eq rfl

/-- The references of a module to other modules are listed with its dependencies. -/
theorem itemsIn_projectDependencies_moduleEntry (m : Module) (dependsOn : List String) :
    (moduleEntry m dependsOn).itemsIn "projectDependencies" =
      m.facts.dependencies.filterMap projectEntry? := by
  have hfile : (m.buildFile.toList.map fun file => ("buildFile", Document.text file)).lookup
      "projectDependencies" = none := by cases m.buildFile <;> rfl
  have hproperties : (propertyField m.facts.properties).lookup "projectDependencies" = none := by
    unfold propertyField
    split <;> rfl
  have hfirst : [("path", Document.text m.path), ("dialect", .text m.dialect),
      ("dependsOn", .texts dependsOn)].lookup "projectDependencies" = none := rfl
  have hfield : (moduleEntry m dependsOn).field? "projectDependencies" =
      (Document.record (Document.fieldUnlessEmpty "projectDependencies"
        (m.facts.dependencies.filterMap projectEntry?))).field? "projectDependencies" := by
    have hother : ∀ name ∈ ["plugins", "repositories", "externalDependencies"],
        "projectDependencies" ≠ name := by decide
    simp only [moduleEntry, Document.field?, List.lookup_append, hfirst, hfile, hproperties,
      Document.lookup_fieldUnlessEmpty_of_ne (hother "plugins" (by decide)),
      Document.lookup_fieldUnlessEmpty_of_ne (hother "repositories" (by decide)),
      Document.lookup_fieldUnlessEmpty_of_ne (hother "externalDependencies" (by decide)),
      Option.none_or]
  rw [Document.itemsIn, hfield]
  exact Document.itemsIn_fieldUnlessEmpty _ _

theorem length_projectEntries (dependencies : List Dependency) :
    (dependencies.filterMap projectEntry?).length =
      (dependencies.filterMap Dependency.projectPath?).length := by
  induction dependencies with
  | nil => rfl
  | cons dependency rest ih =>
      cases dependency with
      | external => exact ih
      | project => simpa [ projectEntry?, Dependency.projectPath?] using ih

/-! ## Collecting a report -/

/-- The report of a workspace. -/
theorem of_eq_ok_iff {ws : Workspace} {g : DependencyGraph} {requested : Option String}
    {r : Report} :
    Report.of ws g requested = .ok r ↔ ∃ transitive, transitiveOf g requested = .ok transitive ∧
      r = ⟨ws.root, ws.includes, ws.modules.map fun m => (m, g.successors m.name), g.unresolved,
        g.cycles, g.buildOrder, transitive⟩ := by
  unfold Report.of
  cases transitiveOf g requested with
  | error e => simp [Except.map]
  | ok transitive => simp [Except.map, eq_comm]

theorem transitiveOf_eq_error_iff {g : DependencyGraph} {requested : Option String}
    {e : UnknownModule} :
    transitiveOf g requested = .error e ↔ requested = some e.name ∧ e.name ∉ g.nodes.keys := by
  obtain ⟨missing⟩ := e
  cases requested with
  | none => simp [transitiveOf]
  | some name =>
      rw [transitiveOf, DependencyGraph.transitiveDependencies]
      split
      · next hname =>
        simp only [Except.map, reduceCtorEq, Option.some.injEq, false_iff, not_and, not_not]
        rintro rfl
        exact hname
      · next hname =>
        simp only [Except.map, Except.error.injEq, UnknownModule.mk.injEq, Option.some.injEq]
        exact ⟨fun heq => ⟨heq, heq ▸ hname⟩, And.left⟩

/-- A report fails if a module is asked for that the workspace does not have. -/
theorem of_eq_error_iff {ws : Workspace} {requested : Option String} {e : UnknownModule} :
    Report.of ws (ofModules ws.modules) requested = .error e ↔
      requested = some e.name ∧ e.name ∉ ws.names := by
  have hkeys : (ofModules ws.modules).nodes.keys = ws.names :=
    keys_nodes_ofModules ws.nodup_names
  rw [← hkeys, ← transitiveOf_eq_error_iff, Report.of]
  cases transitiveOf (ofModules ws.modules) requested <;> simp [Except.map]

/-! ## Agreement -/

/-- The modules of a report, each with what it depends on. -/
theorem entriesIn_modules {ws : Workspace} {requested : Option String} {r : Report}
    (h : Report.of ws (ofModules ws.modules) requested = .ok r) :
    r.document.entriesIn "modules" =
      ws.modules.map fun m => (m.name, moduleEntry m (targets ws.modules m)) := by
  obtain ⟨_, -, rfl⟩ := of_eq_ok_iff.1 h
  rw [Document.entriesIn, field?_modules, List.map_map]
  refine List.map_congr_left fun m hm => ?_
  rw [Function.comp_apply, successors_ofModules ws.nodup_names hm]

/-- The references of a module are those that became edges and those that are unresolved. -/
theorem length_projectDependencies {ws : Workspace} {requested : Option String} {r : Report}
    (h : Report.of ws (ofModules ws.modules) requested = .ok r) {m : Module}
    (hm : m ∈ ws.modules) :
    (m.facts.dependencies.filterMap projectEntry?).length = (targets ws.modules m).length +
      (r.document.itemsIn "unresolved").countP
        fun reference => reference.textIn "module" = some m.name := by
  obtain ⟨_, -, rfl⟩ := of_eq_ok_iff.1 h
  rw [length_projectEntries, ← BuildFacts.projectPaths,
    ← length_targets_add_length_unresolvedReferences ws.modules m, itemsIn_unresolved,
    List.countP_map, ← filter_unresolved_ofModules ws.nodup_names hm, List.countP_eq_length_filter]
  congr 3
  funext reference
  simp [textIn_module_unresolvedEntry]

/-- A report fails exactly if a module is asked for that the workspace does not have.  Otherwise
its sections agree.  There is no build order exactly if there are cycles, and exactly then an
error is reported.  A build order is a permutation of the modules in which each stands after all
that it depends on.  Each reference of a module to another one is listed either among the
modules that it depends on or among the unresolved references that name it. -/
theorem sections_agree (ws : Workspace) (requested : Option String) :
    (∀ e, Report.of ws (ofModules ws.modules) requested = .error e ↔
        requested = some e.name ∧ e.name ∉ ws.names) ∧
      ∀ r, Report.of ws (ofModules ws.modules) requested = .ok r →
        (r.document.entriesIn "modules").map Prod.fst = ws.names ∧
        (r.document.field? "buildOrder" = some .null ↔ r.document.itemsIn "cycles" ≠ []) ∧
        (r.document.itemsIn "cycles" ≠ [] ↔ (r.document.field? "error").isSome) ∧
        (r.document.field? "buildOrder" ≠ some .null →
          ∃ order, r.document.field? "buildOrder" = some (.texts order) ∧
            order.Perm ((r.document.entriesIn "modules").map Prod.fst) ∧
            ∀ entry ∈ r.document.entriesIn "modules", ∀ target ∈ entry.2.textsIn "dependsOn",
              order.idxOf target < order.idxOf entry.1) ∧
        ∀ entry ∈ r.document.entriesIn "modules",
          (entry.2.itemsIn "projectDependencies").length =
            (entry.2.textsIn "dependsOn").length +
              (r.document.itemsIn "unresolved").countP
                fun reference => reference.textIn "module" = some entry.1 := by
  refine ⟨fun _ => of_eq_error_iff, ?_⟩
  intro r hr
  have hcycles : r.document.itemsIn "cycles" ≠ [] ↔ (ofModules ws.modules).cycles ≠ [] := by
    obtain ⟨_, -, rfl⟩ := of_eq_ok_iff.1 hr
    rw [itemsIn_cycles, ne_eq, List.map_eq_nil_iff]
  have horder : r.buildOrder = (ofModules ws.modules).buildOrder := by
    obtain ⟨_, -, rfl⟩ := of_eq_ok_iff.1 hr
    rfl
  have hnames : (r.document.entriesIn "modules").map Prod.fst = ws.names := by
    rw [entriesIn_modules hr, List.map_map]
    rfl
  have hreferences : ∀ entry ∈ r.document.entriesIn "modules",
      (entry.2.itemsIn "projectDependencies").length = (entry.2.textsIn "dependsOn").length +
        (r.document.itemsIn "unresolved").countP
          fun reference => reference.textIn "module" = some entry.1 := by
    intro entry hentry
    rw [entriesIn_modules hr] at hentry
    obtain ⟨m, hm, rfl⟩ := List.mem_map.1 hentry
    rw [itemsIn_projectDependencies_moduleEntry, textsIn_dependsOn_moduleEntry]
    exact length_projectDependencies hr hm
  rcases r.buildOrder_fields_cases with
    ⟨order, hok, hfield, herror⟩ | ⟨e, hfail, hfield, herror⟩
  · have hnone : (ofModules ws.modules).cycles = [] :=
      buildOrder_eq_ok_iff.1 ⟨order, horder ▸ hok⟩
    obtain ⟨hperm, hfirst⟩ := buildOrder_ofModules ws.nodup_names (horder ▸ hok)
    refine ⟨hnames, ?_, ?_, ?_, hreferences⟩
    · simp [hcycles, hfield, hnone, Document.texts]
    · simp [hcycles, herror, hnone]
    · intro _
      refine ⟨order, hfield, hnames ▸ hperm, ?_⟩
      intro entry hentry
      rw [entriesIn_modules hr] at hentry
      obtain ⟨m, hm, rfl⟩ := List.mem_map.1 hentry
      rw [textsIn_dependsOn_moduleEntry]
      exact hfirst m hm
  · have hsome : (ofModules ws.modules).cycles ≠ [] :=
      buildOrder_eq_error_iff.1 ⟨e, horder ▸ hfail⟩
    exact ⟨hnames, by simp [hcycles, hfield, hsome], by simp [hcycles, herror, hsome],
      fun hnull => absurd hfield hnull, hreferences⟩

/-- A module with a reference to another one, a reference to nowhere, and a published artifact. -/
def twoModules : Workspace where
  root := "/ws"
  modules :=
    [{ name := "app", path := "app"
       facts := { dependencies := [.project "implementation" ":libs:core",
         .external "api" "org.x" "y" "3.2.0", .project "api" ":nowhere"] } },
     { name := "core", path := "libs/core" }]
  nodup_names := by decide
  nodup_paths := by decide

theorem ofModules_twoModules :
    ofModules twoModules.modules =
      { nodes := .ofList [("app", ⟨"app", "app", ["core"]⟩), ("core", ⟨"core", "libs/core", []⟩)]
        edges := .ofList [("app", ["core"]), ("core", [])]
        unresolved := [⟨"app", ":nowhere", []⟩] } := rfl

theorem sections_agree_twoModules :
    (ofModules twoModules.modules).buildOrder = .ok ["core", "app"] ∧
      ∃ r, Report.of twoModules (ofModules twoModules.modules) (some "app") = .ok r ∧
        r.document.itemsIn "cycles" = [] ∧ r.document.field? "error" = none ∧
        ∃ order, r.document.field? "buildOrder" = some (.texts order) ∧
          order.Perm ["app", "core"] := by
  have horder : (ofModules twoModules.modules).buildOrder = .ok ["core", "app"] := by
    rw [ofModules_twoModules]
    cbv
  have hcycles : (ofModules twoModules.modules).cycles = [] :=
    buildOrder_eq_ok_iff.1 ⟨_, horder⟩
  obtain ⟨herror, hagree⟩ := sections_agree twoModules (some "app")
  cases hreport : Report.of twoModules (ofModules twoModules.modules) (some "app") with
  | error e =>
      obtain ⟨hname, hmissing⟩ := (herror e).1 hreport
      rw [← Option.some.inj hname] at hmissing
      exact absurd (by decide) hmissing
  | ok r =>
      obtain ⟨hnames, hnull, hfails, hsome, -⟩ := hagree r hreport
      have hempty : r.document.itemsIn "cycles" = [] := by
        obtain ⟨_, -, rfl⟩ := of_eq_ok_iff.1 hreport
        rw [itemsIn_cycles, hcycles]
        rfl
      obtain ⟨order, hfield, hperm, -⟩ := hsome fun hfield => hnull.1 hfield hempty
      have herror : r.document.field? "error" = none := by simpa [hempty] using hfails
      rw [hnames] at hperm
      exact ⟨horder, r, rfl, hempty, herror, order, hfield, hperm⟩

end Report

end GradleWorkspace
