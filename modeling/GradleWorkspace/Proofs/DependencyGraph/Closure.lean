import GradleWorkspace.Proofs.DependencyGraph.Resolution

/-!
# The graph of any list of modules

Names and paths of modules may occur twice here.  The graph has one node for each name, at the
place where the name occurs first, and the last module of that name says what it depends on.

There are three groups.

* What a reference means.  `meant` are the modules that a reference can mean, and `target?` is the
  name of the module if there is exactly one.
* Closed graphs.  `Closed` says that nodes and edges agree, that no edge leads to a name without a
  node, and that no reference is unresolved that means one module (`closed_ofModules`).
* Accounting for references.  `ofModules_accounts_for_references` says what becomes of each
  reference of a module, and that published artifacts become nothing.
-/

namespace GradleWorkspace

/-! ## What a reference means -/

/-- Whether a reference can mean a module: it has segments, and the path of the module has the
same ones. -/
def RefersTo (reference : String) (m : Module) : Prop :=
  referenceSegments reference ≠ [] ∧ modulePathSegments m.path = referenceSegments reference

instance (reference : String) (m : Module) : Decidable (RefersTo reference m) :=
  inferInstanceAs (Decidable (_ ∧ _))

/-- The modules that a reference can mean. -/
def meant (reference : String) (modules : List Module) : List Module :=
  modules.filter fun m => RefersTo reference m

theorem resolveProjectPath_eq_map_meant (reference : String) (modules : List Module) :
    resolveProjectPath reference modules = (meant reference modules).map Module.name := by
  unfold resolveProjectPath meant RefersTo
  dsimp only
  split
  · next hnone =>
    have hempty : referenceSegments reference = [] := List.isEmpty_iff.1 hnone
    simp [hempty]
  · next hsome =>
    have hne : referenceSegments reference ≠ [] := fun hempty => hsome (List.isEmpty_iff.2 hempty)
    simp [hne]

/-- A module without the published artifacts among its dependencies. -/
def Module.withoutArtifacts (m : Module) : Module :=
  { m with facts :=
      { m.facts with
        dependencies := m.facts.dependencies.filter fun dependency =>
          dependency.projectPath?.isSome } }

theorem projectPaths_withoutArtifacts (m : Module) :
    m.withoutArtifacts.facts.projectPaths = m.facts.projectPaths := by
  unfold BuildFacts.projectPaths Module.withoutArtifacts
  rw [List.filterMap_filter]
  congr 1
  funext dependency
  cases dependency <;> rfl

theorem resolveProjectPath_withoutArtifacts (reference : String) (modules : List Module) :
    resolveProjectPath reference (modules.map Module.withoutArtifacts) =
      resolveProjectPath reference modules := by
  have hname : Module.name ∘ Module.withoutArtifacts = Module.name := rfl
  have hrefers : (fun m => decide (RefersTo reference m)) ∘ Module.withoutArtifacts =
      fun m => decide (RefersTo reference m) := rfl
  rw [resolveProjectPath_eq_map_meant, resolveProjectPath_eq_map_meant, meant, meant,
    List.filter_map, List.map_map, hname, hrefers]

namespace DependencyGraph

section Target

variable {modules : List Module} {reference : String}

theorem target?_eq_some_iff_meant {name : String} :
    target? modules reference = some name ↔
      ∃ m, meant reference modules = [m] ∧ m.name = name := by
  rw [target?_eq_some_iff, resolveProjectPath_eq_map_meant, List.map_eq_singleton_iff]

theorem isSome_target?_iff :
    (target? modules reference).isSome ↔ (meant reference modules).length = 1 := by
  rw [Option.isSome_iff_exists, List.length_eq_one_iff]
  simp only [target?_eq_some_iff_meant]
  constructor
  · rintro ⟨_, m, hmeant, -⟩
    exact ⟨m, hmeant⟩
  · rintro ⟨m, hmeant⟩
    exact ⟨m.name, m, hmeant, rfl⟩

theorem isNone_target?_iff :
    (target? modules reference).isNone ↔ (meant reference modules).length ≠ 1 := by
  rw [ne_eq, ← isSome_target?_iff, Option.not_isSome_iff_eq_none, Option.isNone_iff_eq_none]

end Target

/-! ## Closed graphs -/

/-- Each node has edges, which are those that it lists itself and lead to nodes.  What is left
unresolved means no module, or several. -/
structure Closed (g : DependencyGraph) : Prop where
  keys_edges : g.edges.keys = g.nodes.keys
  edges_eq : ∀ name ∈ g.nodes.keys, ∃ node, g.nodes.get? name = some node ∧
    g.edges.get? name = some node.dependencies
  target_mem : ∀ name targets, g.edges.get? name = some targets →
    ∀ target ∈ targets, target ∈ g.nodes.keys
  candidates_ne : ∀ reference ∈ g.unresolved, reference.candidates.length ≠ 1

section Graph

variable (modules : List Module)

/-- Each name of a module has a node, in the order in which the names occur first. -/
theorem keys_nodes_eq_eraseDups :
    (ofModules modules).nodes.keys = (modules.map Module.name).eraseDups := by
  rw [ofModules, OrderedMap.keys_ofList, List.map_map]
  rfl

theorem keys_edges_eq_eraseDups :
    (ofModules modules).edges.keys = (modules.map Module.name).eraseDups := by
  rw [ofModules, OrderedMap.keys_ofList, List.map_map]
  rfl

theorem mem_keys_nodes_iff {name : String} :
    name ∈ (ofModules modules).nodes.keys ↔ name ∈ modules.map Module.name := by
  rw [keys_nodes_eq_eraseDups, List.mem_eraseDups]

/-- The last module of a name says what the node of that name is. -/
theorem get?_nodes_ofModules (name : String) :
    (ofModules modules).nodes.get? name =
      (modules.reverse.find? fun m => m.name = name).map
        fun m => ⟨m.name, m.path, targets modules m⟩ :=
  OrderedMap.get?_ofList_map _ _ modules name

theorem get?_edges_ofModules (name : String) :
    (ofModules modules).edges.get? name =
      (modules.reverse.find? fun m => m.name = name).map (targets modules) :=
  OrderedMap.get?_ofList_map _ _ modules name

theorem targets_subset (m : Module) : targets modules m ⊆ modules.map Module.name := by
  intro target htarget
  obtain ⟨_, -, htarget⟩ := List.mem_filterMap.1 htarget
  exact mem_names_of_target? htarget

theorem length_candidates_ne {m : Module} {r : UnresolvedReference}
    (h : r ∈ unresolvedReferences modules m) : r.candidates.length ≠ 1 := by
  obtain ⟨path, hpath, rfl⟩ := List.mem_map.1 h
  obtain ⟨-, hnone⟩ := List.mem_filter.1 hpath
  rw [resolveProjectPath_eq_map_meant, List.length_map]
  exact isNone_target?_iff.1 hnone

theorem closed_ofModules : (ofModules modules).Closed where
  keys_edges := by rw [keys_edges_eq_eraseDups, keys_nodes_eq_eraseDups]
  edges_eq := by
    intro name hname
    obtain ⟨m, hm, rfl⟩ := List.mem_map.1 ((mem_keys_nodes_iff modules).1 hname)
    have hsome : (modules.reverse.find? fun other => other.name = m.name).isSome :=
      List.find?_isSome.2 ⟨m, List.mem_reverse.2 hm, by simp⟩
    obtain ⟨last, hlast⟩ := Option.isSome_iff_exists.1 hsome
    refine ⟨⟨last.name, last.path, targets modules last⟩, ?_, ?_⟩
    · rw [get?_nodes_ofModules, hlast, Option.map_some]
    · rw [get?_edges_ofModules, hlast, Option.map_some]
  target_mem := by
    intro name found hfound target htarget
    rw [get?_edges_ofModules] at hfound
    obtain ⟨m, -, rfl⟩ := Option.map_eq_some_iff.1 hfound
    exact (mem_keys_nodes_iff modules).2 (targets_subset modules m htarget)
  candidates_ne := by
    intro reference hreference
    obtain ⟨m, -, hreference⟩ := List.mem_flatMap.1 hreference
    exact length_candidates_ne modules hreference

/-! ## Accounting for references -/

/-- The modules that a module depends on are those that its references mean, as far as each means
one module. -/
theorem forall₂_targets (m : Module) :
    List.Forall₂ (fun path target => ∃ other, meant path modules = [other] ∧ other.name = target)
      (m.facts.projectPaths.filter fun path => (meant path modules).length = 1)
      (targets modules m) := by
  unfold targets
  induction m.facts.projectPaths with
  | nil => exact .nil
  | cons path rest ih =>
      cases htarget : target? modules path with
      | none =>
          have hnot : (meant path modules).length ≠ 1 := isNone_target?_iff.1 (by simp [htarget])
          rw [List.filterMap_cons_none htarget, List.filter_cons_of_neg (by simpa using hnot)]
          exact ih
      | some target =>
          have hone : (meant path modules).length = 1 := isSome_target?_iff.1 (by simp [htarget])
          rw [List.filterMap_cons_some htarget, List.filter_cons_of_pos (by simpa using hone)]
          exact .cons (target?_eq_some_iff_meant.1 htarget) ih

theorem unresolvedReferences_eq (m : Module) :
    unresolvedReferences modules m =
      (m.facts.projectPaths.filter fun path => (meant path modules).length ≠ 1).map
        fun path => ⟨m.name, path, (meant path modules).map Module.name⟩ := by
  have hfilter : (m.facts.projectPaths.filter fun path => (target? modules path).isNone) =
      m.facts.projectPaths.filter fun path => (meant path modules).length ≠ 1 := by
    refine List.filter_congr fun path _ => ?_
    rw [Bool.eq_iff_iff, isNone_target?_iff, decide_eq_true_eq]
  rw [unresolvedReferences, hfilter]
  refine List.map_congr_left fun path _ => ?_
  rw [resolveProjectPath_eq_map_meant]

theorem ofModules_withoutArtifacts :
    ofModules (modules.map Module.withoutArtifacts) = ofModules modules := by
  have htarget : target? (modules.map Module.withoutArtifacts) = target? modules := by
    funext reference
    rw [target?, target?, resolveProjectPath_withoutArtifacts]
  have htargets : ∀ m : Module,
      targets (modules.map Module.withoutArtifacts) m.withoutArtifacts = targets modules m := by
    intro m
    rw [targets, targets, htarget, projectPaths_withoutArtifacts]
  have hunresolved : ∀ m : Module,
      unresolvedReferences (modules.map Module.withoutArtifacts) m.withoutArtifacts =
        unresolvedReferences modules m := by
    intro m
    simp only [unresolvedReferences, htarget, projectPaths_withoutArtifacts,
      resolveProjectPath_withoutArtifacts]
    rfl
  simp only [ofModules, List.map_map, List.flatMap_map, Function.comp_def, htargets, hunresolved]
  rfl

/-- The graph of some modules has their names as nodes, in the order in which they occur first, and
it is closed.  Published artifacts add nothing to it.  If no name occurs twice, each reference of a
module that means exactly one module is an edge of the module, and each other one is unresolved and
lists the modules that it means, both in the order of the references. -/
theorem ofModules_accounts_for_references :
    (ofModules modules).nodes.keys = (modules.map Module.name).eraseDups ∧
    (ofModules modules).Closed ∧
    ofModules (modules.map Module.withoutArtifacts) = ofModules modules ∧
    ((modules.map Module.name).Nodup → ∀ m ∈ modules,
      (∃ targets, (ofModules modules).edges.get? m.name = some targets ∧
        List.Forall₂
          (fun path target => ∃ other, meant path modules = [other] ∧ other.name = target)
          (m.facts.projectPaths.filter fun path => (meant path modules).length = 1) targets) ∧
      (ofModules modules).unresolved.filter (fun reference => reference.module = m.name) =
        (m.facts.projectPaths.filter fun path => (meant path modules).length ≠ 1).map
          fun path => ⟨m.name, path, (meant path modules).map Module.name⟩) := by
  refine ⟨keys_nodes_eq_eraseDups modules, closed_ofModules modules,
    ofModules_withoutArtifacts modules, fun hnodup m hm => ⟨⟨targets modules m, ?_, ?_⟩, ?_⟩⟩
  · have hmem : m.name ∈ (ofModules modules).nodes.keys :=
      (mem_keys_nodes_iff modules).2 (List.mem_map_of_mem hm)
    obtain ⟨_, -, hedges⟩ := (closed_ofModules modules).edges_eq m.name hmem
    have hsuccessors := successors_ofModules hnodup hm
    rw [successors, hedges, Option.getD_some] at hsuccessors
    rw [hedges, hsuccessors]
  · exact forall₂_targets modules m
  · rw [filter_unresolved_ofModules hnodup hm, unresolvedReferences_eq]

end Graph

/-- A module with a published artifact and with three references, which mean no module, one module,
and two modules. -/
def fourModules : List Module :=
  [{ name := "app", path := "app"
     facts := { dependencies := [.external "api" "org.x" "y" "1", .project "api" ":nowhere",
       .project "api" ":core", .project "api" ":libs:ui"] } },
   { name := "core", path := "core" },
   { name := "ui", path := "libs/ui" },
   { name := "other", path := "libs\\ui" }]

theorem ofModules_fourModules :
    (fourModules.map Module.name).Nodup ∧
      (∃ targets, (ofModules fourModules).edges.get? "app" = some targets ∧
        targets = ["core"]) ∧
      (ofModules fourModules).unresolved.filter (fun reference => reference.module = "app") =
        [⟨"app", ":nowhere", []⟩, ⟨"app", ":libs:ui", ["ui", "other"]⟩] := by
  have hnodup : (fourModules.map Module.name).Nodup := by decide
  have hcore : meant ":core" fourModules = [{ name := "core", path := "core" }] := by decide
  obtain ⟨-, -, -, hreferences⟩ := ofModules_accounts_for_references fourModules
  obtain ⟨⟨targets, hedges, htargets⟩, hunresolved⟩ := hreferences hnodup _ List.mem_cons_self
  refine ⟨hnodup, ⟨targets, hedges, ?_⟩, hunresolved.trans (by decide)⟩
  obtain ⟨target, rest, ⟨m, hm, rfl⟩, hrest, rfl⟩ := List.forall₂_cons_left_iff.1
    (show List.Forall₂ _ [":core"] targets from htargets)
  obtain rfl := List.forall₂_nil_left_iff.1 hrest
  obtain rfl := List.singleton_inj.1 (hcore.symm.trans hm)
  rfl

end DependencyGraph

end GradleWorkspace
