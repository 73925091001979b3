import GradleWorkspace.Proofs.BuildFile.WellFormed
import GradleWorkspace.Proofs.Document.Json
import GradleWorkspace.Proofs.Report

/-!
# A workspace can be read off its report

A report leaves out fields that have nothing to list, joins the parts of coordinates, and lists
artifacts and modules apart.  All this can be undone if the facts about the modules are as they are
read from build files.

* `Document.present` are the fields of a record that have a value, and `lookup_present` looks one
  up.  The entry of a module in a report consists of such fields (`moduleEntry_eq_present`).
* `readFacts` and `readModule` read the facts about a module, and a module, off its entry.
* `workspace_of_json` says that the JSON of a report determines the workspace, apart from the
  settings files of the modules, which a report does not show.
-/

namespace GradleWorkspace

/-! ## Fields that may be absent -/

namespace Document

/-- The fields that have a value. -/
def present (fields : List (String × Option Document)) : List (String × Document) :=
  fields.filterMap fun (name, value) => value.map fun value => (name, value)

/-- A list, if there is something to list. -/
def listed (items : List Document) : Option Document :=
  if items.isEmpty then none else some (.list items)

theorem fieldUnlessEmpty_eq_present (name : String) (items : List Document) :
    fieldUnlessEmpty name items = present [(name, listed items)] := by
  cases items <;> rfl

theorem present_append (fields others : List (String × Option Document)) :
    present (fields ++ others) = present fields ++ present others := List.filterMap_append

theorem lookup_present_of_notMem {fields : List (String × Option Document)} {name : String}
    (h : name ∉ fields.map Prod.fst) : (present fields).lookup name = none := by
  rw [List.lookup_eq_none_iff]
  intro field hfield
  obtain ⟨⟨other, value⟩, hmem, hvalue⟩ := List.mem_filterMap.1 hfield
  obtain ⟨_, -, rfl⟩ := Option.map_eq_some_iff.1 hvalue
  have hne : name ≠ other := fun heq => h (heq ▸ List.mem_map_of_mem hmem)
  simpa using hne

/-- A field has its value, if it has one. -/
theorem lookup_present {fields : List (String × Option Document)}
    (h : (fields.map Prod.fst).Nodup) (name : String) :
    (present fields).lookup name = (fields.lookup name).join := by
  induction fields with
  | nil => rfl
  | cons field rest ih =>
      obtain ⟨other, value⟩ := field
      obtain ⟨hnew, hrest⟩ := List.nodup_cons.1 h
      rw [List.lookup_cons]
      cases value with
      | none =>
          by_cases heq : name = other
          · subst heq
            have hnone := lookup_present_of_notMem hnew
            simpa [present] using hnone
          · rw [beq_false_of_ne heq]
            exact ih hrest
      | some value =>
          show ((other, value) :: present rest).lookup name = _
          rw [List.lookup_cons]
          by_cases heq : name = other
          · simp [heq]
          · rw [beq_false_of_ne heq]
            exact ih hrest

theorem itemsIn_of_field?_eq {d : Document} {name : String} {items : List Document}
    (h : d.field? name = listed items) : d.itemsIn name = items := by
  unfold itemsIn
  rw [h]
  cases items <;> rfl

theorem textsIn_of_field?_eq {d : Document} {name : String} {items : List String}
    (h : d.field? name = listed (items.map .text)) : d.textsIn name = items := by
  rw [textsIn, itemsIn_of_field?_eq h, List.filterMap_map]
  exact List.filterMap_some

end Document

namespace Report

open Text

/-- The fields of the entry of a module. -/
def moduleFields (m : Module) (dependsOn : List String) : List (String × Option Document) :=
  [("path", some (.text m.path)), ("dialect", some (.text m.dialect)),
    ("dependsOn", some (.texts dependsOn)), ("buildFile", m.buildFile.map .text),
    ("plugins", Document.listed (m.facts.plugins.map .text)),
    ("repositories", Document.listed (m.facts.repositories.map .text)),
    ("properties", if m.facts.properties.entries.isEmpty then none
      else some (.record (m.facts.properties.entries.map fun (name, value) =>
        (name, .text value)))),
    ("externalDependencies", Document.listed (m.facts.dependencies.filterMap externalEntry?)),
    ("projectDependencies", Document.listed (m.facts.dependencies.filterMap projectEntry?))]

theorem moduleEntry_eq_present (m : Module) (dependsOn : List String) :
    moduleEntry m dependsOn = .record (Document.present (moduleFields m dependsOn)) := by
  have hfile : (m.buildFile.toList.map fun file => ("buildFile", Document.text file)) =
      Document.present [("buildFile", m.buildFile.map .text)] := by
    cases m.buildFile <;> rfl
  have hproperties : propertyField m.facts.properties = Document.present [("properties",
      if m.facts.properties.entries.isEmpty then none
      else some (.record (m.facts.properties.entries.map fun (name, value) =>
        (name, .text value))))] := by
    unfold propertyField
    split <;> rfl
  have hfirst : [("path", Document.text m.path), ("dialect", .text m.dialect),
      ("dependsOn", .texts dependsOn)] = Document.present [("path", some (.text m.path)),
        ("dialect", some (.text m.dialect)), ("dependsOn", some (.texts dependsOn))] := rfl
  rw [moduleEntry, hfile, hproperties, hfirst]
  repeat rw [Document.fieldUnlessEmpty_eq_present]
  repeat rw [← Document.present_append]
  rfl

theorem field?_moduleEntry (m : Module) (dependsOn : List String) (name : String) :
    (moduleEntry m dependsOn).field? name = ((moduleFields m dependsOn).lookup name).join := by
  have hnodup : ((moduleFields m dependsOn).map Prod.fst).Nodup := by
    show ["path", "dialect", "dependsOn", "buildFile", "plugins", "repositories", "properties",
      "externalDependencies", "projectDependencies"].Nodup
    decide
  rw [moduleEntry_eq_present]
  exact Document.lookup_present hnodup name

/-! ## Reading the entry of a module -/

/-- The published artifact that an entry shows. -/
def readArtifact (entry : Document) : Option Dependency :=
  match (entry.textIn "configuration", (entry.textIn "coordinate").map fun coordinate =>
      (Text.fields (· == ':') coordinate.toList).map String.ofList) with
  | (some configuration, some [group, artifact, version]) =>
    some (.external configuration group artifact version)
  | _ => none

/-- The reference to a module that an entry shows. -/
def readReference (entry : Document) : Option Dependency :=
  match (entry.textIn "configuration", entry.textIn "path") with
  | (some configuration, some path) => some (.project configuration path)
  | _ => none

/-- The property that a field shows. -/
def readProperty (field : String × Document) : Option (String × String) :=
  field.2.content?.map fun value => (field.1, value)

/-- The facts that the entry of a module shows. -/
def readFacts (entry : Document) : BuildFacts where
  plugins := entry.textsIn "plugins"
  dependencies := (entry.itemsIn "externalDependencies").filterMap readArtifact ++
    (entry.itemsIn "projectDependencies").filterMap readReference
  repositories := entry.textsIn "repositories"
  properties := .ofList ((entry.entriesIn "properties").filterMap readProperty)

/-- The module that an entry shows, without its settings file. -/
def readModule (name : String) (entry : Document) : Module where
  name := name
  path := (entry.textIn "path").getD ""
  dialect := (entry.textIn "dialect").getD ""
  facts := readFacts entry
  buildFile := entry.textIn "buildFile"

section Dependencies

/-- The parts of a coordinate can be told apart. -/
theorem externalEntry?_bind_readArtifact {dependency : Dependency} (h : dependency.WellFormed)
    (hartifact : dependency.coordinate?.isSome) :
    externalEntry? dependency >>= readArtifact = some dependency := by
  cases dependency with
  | external configuration group artifact version =>
      show (match (some configuration, some
        ((Text.fields (· == ':') (coordinate group artifact version).toList).map
          String.ofList)) with
        | (some configuration, some [group, artifact, version]) =>
          some (Dependency.external configuration group artifact version)
        | _ => none) = _
      rw [h.2.2]
  | project configuration path => simp [Dependency.coordinate?] at hartifact

theorem projectEntry?_bind_readReference {dependency : Dependency}
    (h : dependency.projectPath?.isSome) :
    projectEntry? dependency >>= readReference = some dependency := by
  cases dependency with
  | external => simp [Dependency.projectPath?] at h
  | project => rfl

theorem externalEntry?_eq_none {dependency : Dependency} (h : dependency.projectPath?.isSome) :
    externalEntry? dependency = none := by
  cases dependency with
  | external => simp [Dependency.projectPath?] at h
  | project => rfl

theorem projectEntry?_eq_none {dependency : Dependency} (h : dependency.coordinate?.isSome) :
    projectEntry? dependency = none := by
  cases dependency with
  | external => rfl
  | project => simp [Dependency.coordinate?] at h

/-- If artifacts stand before references, reading the entries of both gives the dependencies. -/
theorem filterMap_entries {artifacts references : List Dependency}
    (hartifacts : ∀ dependency ∈ artifacts, dependency.WellFormed ∧ dependency.coordinate?.isSome)
    (hreferences : ∀ dependency ∈ references, dependency.projectPath?.isSome) :
    ((artifacts ++ references).filterMap externalEntry?).filterMap readArtifact ++
        ((artifacts ++ references).filterMap projectEntry?).filterMap readReference =
      artifacts ++ references := by
  have hexternal : ((artifacts ++ references).filterMap externalEntry?).filterMap readArtifact =
      artifacts := by
    have hskipped : references.filterMap externalEntry? = [] :=
      List.filterMap_eq_nil_iff.2 fun dependency hmem =>
        externalEntry?_eq_none (hreferences dependency hmem)
    rw [List.filterMap_append, hskipped, List.append_nil, List.filterMap_filterMap]
    refine (List.filterMap_congr fun dependency hmem => ?_).trans List.filterMap_some
    exact externalEntry?_bind_readArtifact (hartifacts dependency hmem).1
      (hartifacts dependency hmem).2
  have hproject : ((artifacts ++ references).filterMap projectEntry?).filterMap readReference =
      references := by
    have hskipped : artifacts.filterMap projectEntry? = [] :=
      List.filterMap_eq_nil_iff.2 fun dependency hmem =>
        projectEntry?_eq_none (hartifacts dependency hmem).2
    rw [List.filterMap_append, hskipped, List.nil_append, List.filterMap_filterMap]
    refine (List.filterMap_congr fun dependency hmem => ?_).trans List.filterMap_some
    exact projectEntry?_bind_readReference (hreferences dependency hmem)
  rw [hexternal, hproject]

end Dependencies

theorem entriesIn_properties_moduleEntry (m : Module) (dependsOn : List String) :
    (moduleEntry m dependsOn).entriesIn "properties" =
      m.facts.properties.entries.map fun (name, value) => (name, .text value) := by
  have hfield : (moduleEntry m dependsOn).field? "properties" =
      if m.facts.properties.entries.isEmpty then none
      else some (.record (m.facts.properties.entries.map fun (name, value) =>
        (name, .text value))) := field?_moduleEntry m dependsOn "properties"
  rw [Document.entriesIn, hfield]
  cases m.facts.properties.entries <;> rfl

/-- The facts about a module can be read off its entry. -/
theorem readFacts_moduleEntry {m : Module} (dependsOn : List String)
    {artifacts references : List Dependency}
    (hdependencies : m.facts.dependencies = artifacts ++ references)
    (hartifacts : ∀ dependency ∈ artifacts, dependency.WellFormed ∧ dependency.coordinate?.isSome)
    (hreferences : ∀ dependency ∈ references, dependency.projectPath?.isSome) :
    readFacts (moduleEntry m dependsOn) = m.facts := by
  have hplugins : (moduleEntry m dependsOn).textsIn "plugins" = m.facts.plugins :=
    Document.textsIn_of_field?_eq (field?_moduleEntry m dependsOn "plugins")
  have hrepositories : (moduleEntry m dependsOn).textsIn "repositories" = m.facts.repositories :=
    Document.textsIn_of_field?_eq (field?_moduleEntry m dependsOn "repositories")
  have hexternal : (moduleEntry m dependsOn).itemsIn "externalDependencies" =
      m.facts.dependencies.filterMap externalEntry? :=
    Document.itemsIn_of_field?_eq (field?_moduleEntry m dependsOn "externalDependencies")
  have hproject : (moduleEntry m dependsOn).itemsIn "projectDependencies" =
      m.facts.dependencies.filterMap projectEntry? :=
    Document.itemsIn_of_field?_eq (field?_moduleEntry m dependsOn "projectDependencies")
  have hproperties : ((moduleEntry m dependsOn).entriesIn "properties").filterMap readProperty =
      m.facts.properties.entries := by
    rw [entriesIn_properties_moduleEntry, List.filterMap_map]
    exact List.filterMap_some
  rw [readFacts, hplugins, hrepositories, hexternal, hproject, hproperties, hdependencies,
    filterMap_entries hartifacts hreferences, OrderedMap.ofList_entries, ← hdependencies]

end Report

/-! ## Reading a report -/

/-- What a report shows of a module. -/
def Module.shown (m : Module) : Module := { m with settingsFile := none }

/-- Facts that were read from a build file, or no facts. -/
def BuildFacts.Read (facts : BuildFacts) : Prop :=
  facts = {} ∨ ∃ dialect text, facts = BuildFile.parse dialect text

namespace Report

open DependencyGraph

theorem exists_dependencies_eq {facts : BuildFacts} (h : facts.Read) :
    ∃ artifacts references, facts.dependencies = artifacts ++ references ∧
      (∀ dependency ∈ artifacts, dependency.WellFormed ∧ dependency.coordinate?.isSome) ∧
      ∀ dependency ∈ references, dependency.projectPath?.isSome := by
  rcases h with rfl | ⟨dialect, text, rfl⟩
  · exact ⟨[], [], rfl, by simp, by simp⟩
  · obtain ⟨artifacts, references, heq, hartifacts, hreferences⟩ :=
      BuildFile.exists_dependencies_eq dialect (Script.stripComments text.toList)
    exact ⟨artifacts, references, heq, hartifacts, fun dependency hmem =>
      (hreferences dependency hmem).2⟩

/-- A module can be read off its entry, apart from its settings file. -/
theorem readModule_moduleEntry {m : Module} (dependsOn : List String) (h : m.facts.Read) :
    readModule m.name (moduleEntry m dependsOn) = m.shown := by
  obtain ⟨artifacts, references, heq, hartifacts, hreferences⟩ := exists_dependencies_eq h
  have hfile : (moduleEntry m dependsOn).textIn "buildFile" = m.buildFile := by
    rw [Document.textIn, field?_moduleEntry]
    show (m.buildFile.map Document.text).bind Document.content? = m.buildFile
    cases m.buildFile <;> rfl
  rw [readModule, readFacts_moduleEntry dependsOn heq hartifacts hreferences, hfile]
  rfl

/-- The modules that a report shows. -/
theorem map_readModule_entriesIn {ws : Workspace} (h : ∀ m ∈ ws.modules, m.facts.Read)
    {requested : Option String} {r : Report}
    (hr : Report.of ws (ofModules ws.modules) requested = .ok r) :
    (r.document.entriesIn "modules").map (fun (name, entry) => readModule name entry) =
      ws.modules.map Module.shown := by
  rw [entriesIn_modules hr, List.map_map]
  exact List.map_congr_left fun m hm => readModule_moduleEntry _ (h m hm)

/-- If the facts about the modules of two workspaces are as they are read from build files, then
reports of the workspaces with the same text in JSON belong to workspaces with the same root, the
same includes, and the same modules in the same order, apart from the settings files of the
modules, which a report does not show. -/
theorem workspace_of_json {ws ws' : Workspace} {requested requested' : Option String}
    {r r' : Report}
    (hfacts : ∀ m ∈ ws.modules ++ ws'.modules, m.facts.Read)
    (hr : Report.of ws (ofModules ws.modules) requested = .ok r)
    (hr' : Report.of ws' (ofModules ws'.modules) requested' = .ok r')
    (htext : r.renderNamed "json" = r'.renderNamed "json") :
    ws.root = ws'.root ∧ ws.includes = ws'.includes ∧
      ws.modules.map Module.shown = ws'.modules.map Module.shown := by
  have hdocument : r.document = r'.document :=
    Document.toJson_injective (Except.ok.inj htext)
  obtain ⟨hws, hws'⟩ := List.forall_mem_append.1 hfacts
  have hmodules : ws.modules.map Module.shown = ws'.modules.map Module.shown := by
    rw [← map_readModule_entriesIn hws hr, ← map_readModule_entriesIn hws' hr', hdocument]
  obtain ⟨_, -, rfl⟩ := of_eq_ok_iff.1 hr
  obtain ⟨_, -, rfl⟩ := of_eq_ok_iff.1 hr'
  have hroot : some ws.root = some ws'.root := congrArg (Document.textIn "root") hdocument
  have hincludes : ws.includes = ws'.includes :=
    (Document.textsIn_eq rfl).symm.trans
      ((congrArg (Document.textsIn "includes") hdocument).trans (Document.textsIn_eq rfl))
  exact ⟨Option.some.inj hroot, hincludes, hmodules⟩

/-- Facts of every kind. -/
def appFacts : BuildFacts where
  plugins := ["p"]
  dependencies := [.external "api" "a" "b" "1", .project "api" ":libs:core"]
  repositories := ["mavenCentral"]
  properties := .ofList [("group", "g")]

theorem read_appFacts : appFacts.Read :=
  .inr ⟨.groovy, "group = 'g'\nplugins \x7b id 'p' \x7d\n" ++
    "repositories \x7b mavenCentral() \x7d\n" ++
    "dependencies \x7b api 'a:b:1'\n api project(':libs:core') \x7d", by decide +kernel⟩

/-- Two modules; the settings file of the first is given. -/
def appAndCore (settingsFile : Option String) : Workspace where
  root := "/ws"
  includes := [":libs:core"]
  modules :=
    [{ name := "app", path := "app", facts := appFacts, buildFile := some "app/build.gradle",
       settingsFile },
     { name := "core", path := "libs/core" }]
  nodup_names := by
    show ["app", "core"].Nodup
    decide
  nodup_paths := by
    show ["app", "libs/core"].Nodup
    decide

theorem read_of_mem_appAndCore (settingsFile : Option String) :
    ∀ m ∈ (appAndCore settingsFile).modules, m.facts.Read := by
  simp only [appAndCore, List.mem_cons, List.not_mem_nil, or_false]
  rintro m (rfl | rfl)
  · exact read_appFacts
  · exact .inl rfl

theorem workspace_of_json_appAndCore :
    ∃ r r', Report.of (appAndCore none) (ofModules (appAndCore none).modules) none = .ok r ∧
      Report.of (appAndCore (some "app/settings.gradle"))
        (ofModules (appAndCore (some "app/settings.gradle")).modules) none = .ok r' ∧
      r.renderNamed "json" = r'.renderNamed "json" ∧
      (appAndCore none).modules.map Module.shown =
        (appAndCore (some "app/settings.gradle")).modules.map Module.shown := by
  have hread := List.forall_mem_append.2
    ⟨read_of_mem_appAndCore none, read_of_mem_appAndCore (some "app/settings.gradle")⟩
  have hshown := workspace_of_json hread
    (rfl : Report.of (appAndCore none) _ none = .ok _)
    (rfl : Report.of (appAndCore (some "app/settings.gradle")) _ none = .ok _) rfl
  exact ⟨_, _, rfl, rfl, rfl, hshown.2.2⟩

end Report

end GradleWorkspace
