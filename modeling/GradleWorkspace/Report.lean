import GradleWorkspace.DependencyGraph.BuildOrder
import GradleWorkspace.DependencyGraph.Cycles
import GradleWorkspace.DependencyGraph.Resolution
import GradleWorkspace.DependencyGraph.Transitive
import GradleWorkspace.Document.Json
import GradleWorkspace.Document.Yaml

/-!
# Reports

A report shows the modules of a workspace with what they depend on, the references that are not
resolved, the cycles, and the build order.  On request it also shows the transitive dependencies
of one module.

* `Report.of` collects the report of a workspace.
* `Report.fields` lays it out as the fields of a document.
* `Report.render` writes it in one of the formats.
-/

namespace GradleWorkspace

/-- What is known about a workspace after its analysis. -/
structure Report where
  root : String
  includes : List String
  /-- The modules, each with the modules that it depends on. -/
  modules : List (Module × List String)
  unresolved : List UnresolvedReference
  cycles : List (List String)
  buildOrder : Except CircularDependency (List String)
  /-- The module that was asked for, and its transitive dependencies. -/
  transitive : Option (String × List String)

/-- The formats in which a report is written. -/
inductive Format
  | json
  | yaml
  deriving DecidableEq, Repr

/-- The format with a given name. -/
def Format.ofName? (name : String) : Option Format :=
  if name = "json" then some json else if name = "yaml" then some yaml else none

/-- A format was asked for by a name that no format has. -/
structure UnknownFormat where
  name : String
  deriving DecidableEq, Repr

/-- The text that reports an unknown format. -/
def UnknownFormat.message (e : UnknownFormat) : String :=
  "Unknown report format: " ++ Text.quoted e.name

namespace Report

/-! ## Collecting a report -/

/-- The transitive dependencies of the module that was asked for. -/
def transitiveOf (g : DependencyGraph) : Option String →
    Except UnknownModule (Option (String × List String))
  | none => .ok none
  | some name => (g.transitiveDependencies name).map fun names => some (name, names)

/-- The report of a workspace with a given dependency graph, on request with the transitive
dependencies of one module. -/
def of (ws : Workspace) (g : DependencyGraph) (requested : Option String) :
    Except UnknownModule Report :=
  (transitiveOf g requested).map fun transitive =>
    { root := ws.root
      includes := ws.includes
      modules := ws.modules.map fun m => (m, g.successors m.name)
      unresolved := g.unresolved
      cycles := g.cycles
      buildOrder := g.buildOrder
      transitive }

/-! ## Layout -/

/-- A published artifact among the dependencies of a module. -/
def externalEntry? : Dependency → Option Document
  | .external configuration group artifact version => some <| .record
      [("configuration", .text configuration),
        ("coordinate", .text (coordinate group artifact version))]
  | .project _ _ => none

/-- A reference to a module among the dependencies of a module. -/
def projectEntry? : Dependency → Option Document
  | .external _ _ _ _ => none
  | .project configuration path => some <| .record
      [("configuration", .text configuration), ("path", .text path)]

/-- The properties of a module, left out if there are none. -/
def propertyField (properties : OrderedMap String) : List (String × Document) :=
  if properties.entries.isEmpty then []
  else
    [("properties", .record (properties.entries.map fun (name, value) => (name, .text value)))]

/-- A module and what it depends on. -/
def moduleEntry (m : Module) (dependsOn : List String) : Document :=
  .record <|
    [("path", .text m.path), ("dialect", .text m.dialect), ("dependsOn", .texts dependsOn)] ++
    (m.buildFile.toList.map fun file => ("buildFile", .text file)) ++
    Document.fieldUnlessEmpty "plugins" (m.facts.plugins.map .text) ++
    Document.fieldUnlessEmpty "repositories" (m.facts.repositories.map .text) ++
    propertyField m.facts.properties ++
    Document.fieldUnlessEmpty "externalDependencies"
      (m.facts.dependencies.filterMap externalEntry?) ++
    Document.fieldUnlessEmpty "projectDependencies"
      (m.facts.dependencies.filterMap projectEntry?)

/-- A reference that is not resolved. -/
def unresolvedEntry (r : UnresolvedReference) : Document :=
  .record [("module", .text r.module), ("path", .text r.path), ("candidates", .texts r.candidates)]

/-- The build order, or that there is none and why. -/
def buildOrderFields : Except CircularDependency (List String) → List (String × Document)
  | .ok order => [("buildOrder", .texts order)]
  | .error e => [("buildOrder", .null), ("error", .text e.message)]

/-- The fields of a report, in the order in which they are written. -/
def fields (r : Report) : List (String × Document) :=
  [("root", .text r.root),
    ("includes", .texts r.includes),
    ("modules", .record (r.modules.map fun (m, dependsOn) => (m.name, moduleEntry m dependsOn))),
    ("unresolved", .list (r.unresolved.map unresolvedEntry)),
    ("cycles", .list (r.cycles.map .texts))] ++
  buildOrderFields r.buildOrder ++
  r.transitive.toList.map fun (name, names) =>
    ("transitiveDependencies", .record [(name, .texts names)])

/-- A report in a format. -/
def render (r : Report) : Format → String
  | .json => (Document.record r.fields).toJson
  | .yaml => Document.toYaml r.fields

/-- A report in a format given by its name. -/
def renderNamed (r : Report) (formatName : String) : Except UnknownFormat String :=
  match Format.ofName? formatName with
  | some format => .ok (r.render format)
  | none => .error ⟨formatName⟩

end Report

end GradleWorkspace
