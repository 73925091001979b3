import GradleWorkspace.DependencyGraph.Basic
import GradleWorkspace.Text.Fields
import GradleWorkspace.Workspace

/-!
# Resolving references to modules

A reference such as `:libs:core` means the module at the path `libs/core`.  It is resolved if
exactly one module matches it; then it becomes an edge of the dependency graph.
-/

namespace GradleWorkspace

/-- The segments of a reference, which are separated by colons. -/
def referenceSegments (reference : String) : List String := Text.segments (· == ':') reference

/-- The segments of the path of a module. -/
def modulePathSegments (path : String) : List String :=
  Text.segments (fun c => c == '/' || c == '\\') path

/-- The names of all modules that a reference can mean: those whose path has the same segments.
A reference without segments means none. -/
def resolveProjectPath (reference : String) (modules : List Module) : List String :=
  let wanted := referenceSegments reference
  if wanted.isEmpty then []
  else (modules.filter fun m => modulePathSegments m.path = wanted).map Module.name

namespace DependencyGraph

/-- The module that a reference resolves to. -/
def target? (modules : List Module) (reference : String) : Option String :=
  match resolveProjectPath reference modules with
  | [name] => some name
  | _ => none

/-- The modules that a module depends on, one for each reference that is resolved. -/
def targets (modules : List Module) (m : Module) : List String :=
  m.facts.projectPaths.filterMap (target? modules)

/-- The references of a module that are not resolved. -/
def unresolvedReferences (modules : List Module) (m : Module) : List UnresolvedReference :=
  (m.facts.projectPaths.filter fun path => (target? modules path).isNone).map fun path =>
    ⟨m.name, path, resolveProjectPath path modules⟩

/-- The dependency graph of some modules: a node for each module, and an edge for each reference
that is resolved. -/
def ofModules (modules : List Module) : DependencyGraph where
  nodes := .ofList (modules.map fun m => (m.name, ⟨m.name, m.path, targets modules m⟩))
  edges := .ofList (modules.map fun m => (m.name, targets modules m))
  unresolved := modules.flatMap (unresolvedReferences modules)

end DependencyGraph

end GradleWorkspace
