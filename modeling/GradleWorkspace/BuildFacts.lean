import GradleWorkspace.OrderedMap

/-!
# Facts about a build

What a build file says about its module: the plugins it applies, what the module depends on,
where published artifacts come from, and a few named properties.
-/

namespace GradleWorkspace

/-- Something that a module depends on, under a configuration such as `implementation`. -/
inductive Dependency
  /-- A published artifact. -/
  | external (configuration group artifact version : String)
  /-- Another module of the workspace, referred to by a path such as `:libs:core`. -/
  | project (configuration path : String)
  deriving DecidableEq, Repr

/-- The facts extracted from one build file. -/
structure BuildFacts where
  plugins : List String := []
  dependencies : List Dependency := []
  repositories : List String := []
  properties : OrderedMap String := .empty
  deriving DecidableEq, Repr

/-- The name under which an artifact is published. -/
def coordinate (group artifact version : String) : String :=
  group ++ ":" ++ artifact ++ ":" ++ version

namespace Dependency

/-- The configuration under which a module depends on something. -/
def configuration : Dependency → String
  | external configuration _ _ _ => configuration
  | project configuration _ => configuration

/-- The name of a published artifact. -/
def coordinate? : Dependency → Option String
  | external _ group artifact version => some (coordinate group artifact version)
  | project _ _ => none

/-- The path that refers to another module. -/
def projectPath? : Dependency → Option String
  | external _ _ _ _ => none
  | project _ path => some path

end Dependency

namespace BuildFacts

/-- The names of the published artifacts among the dependencies. -/
def coordinates (facts : BuildFacts) : List String :=
  facts.dependencies.filterMap Dependency.coordinate?

/-- The paths of the modules among the dependencies. -/
def projectPaths (facts : BuildFacts) : List String :=
  facts.dependencies.filterMap Dependency.projectPath?

end BuildFacts

/-- The items without those that occurred before. -/
def withoutRepeats (items : List String) : List String := items.eraseDups

end GradleWorkspace
