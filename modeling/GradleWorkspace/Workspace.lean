import GradleWorkspace.BuildFacts
import GradleWorkspace.Text.Quoted

/-!
# Workspaces

A workspace is a directory with modules in it, each a directory with a build file.  Neither
names nor paths of modules occur twice; `Workspace.ofModules` checks this.
-/

namespace GradleWorkspace

/-- A buildable unit of a workspace. -/
structure Module where
  name : String
  /-- The place in the workspace, with `/` between the segments; empty for the workspace. -/
  path : String
  /-- The name of the dialect of the build file. -/
  dialect : String := "groovy"
  facts : BuildFacts := {}
  /-- The place of the build file in the workspace. -/
  buildFile : Option String := none
  /-- The place of the settings file in the workspace. -/
  settingsFile : Option String := none
  deriving DecidableEq, Repr

/-- All modules found in a directory. -/
structure Workspace where
  root : String
  modules : List Module := []
  /-- The projects that the settings file of the workspace includes, as written there. -/
  includes : List String := []
  nodup_names : (modules.map Module.name).Nodup
  nodup_paths : (modules.map Module.path).Nodup
  deriving DecidableEq, Repr

/-- Two modules of a workspace share a name or a path. -/
inductive Duplicate
  | ofName (name : String)
  | ofPath (path : String)
  deriving DecidableEq, Repr

/-- The text that reports a duplicate. -/
def Duplicate.message : Duplicate → String
  | .ofName name => "Duplicate module name: " ++ Text.quoted name
  | .ofPath path => "Duplicate module path: " ++ Text.quoted path

namespace Workspace

/-- The first duplicate among the modules that follow others with the given names and paths. -/
def firstDuplicate (names paths : List String) : List Module → Option Duplicate
  | [] => none
  | m :: rest =>
    if m.name ∈ names then some (.ofName m.name)
    else if m.path ∈ paths then some (.ofPath m.path)
    else firstDuplicate (m.name :: names) (m.path :: paths) rest

theorem nodup_of_firstDuplicate_eq_none {names paths : List String} {modules : List Module}
    (h : firstDuplicate names paths modules = none) :
    ((modules.map Module.name).Nodup ∧ ∀ m ∈ modules, m.name ∉ names) ∧
      (modules.map Module.path).Nodup ∧ ∀ m ∈ modules, m.path ∉ paths := by
  induction modules generalizing names paths with
  | nil => simp
  | cons m rest ih =>
    unfold firstDuplicate at h
    split at h
    · simp at h
    · split at h
      · simp at h
      · have := ih h
        grind

/-- The workspace with the given modules, unless two of them share a name or a path. -/
def ofModules (root : String) (modules : List Module) (includes : List String) :
    Except Duplicate Workspace :=
  match h : firstDuplicate [] [] modules with
  | some duplicate => .error duplicate
  | none =>
    have distinct := nodup_of_firstDuplicate_eq_none h
    .ok { root, modules, includes, nodup_names := distinct.1.1, nodup_paths := distinct.2.1 }

/-- The names of the modules. -/
def names (ws : Workspace) : List String := ws.modules.map Module.name

/-- The module with a given name. -/
def get? (ws : Workspace) (name : String) : Option Module :=
  ws.modules.find? fun m => m.name == name

end Workspace

end GradleWorkspace
