import GradleWorkspace.BuildFile.Parser
import GradleWorkspace.FileTree.Text
import GradleWorkspace.SettingsFile
import GradleWorkspace.Workspace

/-!
# Discovery of modules

Every directory of a workspace that holds a build file is a module.  Directories that are
hidden, hold the output of tools, or are excluded are skipped with everything below them, and
links to directories are not followed.

* `Node.directories` lists the directories to look at, parents first and siblings by name.
* `chooseNames` gives each module a name of its own: the last segment of its path, or else its
  whole path.
* `discover` puts the workspace together.
-/

namespace GradleWorkspace

/-! ## Files of a module -/

/-- The names of build files; the first that exists counts. -/
def buildFileNames : List String := ["build.gradle", "build.gradle.kts"]

/-- The names of settings files; the first that exists counts. -/
def settingsFileNames : List String := ["settings.gradle", "settings.gradle.kts"]

namespace FileTree

/-- The first of the given names under which a directory has a file. -/
def firstFile? (tree : FileTree) (directory : Path) (names : List String) : Option String :=
  names.find? fun name => tree.isFile (directory.member name)

/-- The name of the build file of a directory. -/
def buildFile? (tree : FileTree) (directory : Path) : Option String :=
  tree.firstFile? directory buildFileNames

/-- The name of the settings file of a directory. -/
def settingsFile? (tree : FileTree) (directory : Path) : Option String :=
  tree.firstFile? directory settingsFileNames

/-- The name of the program in a directory that starts the build tool, if the archive that it
needs is there too. -/
def launcher? (tree : FileTree) (directory : Path) : Option String :=
  let archive := ((directory.member "gradle").member "wrapper").member "gradle-wrapper.jar"
  if tree.holds archive && tree.holds (directory.member "gradlew") then some "gradlew" else none

end FileTree

/-! ## Directories -/

/-- The names of directories that never hold modules. -/
def skippedNames : List String := ["node_modules", "dist", "build", "out", "__pycache__"]

/-- Whether a directory with a given name is left out. -/
def isSkipped (exclude : List String) (name : String) : Bool :=
  name.toList.head? == some '.' || skippedNames.contains name || exclude.contains name

mutual

/-- The paths of a directory and of the directories below it, seen from the directory itself. -/
def Node.directories (exclude : List String) : Node → List (List String)
  | .directory members =>
    [] :: ((memberDirectories exclude members).mergeSort fun a b => a.1 ≤ b.1).flatMap (·.2)
  | _ => []

/-- The paths of the directories in each member that is a directory and not left out, by the
name of the member. -/
def memberDirectories (exclude : List String) :
    List (String × Node) → List (String × List (List String))
  | [] => []
  | (name, child) :: rest =>
    let below := child.directories exclude
    let others := memberDirectories exclude rest
    if child.isDirectory && !isSkipped exclude name then
      (name, below.map (name :: ·)) :: others
    else others

end

/-- The directories to look at from a root, as paths seen from it.  If the root is no directory,
it is the only one. -/
def candidateDirectories (tree : FileTree) (root : Path) (exclude : List String) :
    Logged (List (List String)) :=
  match tree.node? root with
  | some (.directory members) => .pure ((Node.directory members).directories exclude)
  | _ => do
    Logged.warn ("Could not list " ++ root.text)
    return [[]]

/-! ## Modules -/

/-- A message about what was found in a build file. -/
def parsedMessage (dialect : Dialect) (facts : BuildFacts) : String :=
  "Parsed " ++ dialect.name ++ " build file: " ++ toString facts.plugins.length ++
    " plugins, " ++ toString facts.dependencies.length ++ " dependencies, " ++
    toString facts.repositories.length ++ " repositories"

/-- The facts in a build file; none if it cannot be read. -/
def readFacts (tree : FileTree) (path : Path) : Logged BuildFacts := do
  match ← tree.readText path with
  | none => return {}
  | some text =>
    let dialect := Dialect.ofFileName path.name
    let facts := BuildFile.parse dialect text
    Logged.debug (parsedMessage dialect facts)
    return facts

/-- The module in a directory that is given by its path seen from the root, if the directory
holds a build file. -/
def loadModule (tree : FileTree) (root : Path) (rootName : String) (directory : List String) :
    Logged (Option Module) :=
  let here : Path := { root with segments := root.segments ++ directory }
  match tree.buildFile? here with
  | none => .pure none
  | some buildFile => do
    let facts ← readFacts tree (here.member buildFile)
    return some {
      name := directory.getLast?.getD rootName
      path := Path.relativeText directory
      dialect := (Dialect.ofFileName buildFile).name
      facts
      buildFile := some (Path.relativeText (directory ++ [buildFile]))
      settingsFile := (tree.settingsFile? here).map fun name =>
        Path.relativeText (directory ++ [name]) }

/-- A path in a message; the root is a single dot. -/
def shownPath (path : String) : String := if path = "" then "." else path

/-- The path of a module with hyphens between the segments. -/
def hyphenated (path : String) : String := path.map fun c => if c = '/' then '-' else c

/-- The names of modules so far, each with the path of its module. -/
abbrev TakenNames := List (String × String)

/-- The path of the module that has a name, for a message. -/
def ownerOf (taken : TakenNames) (name : String) : String :=
  shownPath ((taken.lookup name).getD "")

/-- A module under a name of its own, or nothing if there is no name left for it. -/
def chooseName (taken : TakenNames) (m : Module) : Logged (Option Module) :=
  if (taken.lookup m.name).isNone then .pure (some m)
  else
    let used := ": module name " ++ Text.quoted m.name ++ " already used by " ++
      ownerOf taken m.name
    let fallback := hyphenated m.path
    if m.path = "" ∨ (taken.lookup fallback).isSome then do
      Logged.warn ("Skipping " ++ shownPath m.path ++ used)
      return none
    else do
      Logged.warn ("Naming " ++ m.path ++ " " ++ Text.quoted fallback ++ used)
      return some { m with name := fallback }

/-- The modules in the given directories, each under a name of its own. -/
def loadModules (tree : FileTree) (root : Path) (rootName : String) (taken : TakenNames) :
    List (List String) → Logged (List Module)
  | [] => .pure []
  | directory :: rest => do
    match ← loadModule tree root rootName directory with
    | none => loadModules tree root rootName taken rest
    | some found =>
      match ← chooseName taken found with
      | none => loadModules tree root rootName taken rest
      | some m =>
        let others ← loadModules tree root rootName ((m.name, m.path) :: taken) rest
        return m :: others

/-! ## The workspace -/

/-- What the settings file of a workspace says: its name, if it is given one, and the projects
that it includes. -/
structure Settings where
  rootName : Option String := none
  includes : List String := []
  deriving DecidableEq, Repr

/-- The settings of the workspace in a directory. -/
def readSettings (tree : FileTree) (root : Path) : Logged Settings :=
  match tree.settingsFile? root with
  | none => .pure {}
  | some name => do
    match ← tree.readText (root.member name) with
    | none => return {}
    | some text =>
      let includes := SettingsFile.includes (Dialect.ofFileName name) text
      Logged.debug ("Settings: " ++ toString includes.length ++ " included projects")
      return { rootName := SettingsFile.rootName? text, includes }

/-- The workspace in a directory whose path has no links, with the given names left out. -/
def discover (tree : FileTree) (root : Path) (exclude : List String) :
    Logged (Except Duplicate Workspace) := do
  let settings ← readSettings tree root
  let directories ← candidateDirectories tree root exclude
  let modules ← loadModules tree root (settings.rootName.getD root.name) [] directories
  Logged.debug ("Discovered " ++ toString modules.length ++ " modules under " ++ root.text)
  return Workspace.ofModules root.text modules settings.includes

end GradleWorkspace
