import GradleWorkspace.FileTree.Lookup
import GradleWorkspace.Log
import GradleWorkspace.Toml.Parser

/-!
# Configuration

A workspace can say in a TOML file which directories to leave out, and whether a reference that
is not resolved is an error.  The settings stand in a file of their own or in `pyproject.toml`.

`Config.load` reads them.  A file that cannot be read is left out with a warning, and so is a
setting of the wrong type; each setting has a default.
-/

namespace GradleWorkspace

/-- How to analyse a workspace. -/
structure Config where
  /-- The names of directories to leave out. -/
  exclude : List String := []
  /-- Whether a reference that is not resolved is an error. -/
  strict : Bool := false
  deriving DecidableEq, Repr

/-- Why the configuration of a workspace cannot be loaded at all. -/
inductive ConfigError
  /-- A configuration file is not UTF-8. -/
  | notText
  /-- A configuration file holds a decimal integer with too many digits. -/
  | tooManyDigits (count : Nat)
  deriving DecidableEq, Repr

/-- The text that reports why there is no configuration. -/
def ConfigError.message : ConfigError → String
  | notText => "the configuration is not UTF-8"
  | tooManyDigits count => "an integer in the configuration has " ++ toString count ++ " digits"

namespace Config

/-- The name of the configuration file. -/
def fileName : String := ".gradlegraph.toml"

/-- The files that can hold the settings, each with the table that holds them, in the order in
which they are tried. -/
def sources : List (String × Toml.Key) :=
  [(fileName, ["gradlegraph"]), ("pyproject.toml", ["tool", "gradlegraph"])]

/-- Nothing, with a warning that a file could not be read. -/
def unreadable (path : Path) : Logged (Option Toml.Table) := do
  Logged.warn ("Could not read " ++ path.text)
  return none

/-- The table in a file that exists, if the file can be read and holds it. -/
def tableIn (path : Path) (key : Toml.Key) (content : ByteArray) :
    Except ConfigError (Logged (Option Toml.Table)) :=
  match String.fromUTF8? content with
  | none => .error .notText
  | some text =>
    match Toml.parse text with
    | .error .malformed => .ok (unreadable path)
    | .error (.tooManyDigits count) => .error (.tooManyDigits count)
    | .ok table =>
      match Toml.Table.table? key table with
      | none => .ok (.pure none)
      | some settings => .ok do
        Logged.debug ("Using configuration from " ++ path.text)
        return some settings

/-- The table at a path, if there is a file that can be read and holds it. -/
def readTable (tree : FileTree) (path : Path) (key : Toml.Key) :
    Except ConfigError (Logged (Option Toml.Table)) :=
  match tree.node? path with
  | none => .ok (.pure none)
  | some (.file content) => tableIn path key content
  | some _ => .ok (unreadable path)

/-- The first table that one of the sources holds. -/
def firstTable (tree : FileTree) (directory : Path) :
    List (String × Toml.Key) → Except ConfigError (Logged (Option Toml.Table))
  | [] => .ok (.pure none)
  | (name, key) :: rest => do
    let first ← readTable tree (directory.member name) key
    match first.value with
    | some _ => return first
    | none =>
      let second ← firstTable tree directory rest
      return { second with messages := first.messages ++ second.messages }

/-- The texts in an array that holds nothing else. -/
def texts? : List Toml.Value → Option (List String)
  | [] => some []
  | .string text :: items => (texts? items).map (text :: ·)
  | _ :: _ => none

/-- A setting with its default, and a warning if its value has the wrong type. -/
def setting {α : Type} (name : String) (fallback : α) (read : Toml.Value → Option α)
    (table : Toml.Table) : Logged α :=
  match table.lookup name with
  | none => .pure fallback
  | some value =>
    match read value with
    | some found => .pure found
    | none => do
      Logged.warn ("Ignoring invalid '" ++ name ++ "' setting: " ++ value.display)
      return fallback

/-- The value of the setting `exclude`: an array of texts. -/
def readExclude : Toml.Value → Option (List String)
  | .array items => texts? items
  | _ => none

/-- The value of the setting `strict`: a truth value. -/
def readStrict : Toml.Value → Option Bool
  | .boolean b => some b
  | _ => none

/-- The configuration in a table. -/
def ofTable (table : Toml.Table) : Logged Config := do
  let exclude ← setting "exclude" [] readExclude table
  let strict ← setting "strict" false readStrict table
  return { exclude, strict }

/-- The configuration of the workspace in a directory. -/
def load (tree : FileTree) (directory : Path) : Except ConfigError (Logged Config) := do
  let found ← firstTable tree directory sources
  return do
    match ← found with
    | none => return {}
    | some table => ofTable table

end Config

end GradleWorkspace
