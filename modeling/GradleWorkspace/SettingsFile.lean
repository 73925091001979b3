import GradleWorkspace.Dialect
import GradleWorkspace.Script.Scan

/-!
# Reading a settings file

A settings file names the projects of a workspace, as in `include 'core', 'api'`, and may give
the workspace a name, as in `rootProject.name = 'shop'`.
-/

namespace GradleWorkspace.SettingsFile

open Script

/-- The string literals that follow with a comma before each, and the text after them. -/
def readMoreLiterals (text : List Char) : List (List Char) × List Char :=
  match h : afterSpaced "," text with
  | none => ([], text)
  | some argument =>
    match hliteral : literal argument with
    | none => ([], text)
    | some (item, rest) =>
      have : rest.length < text.length :=
        Nat.lt_of_lt_of_le (length_lt_of_literal hliteral) (length_le_of_afterSpaced h)
      let (items, rest) := readMoreLiterals rest
      (item :: items, rest)
termination_by text.length

/-- One or more string literals with commas between them. -/
def readLiterals : Reader (List (List Char)) := fun text => do
  let (item, text) ← literal text
  let (items, text) := readMoreLiterals text
  return (item :: items, text)

/-- The statement that includes projects.  Kotlin needs parentheses, Groovy does not. -/
def readInclude : Dialect → Reader (List (List Char))
  | .groovy, text => do
    let text ← after "include" text
    readLiterals (optionalOpening text)
  | .kotlin, text => call "include" readLiterals text

/-- The projects that a settings file includes, as written and in the order of the text. -/
def includes (dialect : Dialect) (text : String) : List String :=
  (findValues isNameBorder (readInclude dialect) (stripComments text.toList)).flatten.map
    String.ofList

/-- The projects that a settings file includes, for a dialect given by its name. -/
def includesNamed (dialectName text : String) : Except UnknownDialect (List String) :=
  match Dialect.ofName? dialectName with
  | some dialect => .ok (includes dialect text)
  | none => .error (.ofSettingsFile dialectName)

/-- The assignment of a name to the workspace. -/
def readRootName : Reader (List Char) := fun text => do
  let text ← after "rootProject.name" text
  let text ← afterSpaced "=" text
  literal text

/-- The name that a settings file gives to the workspace. -/
def rootName? (text : String) : Option String :=
  (findValues (fun _ => true) readRootName (stripComments text.toList)).head?.map String.ofList

end GradleWorkspace.SettingsFile
