import GradleWorkspace.Script.Block
import GradleWorkspace.Text.DecimalDigit

/-!
# Property assignments

An assignment `name = …` gives a property a string, a version of the Java language such as
`JavaVersion.VERSION_1_8`, or a number.  An assignment outside all braces wins over those inside
blocks.
-/

namespace GradleWorkspace.BuildFile

open Script

/-- The properties that are extracted from a build file. -/
def propertyNames : List String :=
  ["group", "version", "sourceCompatibility", "targetCompatibility"]

/-- A run of digits, with a second run after a separator if it stands there. -/
def readNumber (separator : Char) : Reader (List Char) := fun text => do
  let (whole, text) ← run Text.isDecimalDigit text
  match text with
  | [] => return (whole, [])
  | c :: rest =>
    if c = separator then
      match run Text.isDecimalDigit rest with
      | some (part, rest) => return (whole ++ separator :: part, rest)
      | none => return (whole, text)
    else return (whole, text)

/-- A number that neither a name nor a further part follows. -/
def readDecimal : Reader (List Char) := fun text => do
  let (number, text) ← readNumber '.' text
  if isNameBorder text.head? then return (number, text) else none

/-- A version of the Java language, such as `JavaVersion.VERSION_17`; the underscore in
`VERSION_1_8` stands for a point. -/
def readJavaVersion : Reader (List Char) := fun text => do
  let text ← after "JavaVersion.VERSION_" text
  let (number, text) ← readNumber '_' text
  if isWordBorder text.head? then
    return (number.map fun c => if c = '_' then '.' else c, text)
  else none

/-- The assignment of a value of some form to a property. -/
def readAssignment (name : String) (value : Reader (List Char)) : Reader (List Char) :=
  fun text => do
    let text ← after name text
    let text ← afterSpaced "=" text
    value text

/-- The first value assigned to a property in a text: a string if there is one, else a version
of the Java language, else a number. -/
def assigned? (name : String) (text : List Char) : Option (List Char) :=
  [literal, readJavaVersion, readDecimal].findSome? fun value =>
    (findValues isWordBorder (readAssignment name value) text).head?

/-- The value of a property in a script. -/
def property? (name : String) (script : List Char) : Option String :=
  ((assigned? name (topLevel script)).or (assigned? name script)).map String.ofList

end GradleWorkspace.BuildFile
