import GradleWorkspace.Dialect
import GradleWorkspace.BuildFacts
import GradleWorkspace.Script.Block

/-!
# Dependency declarations

The block `dependencies { … }` lists what a module depends on.  A declaration starts with the
configuration, a word such as `implementation`.  After it stands

* a coordinate of exactly three segments, as in `"group:artifact:version"`, or
* a reference to another module, as in `project(":libs:core")`.

In Kotlin both stand in parentheses; in Groovy they need not.
-/

namespace GradleWorkspace.BuildFile

open Script

/-! ## Published artifacts -/

/-- Whether a character can be part of a segment of a coordinate. -/
def isSegmentChar (c : Char) : Bool := !(isQuote c || c == ':' || Text.isBlank c)

/-- A coordinate in quotes: group, artifact and version. -/
def readCoordinate : Reader (String × String × String)
  | [] => none
  | c :: text =>
    if isQuote c then do
      let (group, text) ← run isSegmentChar text
      let text ← after ":" text
      let (artifact, text) ← run isSegmentChar text
      let text ← after ":" text
      let (version, text) ← run isSegmentChar text
      match text with
      | [] => none
      | c :: text =>
        if isQuote c then
          some ((String.ofList group, String.ofList artifact, String.ofList version), text)
        else none
    else none

/-- The declaration of a published artifact. -/
def readExternal : Dialect → Reader Dependency
  | .groovy, text => do
    let (configuration, text) ← run Text.isWordChar text
    if configuration = "project".toList then none
    let ((group, artifact, version), text) ← readCoordinate (optionalOpening text)
    return (.external (String.ofList configuration) group artifact version, text)
  | .kotlin, text => do
    let (configuration, text) ← run Text.isWordChar text
    let ((group, artifact, version), text) ← call "" readCoordinate text
    return (.external (String.ofList configuration) group artifact version, text)

/-! ## Modules of the workspace -/

/-- The sign between the name of an argument and its value. -/
def argumentSign : Dialect → String
  | .groovy => ":"
  | .kotlin => "="

/-- The arguments of `project(":libs:core")`, where the path may be named. -/
def readProjectArguments (dialect : Dialect) : Reader (List Char) :=
  call "" fun text =>
    literal (optionally (fun text => after "path" text >>= afterSpaced (argumentSign dialect)) text)

/-- A reference such as `project(":libs:core")`. -/
def readProjectCall (dialect : Dialect) : Reader (List Char) := fun text => do
  let text ← after "project" text
  readProjectArguments dialect text

/-- The word without `project` at its end, if something is left. -/
def beforeProject? (word : List Char) : Option (List Char) :=
  if "project".toList.isSuffixOf word && word.length > 7 then some (word.take (word.length - 7))
  else none

/-- A configuration and a reference to a module, in Groovy.  Parentheses may be missing, and
nothing need stand between the configuration and `project`. -/
def readProjectCommand : Reader (List Char × List Char) := fun text => do
  let (word, text) ← run Text.isWordChar text
  match readProjectCall .groovy (optionalOpening text) with
  | some (path, text) => some ((word, path), text)
  | none => do
    let configuration ← beforeProject? word
    let (path, text) ← readProjectArguments .groovy text
    some ((configuration, path), text)

/-- The declaration of a module of the workspace. -/
def readProject : Dialect → Reader Dependency
  | .groovy, text => do
    let ((configuration, path), text) ← readProjectCommand text
    return (.project (String.ofList configuration) (String.ofList path), text)
  | .kotlin, text => do
    let (configuration, text) ← run Text.isWordChar text
    let (path, text) ← call "" (readProjectCall .kotlin) text
    return (.project (String.ofList configuration) (String.ofList path), text)

/-! ## The block -/

/-- The dependencies that a script declares in its block `dependencies`: first the published
artifacts, then the modules of the workspace, each in the order of the script. -/
def dependencies (dialect : Dialect) (script : List Char) : List Dependency :=
  match blockBody "dependencies" script with
  | none => []
  | some body =>
    findValues isNameBorder (readExternal dialect) body ++
      findValues isNameBorder (readProject dialect) body

end GradleWorkspace.BuildFile
