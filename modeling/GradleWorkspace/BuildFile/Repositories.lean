import GradleWorkspace.BuildFacts
import GradleWorkspace.Script.Block

/-!
# Repository declarations

The block `repositories { … }` lists where published artifacts come from: well-known
repositories by name, as in `mavenCentral()`, and others by the address of a Maven repository,
as in `maven { url "…" }` or `maven("…")`.
-/

namespace GradleWorkspace.BuildFile

open Script

/-- The repositories that have a name, in the order in which they are listed. -/
def wellKnownRepositories : List String :=
  ["mavenCentral", "mavenLocal", "google", "gradlePluginPortal"]

/-- The use of a repository by its name: the name, and an opening parenthesis or brace. -/
def readNamedRepository (name : String) : Reader Unit := fun text => do
  let text ← after name text
  match skipBlanks text with
  | c :: text => if c = '(' ∨ c = '{' then some ((), text) else none
  | [] => none

/-- The text after `uri(`, if it stands there. -/
def optionalUri (text : List Char) : List Char :=
  optionally (fun text => after "uri" text >>= afterSpaced "(") text

/-- The statement `url "…"`, `url = "…"` or `url: "…"`, with or without `uri(…)`. -/
def readUrl : Reader (List Char) := fun text => do
  let text ← after "url" text
  let text := match skipBlanks text with
    | c :: rest => if c = '=' ∨ c = ':' then skipBlanks rest else c :: rest
    | [] => []
  literal (optionalUri text)

/-- The first address that is set before the next closing brace. -/
def readUrlInBlock : Option Char → Reader (List Char)
  | _, [] => none
  | previous, c :: rest =>
    match if isWordBorder previous then readUrl (c :: rest) else none with
    | some found => some found
    | none => if c = '}' then none else readUrlInBlock (some c) rest

/-- The declaration `maven { … url "…" … }`. -/
def readMavenBlock : Reader (List Char) := fun text => do
  let text ← after "maven" text
  let text ← next "\x7b" text
  readUrlInBlock (some '{') text

/-- The declaration `maven("…")`, where the address may be named. -/
def readMavenCall : Reader (List Char) := fun text => do
  let text ← after "maven" text
  let text ← afterSpaced "(" text
  let text := optionally (fun text => after "url" text >>= afterSpaced "=") text
  literal (optionalUri text)

/-- The repositories that a script declares in its block `repositories`: first the well-known
ones, then the addresses in blocks, then those in calls. -/
def repositories (script : List Char) : List String :=
  match blockBody "repositories" script with
  | none => []
  | some body =>
    let named := wellKnownRepositories.filter fun name =>
      !(find isNameBorder (readNamedRepository name) body).isEmpty
    let urls := findValues isNameBorder readMavenBlock body ++
      findValues isNameBorder readMavenCall body
    withoutRepeats (named ++ urls.map String.ofList)

end GradleWorkspace.BuildFile
