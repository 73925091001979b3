import GradleWorkspace.Script.Scan

/-!
# Blocks in braces

Sections of a script stand in braces after a keyword, as in `dependencies { … }`.  Braces are
counted in the masked script, so that those in comments and strings do not count.

* `topLevel` blanks what stands inside braces.
* `findBlock` finds the body of the block with a given keyword: the first one outside all
  braces, or else the first one at all.
* `blockBody` is the text of that body.
-/

namespace GradleWorkspace.Script

/-! ## The text outside all braces -/

/-- A script with everything inside braces blanked, given `depth` open braces and the masked
text.  A closing brace without an opening one does not count. -/
def outline : Nat → List Char → List Char → List Char
  | depth, m :: masked, c :: script =>
    let inside := if m = '}' then depth - 1 else depth
    (if inside = 0 then c else blank c) ::
      outline (if m = '{' then inside + 1 else inside) masked script
  | _, _, _ => []

/-- The script with everything inside braces blanked. -/
def topLevel (script : List Char) : List Char := outline 0 (mask script) script

/-! ## Blocks -/

/-- The opening of a block: the keyword and an opening brace. -/
def readOpening (keyword : String) : Reader Unit := fun text => do
  let text ← after keyword text
  let text ← next "\x7b" text
  return ((), text)

/-- How many characters stand before the brace that closes a block, in the masked text after
the opening brace, where `depth` more blocks are open.  An unclosed block takes all the text. -/
def bodyLength : Nat → List Char → Nat
  | _, [] => 0
  | depth, c :: rest =>
    if c = '{' then bodyLength (depth + 1) rest + 1
    else if c = '}' then
      match depth with
      | 0 => 0
      | depth + 1 => bodyLength depth rest + 1
    else bodyLength depth rest + 1

/-- Whether a masked text closes all braces that it opens, and perhaps more. -/
def closesBraces (masked : List Char) : Bool := masked.count '{' ≤ masked.count '}'

/-- Where the body of the block with a given keyword starts and stops.  A block before which
all braces are closed wins over nested ones; among equals, the first wins. -/
def findBlock (keyword : String) (script : List Char) : Option (Nat × Nat) :=
  let masked := mask script
  let openings := find isNameBorder (readOpening keyword) masked
  let outer := openings.find? fun opening => closesBraces (masked.take opening.start)
  (outer.or openings.head?).map fun opening =>
    (opening.stop, opening.stop + bodyLength 0 (masked.drop opening.stop))

/-- The part of a text from one offset up to, and without, another. -/
def slice (start stop : Nat) (text : List Char) : List Char := (text.take stop).drop start

/-- The text of the body of the block with a given keyword. -/
def blockBody (keyword : String) (script : List Char) : Option (List Char) :=
  (findBlock keyword script).map fun (start, stop) => slice start stop script

/-- The script without the body of the block with a given keyword. -/
def withoutBlockBody (keyword : String) (script : List Char) : List Char :=
  match findBlock keyword script with
  | none => script
  | some (start, stop) => script.take start ++ script.drop stop

end GradleWorkspace.Script
