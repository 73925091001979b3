/-!
# Scripts with comments and strings masked

Build and settings scripts are read by looking for statements of a known form, not by a full
grammar.  For that, comments must not be mistaken for statements, and the braces inside strings
must not be counted.  This file blanks them out, character by character, so that every offset
of the script keeps its meaning:

* `mask` blanks comments and the contents of strings and keeps the quotes;
* `stripComments` blanks comments only.

Both are the same left-to-right reading, `maskFrom`, which knows in which `Region` of the script
it stands.  They differ in what they show of the inside of a string.
-/

namespace GradleWorkspace.Script

/-- Where a left-to-right reading of a script stands. -/
inductive Region
  /-- Outside comments and strings. -/
  | code
  /-- After `//`, up to the end of the line. -/
  | lineComment
  /-- After `/*`, up to the next `*/`. -/
  | blockComment
  /-- After a single quote character, up to the same one or the end of the line. -/
  | quoted (quote : Char)
  /-- After three equal quote characters, up to the same three. -/
  | tripleQuoted (quote : Char)
  deriving DecidableEq, Repr

/-- The two characters that delimit strings. -/
def isQuote (c : Char) : Bool := c == '"' || c == '\''

/-- A blank in place of a character; the end of a line stays. -/
def blank (c : Char) : Char := if c = '\n' then '\n' else ' '

/-- The script as read from inside a region, with comments blanked and the contents of strings
shown through `inside`.

An ordinary string ends at its own quote, and an unclosed one at the end of the line; a
backslash takes the next character into the string, whatever it is.  A string in triple quotes
knows no backslash and may hold line ends. -/
def maskFrom (inside : Char → Char) : Region → List Char → List Char
  | _, [] => []
  | .code, '/' :: '/' :: rest => ' ' :: ' ' :: maskFrom inside .lineComment rest
  | .code, '/' :: '*' :: rest => ' ' :: ' ' :: maskFrom inside .blockComment rest
  | .code, '"' :: '"' :: '"' :: rest =>
    '"' :: '"' :: '"' :: maskFrom inside (.tripleQuoted '"') rest
  | .code, '\'' :: '\'' :: '\'' :: rest =>
    '\'' :: '\'' :: '\'' :: maskFrom inside (.tripleQuoted '\'') rest
  | .code, c :: rest => c :: maskFrom inside (if isQuote c then .quoted c else .code) rest
  | .lineComment, c :: rest =>
    if c = '\n' then '\n' :: maskFrom inside .code rest
    else ' ' :: maskFrom inside .lineComment rest
  | .blockComment, '*' :: '/' :: rest => ' ' :: ' ' :: maskFrom inside .code rest
  | .blockComment, c :: rest => blank c :: maskFrom inside .blockComment rest
  | .quoted quote, c :: rest =>
    if c = quote ∨ c = '\n' then c :: maskFrom inside .code rest
    else if c = '\\' then
      match rest with
      | [] => [inside c]
      | escaped :: rest => inside c :: inside escaped :: maskFrom inside (.quoted quote) rest
    else inside c :: maskFrom inside (.quoted quote) rest
  | .tripleQuoted quote, a :: b :: c :: rest =>
    if a = quote ∧ b = quote ∧ c = quote then a :: b :: c :: maskFrom inside .code rest
    else inside a :: maskFrom inside (.tripleQuoted quote) (b :: c :: rest)
  | .tripleQuoted quote, c :: rest => inside c :: maskFrom inside (.tripleQuoted quote) rest

/-- Masking keeps every offset. -/
theorem length_maskFrom (inside : Char → Char) (region : Region) (script : List Char) :
    (maskFrom inside region script).length = script.length := by
  fun_induction maskFrom inside region script <;> simp_all

/-- The script with comments and the contents of strings blanked. -/
def mask (script : List Char) : List Char := maskFrom blank .code script

/-- The script with comments blanked and strings left as they are. -/
def stripComments (script : List Char) : List Char := maskFrom id .code script

end GradleWorkspace.Script
