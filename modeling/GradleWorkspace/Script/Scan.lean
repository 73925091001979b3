import GradleWorkspace.Script.Mask
import GradleWorkspace.Text.Blank
import GradleWorkspace.Text.WordChar

/-!
# Finding statements in a script

A statement is found by trying a `Reader` at each place of the text where statements of its kind
can start.  A reader takes a value off the front of a text and gives the value with the text
after it, or fails.

* The readers below take the pieces that statements are made of: a fixed word, a run of word
  characters, a string literal, an optional parenthesis.
* `find` collects what a reader takes, from left to right; after a value it goes on behind the
  text that the value was read from.
* `isNameBorder` and `isWordBorder` say next to which characters a statement can start or end.
-/

namespace GradleWorkspace.Script

open Text

/-- Takes a value off the front of a text: the value and the text after it, or nothing. -/
abbrev Reader (α : Type) := List Char → Option (α × List Char)

/-! ## Pieces of statements -/

/-- The text without the blanks at its front. -/
def skipBlanks (text : List Char) : List Char := text.dropWhile isBlank

/-- The text after a fixed word. -/
def after (word : String) (text : List Char) : Option (List Char) :=
  if word.toList <+: text then some (text.drop word.toList.length) else none

/-- The text after blanks and a fixed word. -/
def next (word : String) (text : List Char) : Option (List Char) := after word (skipBlanks text)

/-- The text after a fixed word with blanks around it. -/
def afterSpaced (word : String) (text : List Char) : Option (List Char) :=
  (next word text).map skipBlanks

/-- The text after a piece that may be missing. -/
def optionally (piece : List Char → Option (List Char)) (text : List Char) : List Char :=
  (piece text).getD text

/-- The text after blanks and at least one of them. -/
def afterBlanks : List Char → Option (List Char)
  | c :: rest => if isBlank c then some (skipBlanks rest) else none
  | [] => none

/-- The longest non-empty run of characters of a class. -/
def run (inClass : Char → Bool) : Reader (List Char) := fun text =>
  match text.takeWhile inClass with
  | [] => none
  | c :: cs => some (c :: cs, text.dropWhile inClass)

/-- A string literal: a quote, a non-empty content without quotes, and a quote.  The value is
the content. -/
def literal : Reader (List Char)
  | [] => none
  | c :: rest =>
    if isQuote c then do
      let (content, rest) ← run (fun c => !isQuote c) rest
      match rest with
      | [] => none
      | _ :: rest => some (content, rest)
    else none

/-- The argument of a call `name(argument)`. -/
def call {α : Type} (name : String) (argument : Reader α) : Reader α := fun text => do
  let text ← after name text
  let text ← afterSpaced "(" text
  let (value, text) ← argument text
  let text ← next ")" text
  return (value, text)

/-- The text after an opening parenthesis, which may be missing, with blanks around it. -/
def optionalOpening (text : List Char) : List Char :=
  skipBlanks (optionally (after "(") (skipBlanks text))

/-! ## What a piece leaves -/

theorem length_skipBlanks_le (text : List Char) : (skipBlanks text).length ≤ text.length :=
  (List.dropWhile_suffix _).length_le

theorem eq_append_of_after {word : String} {text rest : List Char}
    (h : after word text = some rest) : text = word.toList ++ rest := by
  unfold after at h
  split at h
  · next found =>
    obtain ⟨tail, rfl⟩ := found
    simpa using h
  · simp at h

theorem length_le_of_next {word : String} {text rest : List Char}
    (h : next word text = some rest) : rest.length ≤ text.length := by
  have := congrArg List.length (eq_append_of_after h)
  have := length_skipBlanks_le text
  simp at *
  omega

theorem length_le_of_afterSpaced {word : String} {text rest : List Char}
    (h : afterSpaced word text = some rest) : rest.length ≤ text.length := by
  obtain ⟨middle, hnext, rfl⟩ := Option.map_eq_some_iff.1 h
  exact Nat.le_trans (length_skipBlanks_le middle) (length_le_of_next hnext)

theorem eq_append_of_run {inClass : Char → Bool} {text value rest : List Char}
    (h : run inClass text = some (value, rest)) : text = value ++ rest ∧ value ≠ [] := by
  unfold run at h
  split at h
  · simp at h
  · next c cs heq =>
    obtain ⟨rfl, rfl⟩ := by simpa using h
    exact ⟨by rw [← heq, List.takeWhile_append_dropWhile], by simp⟩

/-- A literal takes its two quotes and at least one character. -/
theorem length_lt_of_literal {text content rest : List Char}
    (h : literal text = some (content, rest)) : rest.length < text.length := by
  unfold literal at h
  split at h
  · simp at h
  · next c body =>
    split at h
    · obtain ⟨⟨value, tail⟩, hrun, h⟩ := Option.bind_eq_some_iff.1 h
      have := congrArg List.length (eq_append_of_run hrun).1
      cases tail with
      | nil => simp at h
      | cons d tail =>
        obtain ⟨rfl, rfl⟩ := by simpa using h
        simp at *
        omega
    · simp at h

/-! ## Places -/

/-- Whether a dotted name can start or end next to this character: it is neither part of a name
nor the point before a member. -/
def isNameBorder : Option Char → Bool
  | none => true
  | some c => !(isWordChar c || c == '.')

/-- Whether a word can start or end next to this character. -/
def isWordBorder : Option Char → Bool
  | none => true
  | some c => !isWordChar c

/-- A value with the place it was read from: from offset `start` up to, and without, offset
`stop`. -/
structure Located (α : Type) where
  start : Nat
  stop : Nat
  value : α
  deriving DecidableEq, Repr

/-- The values that a reader takes from a text, from left to right and without overlap.
`offset` is the offset of the text in the script, `previous` the character before it, and the
first `skip` characters belong to the value read last. -/
def findFrom {α : Type} (starts : Option Char → Bool) (read : Reader α)
    (offset skip : Nat) (previous : Option Char) : List Char → List (Located α)
  | [] => []
  | c :: rest =>
    match skip with
    | skip + 1 => findFrom starts read (offset + 1) skip (some c) rest
    | 0 =>
      match if starts previous then read (c :: rest) else none with
      | none => findFrom starts read (offset + 1) 0 (some c) rest
      | some (value, unread) =>
        let length := rest.length + 1 - unread.length
        ⟨offset, offset + length, value⟩ ::
          findFrom starts read (offset + 1) (length - 1) (some c) rest

/-- What a reader takes from a script, from left to right, with the places. -/
def find {α : Type} (starts : Option Char → Bool) (read : Reader α) (script : List Char) :
    List (Located α) :=
  findFrom starts read 0 0 none script

/-- The values that a reader takes from a script, from left to right. -/
def findValues {α : Type} (starts : Option Char → Bool) (read : Reader α) (script : List Char) :
    List α :=
  (find starts read script).map (·.value)

end GradleWorkspace.Script
