import Mathlib.Algebra.Group.Nat.Defs
import Mathlib.Data.Nat.Init
import GradleWorkspace.Document.Json

/-!
# A document can be read off its JSON

What is written for a character, a string or a document can be told from whatever is written after
it (`SelfDelimiting`).  So no two documents have the same JSON.

There are three groups.

* Hexadecimal digits.  `hexValue` reads a number off its digits, and numbers below `16 ^ width` take
  exactly `width` digits.
* Strings.  `readChar` reads a character off the front of a string, whatever follows it, and from
  this `selfDelimiting_jsonString` follows.
* Documents.  `jsonAt_append_inj` goes through two documents at once, together with the items of
  their lists and the fields of their records.  `toJson_injective` is the result.
-/

namespace GradleWorkspace

/-! ## Hexadecimal digits -/

namespace Text

/-- The value of a hexadecimal digit. -/
def hexDigitValue (c : Char) : Nat := if c ≤ '9' then c.toNat - 48 else c.toNat - 87

/-- The number with the given hexadecimal digits. -/
def hexValue (digits : List Char) : Nat :=
  digits.foldl (fun n c => 16 * n + hexDigitValue c) 0

theorem hexDigitValue_digitChar : ∀ d < 16, hexDigitValue (Nat.digitChar d) = d := by
  decide

theorem hexValue_concat (digits : List Char) (c : Char) :
    hexValue (digits ++ [c]) = 16 * hexValue digits + hexDigitValue c := by
  rw [hexValue, List.foldl_append]
  rfl

theorem hexValue_replicate_zero_append (n : Nat) (digits : List Char) :
    hexValue (List.replicate n '0' ++ digits) = hexValue digits := by
  induction n with
  | zero => rfl
  | succ n ih => exact ih

theorem hexValue_toDigits (n : Nat) : hexValue (Nat.toDigits 16 n) = n := by
  induction n using Nat.strong_induction_on with
  | _ n ih =>
      by_cases hsmall : n < 16
      · rw [Nat.toDigits_of_lt_base hsmall]
        have hdigit := hexDigitValue_digitChar n hsmall
        simpa [hexValue] using hdigit
      · rw [Nat.toDigits_of_base_le (by omega) (by omega), hexValue_concat, ih (n / 16) (by omega),
          hexDigitValue_digitChar (n % 16) (Nat.mod_lt _ (by omega))]
        omega

theorem hexValue_hex (width n : Nat) : hexValue (hex width n) = n := by
  rw [hex, hexValue_replicate_zero_append, hexValue_toDigits]

theorem length_hex {width n : Nat} (hwidth : 0 < width) (h : n < 16 ^ width) :
    (hex width n).length = width := by
  have hle : (Nat.toDigits 16 n).length ≤ width :=
    (Nat.length_toDigits_le_iff (by omega) hwidth).2 h
  rw [hex, List.length_append, List.length_replicate]
  omega

end Text

namespace Document

open Text

/-- What is written for a value can be told from what is written after it. -/
def SelfDelimiting {α : Type} (write : α → List Char) : Prop :=
  ∀ a b rest rest', write a ++ rest = write b ++ rest' → a = b ∧ rest = rest'

/-! ## Strings -/

/-- The unit of UTF-16 that a text begins with, written by its hexadecimal digits. -/
def readUnit : List Char → Option (Nat × List Char)
  | '\\' :: 'u' :: a :: b :: c :: d :: rest => some (hexValue [a, b, c, d], rest)
  | _ => none

/-- The character that two units of UTF-16 stand for. -/
def ofSurrogates (high low : Nat) : Char :=
  Char.ofNat (0x10000 + (high - 0xD800) * 0x400 + (low - 0xDC00))

/-- The character that a letter after a backslash stands for. -/
def unescape (letter : Char) : Char :=
  if letter = 'n' then '\n'
  else if letter = 'r' then '\r'
  else if letter = 't' then '\t'
  else if letter = 'b' then '\x08'
  else if letter = 'f' then '\x0C'
  else letter

/-- The character that the content of a string begins with, and the content after it. -/
def readChar (text : List Char) : Option (Char × List Char) :=
  match readUnit text with
  | some (high, rest) =>
    if 0xD800 ≤ high ∧ high < 0xDC00 then
      (readUnit rest).map fun (low, rest) => (ofSurrogates high low, rest)
    else some (Char.ofNat high, rest)
  | none =>
    match text with
    | '\\' :: letter :: rest => some (unescape letter, rest)
    | c :: rest => some (c, rest)
    | [] => none

theorem readUnit_jsonUnit {n : Nat} (h : n < 0x10000) (rest : List Char) :
    readUnit (jsonUnit n ++ rest) = some (n, rest) := by
  have hlength : (hex 4 n).length = 4 := length_hex (by omega) h
  obtain ⟨a, b, c, d, hhex⟩ : ∃ a b c d, hex 4 n = [a, b, c, d] := by
    match hex 4 n, hlength with
    | [a, b, c, d], _ => exact ⟨a, b, c, d, rfl⟩
  have hvalue : hexValue [a, b, c, d] = n := by rw [← hhex, hexValue_hex]
  rw [jsonUnit, hhex]
  show some (hexValue [a, b, c, d], rest) = _
  rw [hvalue]

theorem readUnit_eq_none {c : Char} {text : List Char} (h : c ≠ '\\') :
    readUnit (c :: text) = none := by
  unfold readUnit
  split
  · next heq => exact absurd (List.cons.inj heq).1 h
  · rfl

theorem readChar_escaped {letter : Char} (h : letter ≠ 'u') (rest : List Char) :
    readChar ('\\' :: letter :: rest) = some (unescape letter, rest) := by
  have hunit : readUnit ('\\' :: letter :: rest) = none := by
    unfold readUnit
    split
    · next heq => exact absurd (List.cons.inj (List.cons.inj heq).2).1 h
    · rfl
  rw [readChar, hunit]

theorem readChar_plain {c : Char} (h : c ≠ '\\') (rest : List Char) :
    readChar (c :: rest) = some (c, rest) := by
  unfold readChar
  rw [readUnit_eq_none h]
  dsimp only
  split
  · next heq => exact absurd (List.cons.inj heq).1 h
  · next heq => rw [(List.cons.inj heq).1, (List.cons.inj heq).2]
  · next heq => simp at heq

theorem readChar_unit {c : Char} (h : c.toNat < 0x10000) (rest : List Char) :
    readChar (jsonUnit c.toNat ++ rest) = some (c, rest) := by
  have hvalid : ¬(0xD800 ≤ c.toNat ∧ c.toNat < 0xDC00) := by
    have hchar := c.valid
    have htoNat : c.toNat = c.val.toNat := rfl
    simp only [UInt32.isValidChar, Nat.isValidChar] at hchar
    omega
  unfold readChar
  rw [readUnit_jsonUnit h]
  dsimp only
  rw [if_neg hvalid, Char.ofNat_toNat]

theorem readChar_units {high low : Nat} (hhigh : 0xD800 ≤ high ∧ high < 0xDC00)
    (hlow : low < 0x10000) (rest : List Char) :
    readChar (jsonUnit high ++ (jsonUnit low ++ rest)) = some (ofSurrogates high low, rest) := by
  unfold readChar
  rw [readUnit_jsonUnit (by omega)]
  dsimp only
  rw [if_pos hhigh, readUnit_jsonUnit hlow, Option.map_some]

theorem toNat_lt (c : Char) : c.toNat < 0x110000 := by
  have hchar := c.valid
  have htoNat : c.toNat = c.val.toNat := rfl
  simp only [UInt32.isValidChar, Nat.isValidChar] at hchar
  omega

theorem ofSurrogates_eq {c : Char} (h : 0x10000 ≤ c.toNat) :
    ofSurrogates (0xD800 + (c.toNat - 0x10000) / 0x400)
      (0xDC00 + (c.toNat - 0x10000) % 0x400) = c := by
  have hcode : 0x10000 + (0xD800 + (c.toNat - 0x10000) / 0x400 - 0xD800) * 0x400 +
      (0xDC00 + (c.toNat - 0x10000) % 0x400 - 0xDC00) = c.toNat := by omega
  rw [ofSurrogates, hcode, Char.ofNat_toNat]

theorem readChar_surrogates {c : Char} (h : 0x10000 ≤ c.toNat) (rest : List Char) :
    readChar (jsonUnit (0xD800 + (c.toNat - 0x10000) / 0x400) ++
      (jsonUnit (0xDC00 + (c.toNat - 0x10000) % 0x400) ++ rest)) = some (c, rest) := by
  have hmax := toNat_lt c
  have hhigh : 0xD800 ≤ 0xD800 + (c.toNat - 0x10000) / 0x400 ∧
      0xD800 + (c.toNat - 0x10000) / 0x400 < 0xDC00 := by omega
  have hlow : 0xDC00 + (c.toNat - 0x10000) % 0x400 < 0x10000 := by omega
  rw [readChar_units hhigh hlow, ofSurrogates_eq h]

/-- A character can be read off the front of a string. -/
theorem readChar_jsonChar (c : Char) (rest : List Char) :
    readChar (jsonChar c ++ rest) = some (c, rest) := by
  unfold jsonChar
  split
  · next h => rcases h with rfl | rfl <;> exact readChar_escaped (by decide) rest
  next hquote =>
  split
  · next h => subst h; exact readChar_escaped (by decide) rest
  split
  · next h => subst h; exact readChar_escaped (by decide) rest
  split
  · next h => subst h; exact readChar_escaped (by decide) rest
  split
  · next h => subst h; exact readChar_escaped (by decide) rest
  split
  · next h => subst h; exact readChar_escaped (by decide) rest
  split
  · exact readChar_plain (fun h => hquote (Or.inr h)) rest
  split
  · next h => exact readChar_unit h rest
  · next h =>
    rw [List.append_assoc]
    exact readChar_surrogates (Nat.le_of_not_lt h) rest

theorem selfDelimiting_jsonChar : SelfDelimiting jsonChar := by
  intro c d rest rest' h
  have hread := congrArg readChar h
  rw [readChar_jsonChar, readChar_jsonChar] at hread
  exact Prod.mk.inj (Option.some.inj hread)

theorem head?_jsonChar_ne (c : Char) (rest : List Char) :
    (jsonChar c ++ rest).head? ≠ some '"' := by
  intro h
  obtain ⟨tail, htail⟩ := List.head?_eq_some_iff.1 h
  have hread := readChar_jsonChar c rest
  rw [htail, readChar_plain (by decide)] at hread
  obtain ⟨rfl, rfl⟩ := Prod.mk.inj (Option.some.inj hread)
  exact absurd (List.cons.inj htail).1 (by decide)

theorem flatMap_jsonChar_append_inj {text text' rest rest' : List Char}
    (h : text.flatMap jsonChar ++ '"' :: rest = text'.flatMap jsonChar ++ '"' :: rest') :
    text = text' ∧ rest = rest' := by
  induction text generalizing text' with
  | nil =>
      cases text' with
      | nil => simpa using h
      | cons d text' =>
          rw [List.flatMap_cons, List.append_assoc] at h
          have hhead := congrArg List.head? h
          exact absurd hhead.symm (head?_jsonChar_ne d _)
  | cons c text ih =>
      rw [List.flatMap_cons, List.append_assoc] at h
      cases text' with
      | nil =>
          have hhead := congrArg List.head? h
          exact absurd hhead (head?_jsonChar_ne c _)
      | cons d text' =>
          rw [List.flatMap_cons, List.append_assoc] at h
          obtain ⟨rfl, htail⟩ := selfDelimiting_jsonChar c d _ _ h
          obtain ⟨rfl, hrest⟩ := ih htail
          exact ⟨rfl, hrest⟩

theorem selfDelimiting_jsonString : SelfDelimiting jsonString := by
  intro text text' rest rest' h
  simp only [jsonString, List.cons_append, List.append_assoc, List.cons.injEq, true_and,
    List.nil_append] at h
  obtain ⟨htext, hrest⟩ := flatMap_jsonChar_append_inj h
  exact ⟨String.toList_inj.1 htext, hrest⟩

/-! ## Documents -/

/-- The ways in which the JSON of a document begins. -/
inductive Shape
  | null
  | text
  | list (isEmpty : Bool)
  | record (isEmpty : Bool)

/-- How the JSON of a document begins. -/
def shape : Document → Shape
  | .null => .null
  | .text _ => .text
  | .list items => .list items.isEmpty
  | .record fields => .record fields.isEmpty

/-- The beginning of a document, by its first two characters. -/
def shapeOf : List Char → Shape
  | '"' :: _ => .text
  | '[' :: c :: _ => .list (c = ']')
  | '{' :: c :: _ => .record (c = '}')
  | _ => .null

theorem shapeOf_jsonAt (column : Nat) (d : Document) (rest : List Char) :
    shapeOf (jsonAt column d ++ rest) = d.shape := by
  rcases d with _ | _ | ⟨_ | _⟩ | ⟨_ | _⟩ <;> rfl

theorem shape_eq_of_append_eq {column : Nat} {d d' : Document} {rest rest' : List Char}
    (h : jsonAt column d ++ rest = jsonAt column d' ++ rest') : d.shape = d'.shape := by
  rw [← shapeOf_jsonAt column d rest, h, shapeOf_jsonAt]

mutual

/-- A document can be told from what is written after it. -/
theorem jsonAt_append_inj (column : Nat) (d d' : Document) {rest rest' : List Char}
    (h : jsonAt column d ++ rest = jsonAt column d' ++ rest') : d = d' ∧ rest = rest' := by
  have hshape := shape_eq_of_append_eq h
  cases d with
  | null =>
      cases d' with
      | null => exact ⟨rfl, List.append_cancel_left h⟩
      | _ => nomatch hshape
  | text content =>
      cases d' with
      | text content' =>
          obtain ⟨rfl, hrest⟩ := selfDelimiting_jsonString content content' rest rest' h
          exact ⟨rfl, hrest⟩
      | _ => nomatch hshape
  | list items =>
      cases d' with
      | list items' =>
          match items, items' with
          | [], [] => exact ⟨rfl, List.append_cancel_left h⟩
          | item :: items, item' :: items' =>
              simp only [jsonAt, newline, List.cons_append, List.append_assoc,
                List.cons.injEq, true_and, List.append_cancel_left_eq, List.nil_append] at h
              obtain ⟨rfl, hitems⟩ := jsonAt_append_inj (column + 2) item item' h
              obtain ⟨rfl, hrest⟩ := jsonItems_append_inj (column + 2) items items' hitems
              simp only [List.append_cancel_left_eq, List.cons.injEq, true_and] at hrest
              exact ⟨rfl, hrest⟩
          | [], _ :: _ => nomatch hshape
          | _ :: _, [] => nomatch hshape
      | _ => nomatch hshape
  | record fields =>
      cases d' with
      | record fields' =>
          match fields, fields' with
          | [], [] => exact ⟨rfl, List.append_cancel_left h⟩
          | (name, value) :: fields, (name', value') :: fields' =>
              simp only [jsonAt, newline, List.cons_append, List.append_assoc,
                List.cons.injEq, true_and, List.append_cancel_left_eq, List.nil_append] at h
              obtain ⟨rfl, hvalue⟩ := selfDelimiting_jsonString name name' _ _ h
              simp only [List.cons.injEq, true_and] at hvalue
              obtain ⟨rfl, hfields⟩ := jsonAt_append_inj (column + 2) value value' hvalue
              obtain ⟨rfl, hrest⟩ := jsonFields_append_inj (column + 2) fields fields' hfields
              simp only [List.append_cancel_left_eq, List.cons.injEq, true_and] at hrest
              exact ⟨rfl, hrest⟩
          | [], _ :: _ => nomatch hshape
          | _ :: _, [] => nomatch hshape
      | _ => nomatch hshape

/-- The items of a list can be told from the end of a line after them. -/
theorem jsonItems_append_inj (column : Nat) (items items' : List Document)
    {rest rest' : List Char}
    (h : jsonItems column items ++ '\n' :: rest = jsonItems column items' ++ '\n' :: rest') :
    items = items' ∧ rest = rest' := by
  match items, items' with
  | [], [] => exact ⟨rfl, (List.cons.inj h).2⟩
  | item :: items, item' :: items' =>
      simp only [jsonItems, newline, List.cons_append, List.append_assoc, List.cons.injEq,
        true_and, List.append_cancel_left_eq] at h
      obtain ⟨rfl, hitems⟩ := jsonAt_append_inj column item item' h
      obtain ⟨rfl, hrest⟩ := jsonItems_append_inj column items items' hitems
      exact ⟨rfl, hrest⟩
  | [], _ :: _ => simp [jsonItems] at h
  | _ :: _, [] => simp [jsonItems] at h

/-- The fields of a record can be told from the end of a line after them. -/
theorem jsonFields_append_inj (column : Nat) (fields fields' : List (String × Document))
    {rest rest' : List Char}
    (h : jsonFields column fields ++ '\n' :: rest = jsonFields column fields' ++ '\n' :: rest') :
    fields = fields' ∧ rest = rest' := by
  match fields, fields' with
  | [], [] => exact ⟨rfl, (List.cons.inj h).2⟩
  | (name, value) :: fields, (name', value') :: fields' =>
      simp only [jsonFields, newline, List.cons_append, List.append_assoc, List.cons.injEq,
        true_and, List.append_cancel_left_eq, List.nil_append] at h
      obtain ⟨rfl, hvalue⟩ := selfDelimiting_jsonString name name' _ _ h
      simp only [List.cons.injEq, true_and] at hvalue
      obtain ⟨rfl, hfields⟩ := jsonAt_append_inj column value value' hvalue
      obtain ⟨rfl, hrest⟩ := jsonFields_append_inj column fields fields' hfields
      exact ⟨rfl, hrest⟩
  | [], _ :: _ => simp [jsonFields] at h
  | _ :: _, [] => simp [jsonFields] at h

end

/-- Different documents have different JSON. -/
theorem toJson_injective : Function.Injective toJson := by
  intro d d' h
  exact (jsonAt_append_inj 0 d d' (String.ofList_injective h)).1

end Document

end GradleWorkspace
