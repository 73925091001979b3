import GradleWorkspace.Text.Front

/-!
# Plain scalars that are no text

In YAML a text may stand without quotes, unless a reader would take it for something else: a
truth value, a number, a date, nothing, or one of the signs for merging and defaults.
`isTyped` recognises those texts.
-/

namespace GradleWorkspace.Yaml

open Text (afterChar)

/-! ## Words -/

/-- The words that stand for truth values. -/
def booleanWords : List String :=
  ["yes", "Yes", "YES", "no", "No", "NO", "true", "True", "TRUE", "false", "False", "FALSE",
    "on", "On", "ON", "off", "Off", "OFF"]

/-- The texts that stand for nothing. -/
def nullWords : List String := ["~", "null", "Null", "NULL", ""]

/-- The signs for merging a record into another, and for the default of a record. -/
def signs : List String := ["<<", "="]

/-! ## Numbers -/

/-- Whether a character is a digit or a mark between digits. -/
def isDigitOrMark (c : Char) : Bool := c.isDigit || c == '_'

/-- Whether a text is not empty and holds only characters of a class. -/
def allOf (inClass : Char → Bool) (text : List Char) : Bool := !text.isEmpty && text.all inClass

/-- The text after a sign, if it starts with one. -/
def unsigned : List Char → List Char
  | c :: rest => if c = '+' ∨ c = '-' then rest else c :: rest
  | [] => []

/-- The text after the parts to base sixty at its front, each a colon and one or two digits. -/
def afterSixties : List Char → List Char
  | ':' :: a :: b :: rest =>
    if '0' ≤ a ∧ a ≤ '5' ∧ b.isDigit then afterSixties rest
    else if a.isDigit then afterSixties (b :: rest)
    else ':' :: a :: b :: rest
  | [':', a] => if a.isDigit then [] else [':', a]
  | text => text
termination_by text => text.length

/-- Whether a text is a whole number: binary, octal, decimal, hexadecimal, or to base sixty. -/
def isInteger (text : List Char) : Bool :=
  match unsigned text with
  | '0' :: 'b' :: rest => allOf (fun c => c == '0' || c == '1' || c == '_') rest
  | '0' :: 'x' :: rest =>
    allOf (fun c => isDigitOrMark c || ('a' ≤ c && c ≤ 'f') || ('A' ≤ c && c ≤ 'F')) rest
  | '0' :: rest => rest.all fun c => ('0' ≤ c && c ≤ '7') || c == '_'
  | c :: rest => c.isDigit && (afterSixties (rest.dropWhile isDigitOrMark)).isEmpty
  | [] => false

/-- Whether a text is empty or an exponent with its sign. -/
def isOptionalExponent : List Char → Bool
  | [] => true
  | e :: sign :: rest =>
    (e == 'e' || e == 'E') && (sign == '+' || sign == '-') && allOf Char.isDigit rest
  | _ => false

/-- Whether a text is the end of a number from its point on. -/
def isFraction : List Char → Bool
  | '.' :: rest => isOptionalExponent (rest.dropWhile isDigitOrMark)
  | _ => false

/-- Whether a text is the end of a number to base sixty, from its first colon on. -/
def isSixtiesFraction (text : List Char) : Bool :=
  match text, afterSixties text with
  | ':' :: _, '.' :: rest => rest.all isDigitOrMark
  | _, _ => false

/-- Whether a text is a number with a point. -/
def isFractional (text : List Char) : Bool :=
  (match text with
    | '.' :: c :: rest => c.isDigit && isOptionalExponent (rest.dropWhile isDigitOrMark)
    | _ => false) ||
  (match unsigned text with
    | c :: rest =>
      let rest := rest.dropWhile isDigitOrMark
      c.isDigit && (isFraction rest || isSixtiesFraction rest)
    | [] => false) ||
  [".inf", ".Inf", ".INF"].contains (String.ofList (unsigned text)) ||
  [".nan", ".NaN", ".NAN"].contains (String.ofList text)

/-! ## Dates -/

/-- The text after exactly so many digits. -/
def afterDigits : Nat → List Char → Option (List Char)
  | 0, text => some text
  | n + 1, c :: text => if c.isDigit then afterDigits n text else none
  | _ + 1, [] => none

/-- The text after one or two digits. -/
def afterOneOrTwoDigits (text : List Char) : Option (List Char) :=
  (afterDigits 2 text).or (afterDigits 1 text)

/-- Whether a character separates a date from a time, or a time from its zone. -/
def isGap (c : Char) : Bool := c == ' ' || c == '\t'

/-- The text after the gap between a date and a time. -/
def afterDateGap : List Char → Option (List Char)
  | c :: text =>
    if c = 'T' ∨ c = 't' then some text
    else if isGap c then some (text.dropWhile isGap)
    else none
  | [] => none

/-- Whether a text is a time zone: `Z`, or hours from it and perhaps minutes. -/
def isZone : List Char → Bool
  | ['Z'] => true
  | sign :: text =>
    (sign == '+' || sign == '-') &&
      match afterOneOrTwoDigits text with
      | some [] => true
      | some (':' :: minutes) => afterDigits 2 minutes == some []
      | _ => false
  | [] => false

/-- Whether a text is a date of ten characters, such as `2024-02-29`. -/
def isDate (text : List Char) : Bool :=
  (do
    let text ← afterDigits 4 text
    let text ← afterChar '-' text
    let text ← afterDigits 2 text
    let text ← afterChar '-' text
    afterDigits 2 text) == some []

/-- The text after a date and a time, without the zone. -/
def afterDateTime (text : List Char) : Option (List Char) := do
  let text ← afterDigits 4 text
  let text ← afterChar '-' text
  let text ← afterOneOrTwoDigits text
  let text ← afterChar '-' text
  let text ← afterOneOrTwoDigits text
  let text ← afterDateGap text
  let text ← afterOneOrTwoDigits text
  let text ← afterChar ':' text
  let text ← afterDigits 2 text
  let text ← afterChar ':' text
  let text ← afterDigits 2 text
  match text with
  | '.' :: rest => return rest.dropWhile Char.isDigit
  | _ => return text

/-- Whether a text is a date, or a date and a time with or without a zone. -/
def isTimestamp (text : List Char) : Bool :=
  isDate text ||
  match afterDateTime text with
  | none => false
  | some rest => rest.isEmpty || isZone (rest.dropWhile isGap)

/-- Whether a reader would take a plain scalar for something other than text. -/
def isTyped (text : String) : Bool :=
  booleanWords.contains text || nullWords.contains text || signs.contains text ||
    isInteger text.toList || isFractional text.toList || isTimestamp text.toList

end GradleWorkspace.Yaml
