import GradleWorkspace.Text.Front
import GradleWorkspace.Toml.Lexeme

/-!
# Numbers and dates of a configuration file

The readers of the values that start with a digit or a sign.  A date is tried before a time,
and both before a number.
-/

namespace GradleWorkspace.Toml

open Text (afterChar)

/-- The number that digits to a base denote. -/
def numberToBase (base : Nat) (digits : List Char) : Nat :=
  digits.foldl (fun n c => base * n + (hexValue? c).getD 0) 0

/-! ## Dates and times -/

/-- The number in exactly so many digits at the front of a text. -/
def readDigits (width : Nat) (text : List Char) : Option (Nat × List Char) :=
  let digits := text.take width
  if digits.length = width ∧ digits.all Char.isDigit then
    some (numberToBase 10 digits, text.drop width)
  else none

/-- The number in exactly two digits, if it lies in a range. -/
def readTwoDigits (low high : Nat) (text : List Char) : Option (Nat × List Char) := do
  let (n, text) ← readDigits 2 text
  if low ≤ n ∧ n ≤ high then some (n, text) else none

/-- The millionths in a run of digits after the point, of which the first six count. -/
def microseconds (digits : List Char) : Nat :=
  numberToBase 10 ((digits ++ List.replicate 6 '0').take 6)

/-- A time of day with seconds, and perhaps a fraction of them. -/
def readTime (text : List Char) : Option (Time × List Char) := do
  let (hour, text) ← readTwoDigits 0 23 text
  let text ← afterChar ':' text
  let (minute, text) ← readTwoDigits 0 59 text
  let text ← afterChar ':' text
  let (second, text) ← readTwoDigits 0 59 text
  match text with
  | '.' :: rest =>
    match rest.takeWhile Char.isDigit with
    | [] => return (⟨hour, minute, second, 0⟩, text)
    | digits => return (⟨hour, minute, second, microseconds digits⟩, rest.dropWhile Char.isDigit)
  | _ => return (⟨hour, minute, second, 0⟩, text)

/-- The hours and minutes by which a clock is ahead or behind. -/
def readOffset (text : List Char) : Option (Int × List Char) :=
  match text with
  | [] => none
  | c :: rest =>
    if c = 'Z' ∨ c = 'z' then some (0, rest)
    else if c = '+' ∨ c = '-' then do
      let (hours, rest) ← readTwoDigits 0 23 rest
      let rest ← afterChar ':' rest
      let (minutes, rest) ← readTwoDigits 0 59 rest
      let total : Int := hours * 60 + minutes
      return (if c = '+' then total else -total, rest)
    else none

/-- A year, a month and a day by their digits. -/
def readDay (text : List Char) : Option (Date × List Char) := do
  let (year, text) ← readDigits 4 text
  let text ← afterChar '-' text
  let (month, text) ← readTwoDigits 1 12 text
  let text ← afterChar '-' text
  let (day, text) ← readTwoDigits 1 31 text
  return (⟨year, month, day⟩, text)

/-- The time of day after the mark that follows a date. -/
def readTimeOfDay : List Char → Option (Time × List Char)
  | c :: text => if c = 'T' ∨ c = 't' ∨ c = ' ' then readTime text else none
  | [] => none

/-- Whether a year has a leap day. -/
def isLeapYear (year : Nat) : Bool := year % 4 == 0 && (year % 100 != 0 || year % 400 == 0)

/-- The number of days in a month. -/
def daysInMonth (year month : Nat) : Nat :=
  if month = 2 then if isLeapYear year then 29 else 28
  else if month = 4 ∨ month = 6 ∨ month = 9 ∨ month = 11 then 30
  else 31

/-- Whether a day exists.  Years count from one. -/
def Date.isValid (day : Date) : Bool := 1 ≤ day.year && day.day ≤ daysInMonth day.year day.month

/-- A date, alone or with a time of day. -/
def readDate (text : List Char) : Option (Date × Value × List Char) := do
  let (day, text) ← readDay text
  match readTimeOfDay text with
  | none => return (day, .date day, text)
  | some (time, text) =>
    match readOffset text with
    | none => return (day, .dateTime day time none, text)
    | some (offset, text) => return (day, .dateTime day time (some offset), text)

/-! ## Numbers -/

/-- The digits of a class at the front of a text.  An underscore may stand between two digits;
it does not count. -/
def readGrouped (inClass : Char → Bool) : List Char → List Char × List Char
  | [] => ([], [])
  | '_' :: d :: rest =>
    if inClass d then
      let (digits, rest) := readGrouped inClass rest
      (d :: digits, rest)
    else ([], '_' :: d :: rest)
  | c :: rest =>
    if inClass c then
      let (digits, rest) := readGrouped inClass rest
      (c :: digits, rest)
    else ([], c :: rest)

/-- One digit of a class or more. -/
def readSome (inClass : Char → Bool) : List Char → Option (List Char × List Char)
  | c :: rest => if inClass c then some (readGrouped inClass (c :: rest)) else none
  | [] => none

/-- A whole number in hexadecimal, binary or octal digits after its mark. -/
def readBased : List Char → Option (Nat × List Char)
  | '0' :: 'x' :: rest =>
    (readSome (fun c => (hexValue? c).isSome) rest).map fun (ds, rest) => (numberToBase 16 ds, rest)
  | '0' :: 'b' :: rest =>
    (readSome (fun c => c == '0' || c == '1') rest).map fun (ds, rest) => (numberToBase 2 ds, rest)
  | '0' :: 'o' :: rest =>
    (readSome (fun c => '0' ≤ c && c ≤ '7') rest).map fun (ds, rest) => (numberToBase 8 ds, rest)
  | _ => none

/-- Whether a text starts with a minus sign, and the text after a sign. -/
def readSign : List Char → Bool × List Char
  | '-' :: rest => (true, rest)
  | '+' :: rest => (false, rest)
  | text => (false, text)

/-- The digits of a whole number: zero alone, or digits of which the first is not zero. -/
def readWhole : List Char → Option (List Char × List Char)
  | '0' :: rest => some (['0'], rest)
  | text => readSome Char.isDigit text

/-- The digits after a point. -/
def readFraction : List Char → Option (List Char × List Char)
  | '.' :: rest => readSome Char.isDigit rest
  | _ => none

/-- A power of ten after its mark. -/
def readExponent : List Char → Option (Int × List Char)
  | c :: rest =>
    if c = 'e' ∨ c = 'E' then do
      let (negative, rest) := readSign rest
      let (digits, rest) ← readSome Char.isDigit rest
      let power : Int := numberToBase 10 digits
      return (if negative then -power else power, rest)
    else none
  | [] => none

/-- The greatest number of digits that a decimal integer can have. -/
def maxDigits : Nat := 4300

/-- A decimal number: an integer, unless a fraction or an exponent follows. -/
def readDecimal (text : List Char) : Option (Except Error Value × List Char) := do
  let (negative, text) := readSign text
  let (whole, text) ← readWhole text
  let fraction := readFraction text
  let text := (fraction.map (·.2)).getD text
  let exponent := readExponent text
  let text := (exponent.map (·.2)).getD text
  match fraction, exponent with
  | none, none =>
    let n : Int := numberToBase 10 whole
    let value : Except Error Value :=
      if whole.length > maxDigits then .error (.tooManyDigits whole.length)
      else .ok (.integer (if negative then -n else n))
    return (value, text)
  | _, _ =>
    let part := (fraction.map (·.1)).getD []
    let power := (exponent.map (·.1)).getD 0
    let x := Binary64.ofDecimal negative (numberToBase 10 (whole ++ part)) (power - part.length)
    return (.ok (.float x), text)

/-- Infinity, or no number, with or without a sign. -/
def readSpecial (text : List Char) : Option (Value × List Char) :=
  let (negative, rest) := readSign text
  if ['i', 'n', 'f'].isPrefixOf rest then some (.float (.infinite negative), rest.drop 3)
  else if ['n', 'a', 'n'].isPrefixOf rest then some (.float .nan, rest.drop 3)
  else none

/-- A date, a time or a number. -/
def readNumeric (text : List Char) : Except Error (Taken Value) :=
  match readDate text with
  | some (day, value, rest) => if day.isValid then .ok (value, rest) else .error .malformed
  | none =>
    match readTime text with
    | some (time, rest) => .ok (.time time, rest)
    | none =>
      match readBased text with
      | some (n, rest) => .ok (.integer n, rest)
      | none =>
        match readDecimal text with
        | some (value, rest) => value.map fun value => (value, rest)
        | none =>
          match readSpecial text with
          | some (value, rest) => .ok (value, rest)
          | none => .error .malformed

end GradleWorkspace.Toml
