import GradleWorkspace.Toml.Value

/-!
# Lexemes of a configuration file

The readers of the smallest parts of a TOML file: blanks and comments, strings, and keys.  A
reader takes a value off the front of a text and gives it with the text after it, or tells why
there is none.
-/

namespace GradleWorkspace.Toml

/-- Why a text is not a TOML file, or cannot be read as one. -/
inductive Error
  /-- The text does not follow the rules. -/
  | malformed
  /-- A decimal integer has more digits than can be read. -/
  | tooManyDigits (count : Nat)
  deriving DecidableEq, Repr

/-- A value taken off the front of a text, and the text after it. -/
abbrev Taken (α : Type) := α × List Char

/-! ## Blanks and comments -/

/-- Whether a character is a blank. -/
def isBlank (c : Char) : Bool := c == ' ' || c == '\t'

/-- Whether a character is a blank or the end of a line. -/
def isBlankOrLineEnd (c : Char) : Bool := isBlank c || c == '\n'

/-- The text without the blanks at its front. -/
def skipBlanks (text : List Char) : List Char := text.dropWhile isBlank

/-- Whether a character may not stand in comments and strings. -/
def isControl (c : Char) : Bool := (c < ' ' && c != '\t') || c == '\x7F'

/-- The text from the end of the line on, after a comment if one stands here. -/
def skipComment : List Char → Except Error (List Char)
  | '#' :: rest =>
    if (rest.takeWhile (· != '\n')).any isControl then .error .malformed
    else .ok (rest.dropWhile (· != '\n'))
  | text => .ok text

/-- The text after blanks, line ends and so many comments. -/
def skipLines : Nat → List Char → Except Error (List Char)
  | 0, text => .ok text
  | bound + 1, text => do
    match text.dropWhile isBlankOrLineEnd with
    | '#' :: rest => skipLines bound (← skipComment ('#' :: rest))
    | text => return text

/-- The text after blanks, line ends and comments. -/
def skipSpace (text : List Char) : Except Error (List Char) := skipLines text.length text

/-! ## Strings -/

/-- The value of a hexadecimal digit. -/
def hexValue? (c : Char) : Option Nat :=
  if '0' ≤ c ∧ c ≤ '9' then some (c.toNat - 48)
  else if 'a' ≤ c ∧ c ≤ 'f' then some (c.toNat - 87)
  else if 'A' ≤ c ∧ c ≤ 'F' then some (c.toNat - 55)
  else none

/-- The number that hexadecimal digits denote. -/
def hexNumber? (digits : List Char) : Option Nat :=
  digits.foldlM (fun n c => (hexValue? c).map fun d => 16 * n + d) 0

/-- The character whose code point stands in exactly so many digits at the front of a text. -/
def escapedCodePoint (width : Nat) (text : List Char) : Except Error Char :=
  let digits := text.take width
  match hexNumber? digits with
  | some n =>
    if digits.length = width ∧ n.isValidChar then .ok (Char.ofNat n) else .error .malformed
  | none => .error .malformed

/-- The characters that an escape stands for, and the number of characters that it takes after
its backslash.  In a string of several lines, a backslash before the end of a line takes all
blanks and line ends that follow. -/
def escape (multiline : Bool) : List Char → Except Error (List Char × Nat)
  | [] => .error .malformed
  | c :: rest =>
    if multiline && isBlankOrLineEnd c then
      match skipBlanks (c :: rest) with
      | [] => .ok ([], rest.length + 1)
      | d :: _ =>
        if d = '\n' then .ok ([], ((c :: rest).takeWhile isBlankOrLineEnd).length)
        else .error .malformed
    else
      match c with
      | 'u' => (escapedCodePoint 4 rest).map fun c => ([c], 5)
      | 'U' => (escapedCodePoint 8 rest).map fun c => ([c], 9)
      | 'b' => .ok (['\x08'], 1)
      | 't' => .ok (['\t'], 1)
      | 'n' => .ok (['\n'], 1)
      | 'f' => .ok (['\x0C'], 1)
      | 'r' => .ok (['\r'], 1)
      | '"' => .ok (['"'], 1)
      | '\\' => .ok (['\\'], 1)
      | _ => .error .malformed

/-- Whether a character may not stand in a string. -/
def isIllegal (multiline : Bool) (c : Char) : Bool := isControl c && !(multiline && c == '\n')

/-- The content of a string in double quotes after its opening quotes. -/
def basicContent (multiline : Bool) (text : List Char) : Except Error (Taken (List Char)) :=
  match text with
  | [] => .error .malformed
  | '\\' :: rest => do
    let (chars, length) ← escape multiline rest
    let (content, after) ← basicContent multiline (rest.drop length)
    return (chars ++ content, after)
  | c :: rest =>
    if c = '"' ∧ !multiline then .ok ([], rest)
    else if c = '"' ∧ ['"', '"'].isPrefixOf rest then .ok ([], rest.drop 2)
    else if isIllegal multiline c then .error .malformed
    else (basicContent multiline rest).map fun (content, after) => (c :: content, after)
termination_by text.length
decreasing_by
  · simp only [List.length_cons, List.length_drop]
    omega
  · simp

/-- The content of a string in single quotes after its opening quotes. -/
def literalContent (multiline : Bool) : List Char → Except Error (Taken (List Char))
  | [] => .error .malformed
  | c :: rest =>
    if c = '\'' ∧ !multiline then .ok ([], rest)
    else if c = '\'' ∧ ['\'', '\''].isPrefixOf rest then .ok ([], rest.drop 2)
    else if isIllegal multiline c then .error .malformed
    else (literalContent multiline rest).map fun (content, after) => (c :: content, after)

/-- The content of a string of several lines without a line end right at its start. -/
def dropFirstLineEnd : List Char → List Char
  | '\n' :: rest => rest
  | text => text

/-- The quotes that belong to the content of a string of several lines: up to two before the
closing ones. -/
def withFinalQuotes (quote : Char) (result : List Char × List Char) : List Char × List Char :=
  let extra := ((result.2.take 2).takeWhile (· == quote)).length
  (result.1 ++ List.replicate extra quote, result.2.drop extra)

/-- A string, of one line or of several. -/
def readString : List Char → Except Error (Taken (List Char))
  | '"' :: '"' :: '"' :: rest =>
    (basicContent true (dropFirstLineEnd rest)).map (withFinalQuotes '"')
  | '\'' :: '\'' :: '\'' :: rest =>
    (literalContent true (dropFirstLineEnd rest)).map (withFinalQuotes '\'')
  | '"' :: rest => basicContent false rest
  | '\'' :: rest => literalContent false rest
  | _ => .error .malformed

/-! ## Keys -/

/-- Whether a character can be part of a key without quotes. -/
def isBareKeyChar (c : Char) : Bool := c.isAlphanum || c == '-' || c == '_'

/-- A part of a key: a word, or a string of one line. -/
def readKeyPart : List Char → Except Error (Taken String)
  | '"' :: rest => (basicContent false rest).map fun (part, rest) => (String.ofList part, rest)
  | '\'' :: rest => (literalContent false rest).map fun (part, rest) => (String.ofList part, rest)
  | text =>
    match text.takeWhile isBareKeyChar with
    | [] => .error .malformed
    | part => .ok (String.ofList part, text.dropWhile isBareKeyChar)

/-- The parts of a key, with a point and perhaps blanks between them.  A key cannot have more
parts than `bound`. -/
def readKeyParts : Nat → List Char → Except Error (Taken (List String))
  | 0, _ => .error .malformed
  | bound + 1, text => do
    let (part, rest) ← readKeyPart text
    match skipBlanks rest with
    | '.' :: rest =>
      let (parts, rest) ← readKeyParts bound (skipBlanks rest)
      return (part :: parts, rest)
    | rest => return ([part], rest)

/-- A key, and the blanks after it. -/
def readKey (text : List Char) : Except Error (Taken (List String)) :=
  readKeyParts (text.length + 1) text

end GradleWorkspace.Toml
