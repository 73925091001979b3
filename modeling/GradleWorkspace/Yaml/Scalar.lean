import GradleWorkspace.Yaml.Typed
import GradleWorkspace.Text.Quoted

/-!
# Texts as YAML scalars

A text is written in the plainest style that reads back as the same text: without quotes, in
single quotes, or in double quotes.  Lines longer than `lineWidth` are folded at single blanks;
in double quotes a backslash marks the fold.

The functions that write a scalar know the column of its first character and the column at
which folded lines start.
-/

namespace GradleWorkspace.Yaml

open Text (hex)

/-- A line is folded when it reaches beyond this column. -/
def lineWidth : Nat := 80

/-- How a text is written. -/
inductive Style
  | plain
  | singleQuoted
  | doubleQuoted
  deriving DecidableEq, Repr

/-! ## The choice of a style -/

/-- Whether a character can be written without an escape: a printable ASCII character or the
end of a line. -/
def isSimple (c : Char) : Bool := c == '\n' || (' ' ≤ c && c ≤ '~')

/-- Whether a character at the start of a plain scalar would mean something else. -/
def isLeadingIndicator (c : Char) : Bool := "#,[]\x7b\x7d&*!|>'\"%@\x60".toList.contains c

/-- Whether nothing or a blank follows, so that a sign before it would mean something else. -/
def blankFollows (rest : List Char) : Bool :=
  match rest with
  | [] => true
  | c :: _ => c == ' ' || c == '\n'

/-- Whether a text starts with a sign that a plain scalar cannot start with. -/
def startsWithIndicator : List Char → Bool
  | [] => false
  | c :: rest =>
    isLeadingIndicator c || ((c == '?' || c == ':' || c == '-') && blankFollows rest) ||
      "---".toList.isPrefixOf (c :: rest) || "...".toList.isPrefixOf (c :: rest)

/-- Whether a text holds a sign that a plain scalar cannot hold: a colon before a blank, or a
number sign after one. -/
def holdsIndicator : List Char → Bool
  | [] => false
  | c :: rest =>
    (c == ':' && blankFollows rest) || (c == ' ' && rest.head? == some '#') ||
      holdsIndicator rest

/-- Whether a blank stands before or after the end of a line. -/
def blankAtLineEnd : List Char → Bool
  | a :: b :: rest =>
    (a == ' ' && b == '\n') || (a == '\n' && b == ' ') || blankAtLineEnd (b :: rest)
  | _ => false

/-- Whether a text can be written without quotes. -/
def allowsPlain (text : List Char) : Bool :=
  text.all (fun c => isSimple c && c != '\n') && !startsWithIndicator text &&
    !holdsIndicator text && text.head? != some ' ' && text.getLast? != some ' '

/-- Whether a text can be written in single quotes. -/
def allowsSingleQuotes (text : List Char) : Bool := text.all isSimple && !blankAtLineEnd text

/-- The plainest style for a text. -/
def styleFor (text : String) : Style :=
  if !isTyped text && allowsPlain text.toList then .plain
  else if allowsSingleQuotes text.toList then .singleQuoted
  else .doubleQuoted

/-! ## Writing -/

/-- A line end, and blanks up to the column at which folded lines start. -/
def fold (indent : Nat) : List Char := '\n' :: List.replicate indent ' '

/-- A text without escapes.  A single blank between two words becomes the end of a line if the
words before it reach beyond `lineWidth`; the end of a line is written as an empty line.  A
single quote is written twice if the text stands in single quotes.

`previous` is the character before the text. -/
def writeFolded (style : Style) (split : Bool) (indent : Nat) :
    Nat → Option Char → List Char → List Char
  | _, _, [] => []
  | column, previous, c :: rest =>
    if c = ' ' then
      let single := previous.isSome && previous != some ' ' && !rest.isEmpty &&
        rest.head? != some ' '
      if split && single && column > lineWidth then
        fold indent ++ writeFolded style split indent indent (some c) rest
      else ' ' :: writeFolded style split indent (column + 1) (some c) rest
    else if c = '\n' then
      (if previous = some '\n' then [] else ['\n']) ++
        (if rest.head? = some '\n' then ['\n'] else fold indent) ++
          writeFolded style split indent indent (some c) rest
    else if c = '\'' ∧ style = .singleQuoted then
      '\'' :: '\'' :: writeFolded style split indent (column + 2) (some c) rest
    else c :: writeFolded style split indent (column + 1) (some c) rest

/-- The letter that stands for a character after a backslash. -/
def escapeLetter? (c : Char) : Option Char :=
  [('\x00', '0'), ('\x07', 'a'), ('\x08', 'b'), ('\t', 't'), ('\n', 'n'), ('\x0B', 'v'),
    ('\x0C', 'f'), ('\r', 'r'), ('\x1B', 'e'), ('"', '"'), ('\\', '\\'), ('\u0085', 'N'),
    ('\u00A0', '_'), ('\u2028', 'L'), ('\u2029', 'P')].lookup c

/-- A character as an escape in double quotes. -/
def escape (c : Char) : List Char :=
  match escapeLetter? c with
  | some letter => ['\\', letter]
  | none =>
    let digits width := (hex width c.toNat).map Char.toUpper
    if c.toNat < 0x100 then '\\' :: 'x' :: digits 2
    else if c.toNat < 0x10000 then '\\' :: 'u' :: digits 4
    else '\\' :: 'U' :: digits 8

/-- Whether a character needs an escape in double quotes. -/
def needsEscape (c : Char) : Bool := c == '"' || c == '\\' || !(' ' ≤ c && c ≤ '~')

/-- A fold in double quotes: a backslash, the end of the line, and a backslash before a blank
that the next line starts with. -/
def escapedFold (indent : Nat) (next : Option Char) : List Char :=
  '\\' :: fold indent ++ if next = some ' ' then ['\\'] else []

/-- The column after a fold in double quotes. -/
def columnAfterFold (indent : Nat) (next : Option Char) : Nat :=
  if next = some ' ' then indent + 1 else indent

/-- A text with escapes.  A line that reaches beyond `lineWidth` is folded before a blank, and
before or after an escape, but neither next to the first nor next to the last character.

`first` says that the text starts here, and `fresh` that an escape or a fold stands right
before it. -/
def writeEscaped (split : Bool) (indent : Nat) :
    Nat → Bool → Bool → List Char → List Char
  | _, _, _, [] => []
  | column, first, fresh, c :: rest =>
    let inner := split && !first && !rest.isEmpty
    if needsEscape c then
      let column := column + (escape c).length
      if inner && column - 1 > lineWidth then
        escape c ++ escapedFold indent rest.head? ++
          writeEscaped split indent (columnAfterFold indent rest.head?) false true rest
      else escape c ++ writeEscaped split indent column false true rest
    else if inner && (c == ' ' || fresh) && column > lineWidth then
      escapedFold indent (some c) ++
        c :: writeEscaped split indent (columnAfterFold indent (some c) + 1) false false rest
    else c :: writeEscaped split indent (column + 1) false false rest

/-- A text as a scalar that starts at a column.  It is folded only if `split` allows it. -/
def scalar (split : Bool) (indent column : Nat) (text : String) : List Char :=
  match styleFor text with
  | .plain => writeFolded .plain split indent column none text.toList
  | .singleQuoted =>
    '\'' :: writeFolded .singleQuoted split indent (column + 1) none text.toList ++ ['\'']
  | .doubleQuoted =>
    '"' :: writeEscaped split indent (column + 1) true true text.toList ++ ['"']

end GradleWorkspace.Yaml
