import GradleWorkspace.Document
import GradleWorkspace.Text.Quoted

/-!
# Documents in JSON

Each item of a list and each field of a record stands on a line of its own, two columns to the
right of the brackets.  An empty list or record is written as two brackets.  Strings hold only
printable ASCII characters; a character beyond is written as one or two units of UTF-16.
-/

namespace GradleWorkspace.Document

open Text (hex)

/-! ## Strings -/

/-- A unit of UTF-16 by its four hexadecimal digits. -/
def jsonUnit (n : Nat) : List Char := '\\' :: 'u' :: hex 4 n

/-- A character as it is written in a string. -/
def jsonChar (c : Char) : List Char :=
  if c = '"' ∨ c = '\\' then ['\\', c]
  else if c = '\n' then ['\\', 'n']
  else if c = '\r' then ['\\', 'r']
  else if c = '\t' then ['\\', 't']
  else if c = '\x08' then ['\\', 'b']
  else if c = '\x0C' then ['\\', 'f']
  else if ' ' ≤ c ∧ c ≤ '~' then [c]
  else if c.toNat < 0x10000 then jsonUnit c.toNat
  else
    jsonUnit (0xD800 + (c.toNat - 0x10000) / 0x400) ++
      jsonUnit (0xDC00 + (c.toNat - 0x10000) % 0x400)

/-- A text as a string in quotes. -/
def jsonString (text : String) : List Char := '"' :: text.toList.flatMap jsonChar ++ ['"']

/-! ## Documents -/

/-- The end of a line, and blanks up to a column. -/
def newline (column : Nat) : List Char := '\n' :: List.replicate column ' '

mutual

/-- A document whose own lines start at a column. -/
def jsonAt (column : Nat) : Document → List Char
  | .null => "null".toList
  | .text content => jsonString content
  | .list [] => ['[', ']']
  | .list (item :: items) =>
    '[' :: newline (column + 2) ++ jsonAt (column + 2) item ++ jsonItems (column + 2) items ++
      newline column ++ [']']
  | .record [] => ['{', '}']
  | .record ((name, value) :: fields) =>
    '{' :: newline (column + 2) ++ jsonString name ++ [':', ' '] ++ jsonAt (column + 2) value ++
      jsonFields (column + 2) fields ++ newline column ++ ['}']

/-- The items of a list after the first. -/
def jsonItems (column : Nat) : List Document → List Char
  | [] => []
  | item :: items => ',' :: newline column ++ jsonAt column item ++ jsonItems column items

/-- The fields of a record after the first. -/
def jsonFields (column : Nat) : List (String × Document) → List Char
  | [] => []
  | (name, value) :: fields =>
    ',' :: newline column ++ jsonString name ++ [':', ' '] ++ jsonAt column value ++
      jsonFields column fields

end

/-- A document in JSON, with the end of the last line. -/
def toJson (document : Document) : String := String.ofList (jsonAt 0 document ++ ['\n'])

end GradleWorkspace.Document
