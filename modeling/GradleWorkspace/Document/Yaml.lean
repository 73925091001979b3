import GradleWorkspace.Document
import GradleWorkspace.Yaml.Scalar

/-!
# Documents in YAML

Lists and records are written in block style: each item after a hyphen and each field after its
name, on lines of their own, with two columns for each level.  A list that is the value of a
field starts at the column of the field.  An empty list or record is written as two brackets.

A name that is empty, too long or of several lines cannot stand before its value on one line;
such a field is written with a question mark before the name and a colon before the value.
-/

namespace GradleWorkspace.Document

open Yaml

/-- The length from which on a name does not stand on one line with its value. -/
def longName : Nat := 123

/-- Whether a name can stand on one line with its value. -/
def isSimpleName (name : String) : Bool :=
  name.length < longName && !name.isEmpty && !name.toList.any fun c =>
    c == '\n' || c == '\u0085' || c == '\u2028' || c == '\u2029'

/-- Where a value stands. -/
inductive Place
  /-- After the name of a field, on the same line. -/
  | afterName
  /-- After a hyphen, a question mark or a colon at the start of a line. -/
  | afterMark
  deriving DecidableEq, Repr

/-- The step to the next line of a collection, at its column. -/
def nextLine (column : Nat) : List Char := '\n' :: List.replicate column ' '

/-- The step to the first line of a collection at a column: right after a mark, it stays on the
line. -/
def firstLine (place : Place) (column : Nat) : List Char :=
  match place with
  | .afterName => nextLine column
  | .afterMark => [' ']

/-- The column of the items of a list, in a collection at a column. -/
def itemColumn (place : Place) (column : Nat) : Nat :=
  match place with
  | .afterName => column
  | .afterMark => column + 2

/-- The name of a field in a record at a column, up to the mark before the value. -/
def yamlName (column : Nat) (name : String) : List Char :=
  if isSimpleName name then scalar false (column + 2) column name ++ [':']
  else '?' :: ' ' :: scalar true (column + 2) (column + 2) name ++ nextLine column ++ [':']

/-- The place of the value after a name. -/
def placeAfter (name : String) : Place :=
  if isSimpleName name then .afterName else .afterMark

/-- The column of the value after a name in a record at a column. -/
def columnAfter (column : Nat) (name : String) : Nat :=
  if isSimpleName name then column + (yamlName column name).length else column + 1

mutual

/-- A value in a collection whose lines start at `column`, written at column `position`. -/
def yamlValue (place : Place) (column position : Nat) : Document → List Char
  | .null => ' ' :: "null".toList
  | .text content => ' ' :: scalar true (column + 2) (position + 1) content
  | .list [] => [' ', '[', ']']
  | .list (item :: items) =>
    let inner := itemColumn place column
    firstLine place inner ++ '-' :: yamlValue .afterMark inner (inner + 1) item ++
      yamlItems inner items
  | .record [] => [' ', '{', '}']
  | .record ((name, value) :: fields) =>
    let inner := column + 2
    firstLine place inner ++ yamlName inner name ++
      yamlValue (placeAfter name) inner (columnAfter inner name) value ++ yamlFields inner fields

/-- The items of a list after the first. -/
def yamlItems (column : Nat) : List Document → List Char
  | [] => []
  | item :: items =>
    nextLine column ++ '-' :: yamlValue .afterMark column (column + 1) item ++
      yamlItems column items

/-- The fields of a record after the first. -/
def yamlFields (column : Nat) : List (String × Document) → List Char
  | [] => []
  | (name, value) :: fields =>
    nextLine column ++ yamlName column name ++
      yamlValue (placeAfter name) column (columnAfter column name) value ++
        yamlFields column fields

end

/-- The fields of a record in YAML, with the end of the last line. -/
def toYaml : List (String × Document) → String
  | [] => "\x7b\x7d\n"
  | (name, value) :: fields =>
    String.ofList (yamlName 0 name ++ yamlValue (placeAfter name) 0 (columnAfter 0 name) value ++
      yamlFields 0 fields ++ ['\n'])

end GradleWorkspace.Document
