import GradleWorkspace.Toml.Scalar
import GradleWorkspace.Toml.Table

/-!
# Reading a configuration file

`Toml.parse` reads a TOML file into a table.  A file is a sequence of lines, each with the head
of a table, with a key and its value, or with nothing but a comment.

A table can be declared once, and a value can be set once.  Inline tables and arrays cannot be
extended after they were written.  `Declared` keeps track of what is closed in this way.
-/

namespace GradleWorkspace.Toml

/-! ## Values -/

mutual

/-- A value, with so many levels left for nested values. -/
def readValue : Nat → List Char → Except Error (Taken Value)
  | 0, _ => .error .malformed
  | bound + 1, text =>
    match text with
    | '"' :: _ => (readString text).map fun (s, rest) => (.string (String.ofList s), rest)
    | '\'' :: _ => (readString text).map fun (s, rest) => (.string (String.ofList s), rest)
    | 't' :: 'r' :: 'u' :: 'e' :: rest => .ok (.boolean true, rest)
    | 'f' :: 'a' :: 'l' :: 's' :: 'e' :: rest => .ok (.boolean false, rest)
    | '[' :: rest => do
      match ← skipSpace rest with
      | ']' :: rest => return (.array [], rest)
      | rest =>
        let (items, rest) ← readItems bound rest
        return (.array items, rest)
    | '{' :: rest =>
      match skipBlanks rest with
      | '}' :: rest => .ok (.table [], rest)
      | rest => (readEntries bound [] [] rest).map fun (table, rest) => (.table table, rest)
    | _ => readNumeric text

/-- The items of an array up to the closing bracket.  A comma may stand after the last. -/
def readItems : Nat → List Char → Except Error (Taken (List Value))
  | 0, _ => .error .malformed
  | bound + 1, text => do
    let (item, rest) ← readValue bound text
    match ← skipSpace rest with
    | ']' :: rest => return ([item], rest)
    | ',' :: rest =>
      match ← skipSpace rest with
      | ']' :: rest => return ([item], rest)
      | rest =>
        let (items, rest) ← readItems bound rest
        return (item :: items, rest)
    | _ => .error .malformed

/-- The entries of an inline table up to the closing brace.  The `closed` keys hold inline tables
and arrays, which cannot be extended. -/
def readEntries : Nat → List Key → Table → List Char → Except Error (Taken Table)
  | 0, _, _, _ => .error .malformed
  | bound + 1, closed, table, text => do
    let (key, rest) ← readKey text
    let (value, rest) ← readAssigned bound rest
    if closed.any (·.isPrefixOf key) then .error .malformed
    let table ← table.set false key value
    let closed := match value with
      | .table _ => key :: closed
      | .array _ => key :: closed
      | _ => closed
    match skipBlanks rest with
    | '}' :: rest => return (table, rest)
    | ',' :: rest => readEntries bound closed table (skipBlanks rest)
    | _ => .error .malformed

/-- The value after an equals sign. -/
def readAssigned : Nat → List Char → Except Error (Taken Value)
  | 0, _ => .error .malformed
  | bound + 1, '=' :: rest => readValue bound (skipBlanks rest)
  | _ + 1, _ => .error .malformed

end

/-! ## Declarations -/

/-- What has been declared so far, apart from the values. -/
structure Declared where
  /-- The tables that have a head, or were made by a key in an earlier part of the file. -/
  tables : List Key := []
  /-- The keys that hold inline tables and arrays. -/
  closed : List Key := []
  /-- The tables made by keys since the last head. -/
  pending : List Key := []

/-- Whether a key leads into an inline table or an array. -/
def Declared.isClosed (declared : Declared) (key : Key) : Bool :=
  declared.closed.any (·.isPrefixOf key)

/-- What is declared when the next head is read. -/
def Declared.next (declared : Declared) : Declared :=
  { declared with tables := declared.pending ++ declared.tables, pending := [] }

/-- What is declared when a new item of an array of tables starts. -/
def Declared.restart (declared : Declared) (key : Key) : Declared :=
  { declared with
    tables := key :: declared.tables.filter fun k => !key.isPrefixOf k
    closed := declared.closed.filter fun k => !key.isPrefixOf k }

/-- A file that has been read in part. -/
structure Progress where
  table : Table := []
  declared : Declared := {}
  /-- The table that keys are set in. -/
  head : Key := []

/-! ## Lines -/

/-- The head of a table, after its opening bracket. -/
def readTableHead (progress : Progress) (text : List Char) : Except Error (Taken Progress) := do
  let (key, rest) ← readKey (skipBlanks text)
  let declared := progress.declared.next
  if declared.tables.contains key || declared.isClosed key then .error .malformed
  let table ← progress.table.make key
  match rest with
  | ']' :: rest =>
    let declared := { declared with tables := key :: declared.tables }
    return ({ table, declared, head := key }, rest)
  | _ => .error .malformed

/-- The head of an item of an array of tables, after its opening brackets. -/
def readItemHead (progress : Progress) (text : List Char) : Except Error (Taken Progress) := do
  let (key, rest) ← readKey (skipBlanks text)
  let declared := progress.declared.next
  if declared.isClosed key then .error .malformed
  let table ← progress.table.append key
  match rest with
  | ']' :: ']' :: rest =>
    return ({ table, declared := declared.restart key, head := key }, rest)
  | _ => .error .malformed

/-- The keys of the tables that a key leads through, seen from the root. -/
def keysOnTheWay (head key : Key) : List Key :=
  ((List.range key.length).drop 1).map fun length => head ++ key.take length

/-- A key with its value. -/
def readKeyValue (progress : Progress) (text : List Char) : Except Error (Taken Progress) := do
  let (key, rest) ← readKey text
  let (value, rest) ← readAssigned (rest.length + 1) rest
  let declared := progress.declared
  let onTheWay := keysOnTheWay progress.head key
  let whole := progress.head ++ key
  if onTheWay.any declared.tables.contains || declared.isClosed whole.dropLast then
    .error .malformed
  let table ← progress.table.set true whole value
  let closed := match value with
    | .table _ => whole :: declared.closed
    | .array _ => whole :: declared.closed
    | _ => declared.closed
  return ({ progress with
    table
    declared := { declared with closed, pending := onTheWay ++ declared.pending } }, rest)

/-- What a line holds before its comment. -/
def readStatement (progress : Progress) (text : List Char) : Except Error (Taken Progress) :=
  match text with
  | '[' :: '[' :: rest => readItemHead progress rest
  | '[' :: rest => readTableHead progress rest
  | '#' :: _ => .ok (progress, text)
  | c :: _ =>
    if isBareKeyChar c || c == '"' || c == '\'' then readKeyValue progress text
    else .error .malformed
  | [] => .ok (progress, [])

/-- The lines of a file, of which there are no more than `bound`. -/
def readLines : Nat → Progress → List Char → Except Error Table
  | 0, progress, _ => .ok progress.table
  | bound + 1, progress, text =>
    match skipBlanks text with
    | [] => .ok progress.table
    | '\n' :: rest => readLines bound progress rest
    | text => do
      let (progress, rest) ← readStatement progress text
      match ← skipComment (skipBlanks rest) with
      | [] => return progress.table
      | '\n' :: rest => readLines bound progress rest
      | _ => .error .malformed

/-- The text with simple line ends. -/
def joinLineEnds : List Char → List Char
  | '\r' :: '\n' :: rest => '\n' :: joinLineEnds rest
  | c :: rest => c :: joinLineEnds rest
  | [] => []

/-- The table that the text of a file denotes. -/
def parse (text : String) : Except Error Table :=
  let text := joinLineEnds text.toList
  readLines (text.length + 1) {} text

end GradleWorkspace.Toml
