import GradleWorkspace.OrderedMap
import GradleWorkspace.Toml.Lexeme

/-!
# Tables of a configuration file

A key of several parts leads through nested tables; tables that do not exist yet are made on the
way.  `Table.modify` changes the table that a key leads to, and `Table.set` sets a key that is
not set yet.
-/

namespace GradleWorkspace.Toml

/-- A key with its parts. -/
abbrev Key := List String

namespace Table

/-- The table after the one that a key leads to was changed.  Through an array of tables, a key
leads to its last item if `throughArrays` allows it. -/
def modify (throughArrays : Bool) (change : Table → Except Error Table) :
    Key → Table → Except Error Table
  | [], table => change table
  | part :: parts, table =>
    match table.lookup part with
    | none => do
      let inner ← modify throughArrays change parts []
      return OrderedMap.setEntry part (.table inner) table
    | some (.table inner) => do
      let inner ← modify throughArrays change parts inner
      return OrderedMap.setEntry part (.table inner) table
    | some (.array items) =>
      match throughArrays, items.getLast? with
      | true, some (.table inner) => do
        let inner ← modify throughArrays change parts inner
        return OrderedMap.setEntry part (.array (items.dropLast ++ [.table inner])) table
      | _, _ => .error .malformed
    | some _ => .error .malformed

/-- The table after the tables that a key leads through were made. -/
def make (key : Key) (table : Table) : Except Error Table := modify true .ok key table

/-- The table after a part was set that was not set before. -/
def setNew (part : String) (value : Value) (table : Table) : Except Error Table :=
  if (table.lookup part).isSome then .error .malformed
  else .ok (OrderedMap.setEntry part value table)

/-- The table after a key was set that was not set before. -/
def set (throughArrays : Bool) (key : Key) (value : Value) (table : Table) :
    Except Error Table :=
  match key.getLast? with
  | none => .error .malformed
  | some part => modify throughArrays (setNew part value) key.dropLast table

/-- The table after an empty table was added to an array. -/
def appendItem (part : String) (table : Table) : Except Error Table :=
  match table.lookup part with
  | none => .ok (OrderedMap.setEntry part (.array [.table []]) table)
  | some (.array items) =>
    .ok (OrderedMap.setEntry part (.array (items ++ [.table []])) table)
  | some _ => .error .malformed

/-- The table after an empty table was added to the array that a key leads to. -/
def append (key : Key) (table : Table) : Except Error Table :=
  match key.getLast? with
  | none => .error .malformed
  | some part => modify true (appendItem part) key.dropLast table

/-- The table that a key leads to. -/
def table? : Key → Table → Option Table
  | [], table => some table
  | part :: parts, table =>
    match table.lookup part with
    | some (.table inner) => table? parts inner
    | _ => none

end Table

end GradleWorkspace.Toml
