import GradleWorkspace.Decimal.Shortest
import GradleWorkspace.Text.Quoted

/-!
# Values of a configuration file

The values that a TOML file can hold, and `Value.display`, the text by which a message shows a
value.
-/

namespace GradleWorkspace.Toml

/-- A day of the calendar. -/
structure Date where
  year : Nat
  month : Nat
  day : Nat
  deriving DecidableEq, Repr

/-- A time of day. -/
structure Time where
  hour : Nat
  minute : Nat
  second : Nat
  microsecond : Nat
  deriving DecidableEq, Repr

/-- A value in a TOML file. -/
inductive Value
  | string (text : String)
  | integer (n : Int)
  | float (x : Binary64)
  | boolean (b : Bool)
  | date (day : Date)
  | time (time : Time)
  /-- A time on a day, and how many minutes the clock is ahead, if that is known. -/
  | dateTime (day : Date) (time : Time) (offset : Option Int)
  | array (items : List Value)
  | table (entries : List (String × Value))

/-- The entries of a table, in the order in which their keys were first set. -/
abbrev Table := List (String × Value)

/-! ## Display -/

/-- Numbers with commas between them. -/
def commaSeparated (numbers : List Nat) : String := ", ".intercalate (numbers.map toString)

/-- A day in numbers. -/
def Date.numbers (day : Date) : List Nat := [day.year, day.month, day.day]

/-- A time in numbers; seconds and their parts are left out if they are zero. -/
def Time.numbers (time : Time) : List Nat :=
  [time.hour, time.minute] ++
    if time.microsecond ≠ 0 then [time.second, time.microsecond]
    else if time.second ≠ 0 then [time.second]
    else []

/-- A time zone that is so many minutes ahead. -/
def displayZone (minutes : Int) : String :=
  if minutes = 0 then "datetime.timezone.utc"
  else
    let seconds := minutes * 60
    let days := seconds.fdiv 86400
    let dayText := if days = 0 then "" else "days=" ++ toString days ++ ", "
    "datetime.timezone(datetime.timedelta(" ++ dayText ++ "seconds=" ++
      toString (seconds.fmod 86400) ++ "))"

/-- A time on a day, with its zone if that is known. -/
def displayDateTime (day : Date) (time : Time) (offset : Option Int) : String :=
  let zone := match offset with
    | none => ""
    | some minutes => ", tzinfo=" ++ displayZone minutes
  "datetime.datetime(" ++ commaSeparated (day.numbers ++ time.numbers) ++ zone ++ ")"

mutual

/-- The text by which a message shows a value. -/
def Value.display : Value → String
  | .string text => Text.quoted text
  | .integer n => toString n
  | .float x => x.text
  | .boolean b => if b then "True" else "False"
  | .date day => "datetime.date(" ++ commaSeparated day.numbers ++ ")"
  | .time time => "datetime.time(" ++ commaSeparated time.numbers ++ ")"
  | .dateTime day time offset => displayDateTime day time offset
  | .array items => "[" ++ ", ".intercalate (displayItems items) ++ "]"
  | .table entries => "\x7b" ++ ", ".intercalate (displayEntries entries) ++ "\x7d"

/-- The texts of the items of an array. -/
def displayItems : List Value → List String
  | [] => []
  | item :: items => item.display :: displayItems items

/-- The texts of the entries of a table. -/
def displayEntries : List (String × Value) → List String
  | [] => []
  | (key, value) :: entries =>
    (Text.quoted key ++ ": " ++ value.display) :: displayEntries entries

end

end GradleWorkspace.Toml
