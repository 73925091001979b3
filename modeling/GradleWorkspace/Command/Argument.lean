import GradleWorkspace.Text.DecimalDigit

/-!
# Command-line arguments

An argument of the command is a directory, or it starts with a hyphen and holds options.  An
option has a long name, which may be shortened as long as it stays distinct, and may have a
letter.  The value of an option is the next argument, or follows after an equals sign or, for a
letter, directly.  Letters can be joined; then all that follows a letter with a value is the
value, and an equals sign has no meaning except after the first letter.

* `Argument.of?` tells what an argument is, taken alone.
* `Argument.ofAll?` does so for all arguments; after `--`, none of them holds options.
-/

namespace GradleWorkspace.Command

/-! ## Options -/

/-- The options of the command. -/
inductive Switch
  | help
  | output
  | format
  | requested
  | strict
  | verbose
  deriving DecidableEq, Repr

/-- The long names of options. -/
def longNames : List (String × Switch) :=
  [("--help", .help), ("--output", .output), ("--format", .format), ("--module", .requested),
    ("--strict", .strict), ("--verbose", .verbose)]

/-- The letters of options. -/
def letters : List (Char × Switch) := [('h', .help), ('o', .output), ('v', .verbose)]

/-- Whether an option has a value. -/
def Switch.takesValue : Switch → Bool
  | output => true
  | format => true
  | requested => true
  | _ => false

/-- The mark after which there are no options.  As a value of an option it counts as none. -/
def separatorText : String := "--"

/-! ## What an argument is -/

/-- How an argument with options ends. -/
inductive Ending
  | complete
  /-- In an option whose value is the next argument. -/
  | awaits (switch : Switch)
  /-- In a text that names no option. -/
  | unknown
  /-- In a text after an option that has no value. -/
  | excess
  deriving DecidableEq, Repr

/-- The options in an argument. -/
structure Switches where
  /-- The options before the end, with their values. -/
  settings : List (Switch × Option String) := []
  ending : Ending := .complete
  deriving DecidableEq, Repr

/-- An argument, taken alone. -/
inductive Argument
  /-- A directory, or the value of the option before. -/
  | plain (text : String)
  | switches (switches : Switches)
  /-- The mark after which there are no options. -/
  | separator
  deriving DecidableEq, Repr

namespace Switches

/-- An option at the end of its argument. -/
def last (switch : Switch) : Switches :=
  if switch.takesValue then { ending := .awaits switch } else { settings := [(switch, none)] }

/-- An option with a value in its argument. -/
def withValue (switch : Switch) (value : List Char) : Switches :=
  if switch.takesValue then { settings := [(switch, some (String.ofList value))] }
  else { ending := .excess }

/-- Options after another one without a value. -/
def after (switch : Switch) (others : Switches) : Switches :=
  { others with settings := (switch, none) :: others.settings }

/-- The options in an argument that starts with a letter and has some text after it.  The text
is the value of the option, or else it goes on with the next letter. -/
def ofLetters (switch : Switch) : List Char → Switches
  | [] => withValue switch []
  | c :: rest =>
    if switch.takesValue then withValue switch (c :: rest)
    else
      match letters.lookup c, rest with
      | none, _ => { ending := .excess }
      | some next, [] => after switch (last next)
      | some next, d :: others => after switch (ofLetters next (d :: others))

/-- An option by its long name, with the value that stands in the same argument. -/
def ofLong (switch : Switch) : Option (List Char) → Switches
  | none => last switch
  | some value => withValue switch value

end Switches

/-- A text before its first equals sign, and the text after it if there is one. -/
def splitAtEquals (text : List Char) : List Char × Option (List Char) :=
  (text.takeWhile (· != '='), (text.dropWhile (· != '=')).tail?)

/-- The options whose long names start with a text. -/
def longMatches (start : List Char) : List Switch :=
  (longNames.filter fun (name, _) => start.isPrefixOf name.toList).map (·.2)

/-- Whether a text is the number of a negative quantity, with or without a point, and perhaps
with a line feed after it. -/
def isNegativeNumber : List Char → Bool
  | '-' :: rest =>
    let rest := if rest.getLast? = some '\n' then rest.dropLast else rest
    match rest.dropWhile Text.isDecimalDigit with
    | [] => !rest.isEmpty
    | '.' :: digits => !digits.isEmpty && digits.all Text.isDecimalDigit
    | _ => false
  | _ => false

namespace Argument

/-- What an argument is that starts with a hyphen and names no option. -/
def ofOther (text : List Char) : Argument :=
  if isNegativeNumber text || text.contains ' ' then .plain (String.ofList text)
  else .switches { ending := .unknown }

/-- What an argument is that starts with two hyphens.  A name that several options start with
is refused. -/
def ofLong? (text : List Char) : Option Argument :=
  let (name, value) := splitAtEquals text
  match longNames.lookup (String.ofList name), longMatches name with
  | some switch, _ => some (.switches (.ofLong switch value))
  | none, [switch] => some (.switches (.ofLong switch value))
  | none, [] => some (ofOther text)
  | none, _ => none

/-- What an argument is that starts with one hyphen and a letter. -/
def ofLetter (letter : Char) (rest : List Char) : Argument :=
  match letters.lookup letter, rest with
  | none, _ => ofOther ('-' :: letter :: rest)
  | some switch, [] => .switches (.last switch)
  | some switch, '=' :: value => .switches (.ofLetters switch value)
  | some switch, _ => .switches (.ofLetters switch rest)

/-- What an argument is, unless several options start with the name in it. -/
def of? (text : String) : Option Argument :=
  if text = separatorText then some .separator
  else
    match text.toList with
    | '-' :: '-' :: rest => ofLong? ('-' :: '-' :: rest)
    | '-' :: letter :: rest => some (ofLetter letter rest)
    | _ => some (.plain text)

/-- What the arguments are, one by one, unless the name in one of them is not distinct. -/
def ofAll? : List String → Option (List Argument)
  | [] => some []
  | text :: rest =>
    match of? text with
    | none => none
    | some .separator => some (.separator :: rest.map .plain)
    | some argument => (ofAll? rest).map (argument :: ·)

end Argument

end GradleWorkspace.Command
