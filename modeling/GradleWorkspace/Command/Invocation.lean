import GradleWorkspace.Command.Argument
import GradleWorkspace.Command.Run

/-!
# Invoking the command

An invocation of the command consists of its arguments and the file tree that it works on.

* `Request.ofArguments?` reads the arguments from left to right.
* `reply` tells what the command answers: what it writes, and its exit status.
-/

namespace GradleWorkspace.Command

/-! ## Requests -/

/-- What the arguments ask for. -/
inductive Request
  /-- To explain how to use the command. -/
  | help
  /-- To run with some options, of which the `valueless` were given no value that counts. -/
  | run (options : Options) (valueless : List Switch)
  deriving DecidableEq, Repr

/-- Why reading the arguments stops before the last one. -/
inductive Stop
  | help
  /-- The arguments cannot be understood. -/
  | misuse
  deriving DecidableEq, Repr

/-- What is known after some of the arguments. -/
structure Progress where
  workspace : Option String := none
  /-- The options; their workspace is not known yet. -/
  options : Options := { workspace := {} }
  /-- The options that were last given no value that counts. -/
  valueless : List Switch := []
  /-- Whether there was an argument that the command has no use for. -/
  surplus : Bool := false
  deriving DecidableEq, Repr

namespace Progress

/-- What is known after an option with a value. -/
def setValue (p : Progress) (switch : Switch) (value : String) : Except Stop Progress :=
  let p := { p with valueless := p.valueless.filter (· ≠ switch) }
  match switch with
  | .output => .ok { p with options := { p.options with output := some (.ofText value) } }
  | .format =>
    if (Format.ofName? value).isSome then
      .ok { p with options := { p.options with format := value } }
    else .error .misuse
  | .requested => .ok { p with options := { p.options with requested := some value } }
  | _ => .ok p

/-- What is known after an option was given no value that counts. -/
def dropValue (p : Progress) (switch : Switch) : Progress :=
  let p := { p with valueless := switch :: p.valueless }
  match switch with
  | .output => { p with options := { p.options with output := none } }
  | .requested => { p with options := { p.options with requested := none } }
  | _ => p

/-- What is known after an option. -/
def set (p : Progress) : Switch × Option String → Except Stop Progress
  | (.help, _) => .error .help
  | (.strict, _) => .ok { p with options := { p.options with strict := some true } }
  | (.verbose, _) => .ok { p with options := { p.options with verbose := true } }
  | (switch, some value) =>
    if value = separatorText then .ok (p.dropValue switch) else p.setValue switch value
  | (_, none) => .ok p

/-- What is known after some options. -/
def setAll (p : Progress) (settings : List (Switch × Option String)) : Except Stop Progress :=
  settings.foldlM set p

/-- What is known after a directory, which is the workspace unless there is one already. -/
def addDirectory (p : Progress) (text : String) : Progress :=
  if p.workspace.isNone then { p with workspace := some text } else { p with surplus := true }

/-- What is known after all arguments.  A separator belongs to a directory next to it. -/
def readAll (p : Progress) : List Argument → Except Stop Progress
  | [] => .ok p
  | .plain text :: .separator :: rest => readAll (p.addDirectory text) rest
  | .plain text :: rest => readAll (p.addDirectory text) rest
  | .separator :: .plain text :: rest => readAll (p.addDirectory text) rest
  | .separator :: rest => readAll { p with surplus := true } rest
  | .switches ⟨settings, .complete⟩ :: rest => do readAll (← p.setAll settings) rest
  | .switches ⟨settings, .awaits switch⟩ :: .plain value :: rest => do
    readAll (← p.setAll (settings ++ [(switch, some value)])) rest
  | .switches ⟨settings, .unknown⟩ :: rest => do
    readAll { (← p.setAll settings) with surplus := true } rest
  | .switches ⟨_, .awaits _⟩ :: _ => .error .misuse
  | .switches ⟨_, .excess⟩ :: _ => .error .misuse

end Progress

/-- What the arguments ask for, or nothing if they cannot be understood. -/
def Request.ofArguments? (arguments : List String) : Option Request := do
  match Progress.readAll {} (← Argument.ofAll? arguments) with
  | .error .help => return .help
  | .error .misuse => none
  | .ok p =>
    if p.surplus then none
    else return .run { p.options with workspace := .ofText (← p.workspace) } p.valueless

/-! ## Replies -/

/-- What the command answers. -/
inductive Reply
  /-- How to use the command, because this was asked for. -/
  | help
  /-- How to use the command, because the arguments cannot be understood. -/
  | misuse
  /-- That the workspace is no directory. -/
  | noDirectory (workspace : Path)
  /-- That an option was given no value though the report needs one. -/
  | noValue (switch : Switch)
  /-- The outcome of a run, of which the messages from a level on are shown. -/
  | ran (outcome : Outcome) (shownFrom : Level)

/-- The level of the least important messages that are shown. -/
def Options.shownFrom (options : Options) : Level := if options.verbose then .debug else .warning

/-- The first option without a value that a report needs, if there is a report to write. -/
def Findings.lacking? (found : Findings) (valueless : List Switch) : Option Switch :=
  if found.report.isNone then none
  else [.requested, .format, .output].find? valueless.contains

/-- What the command answers to its arguments. -/
def reply (tree : FileTree) (arguments : List String) : Except Failure Reply :=
  match Request.ofArguments? arguments with
  | none => .ok .misuse
  | some .help => .ok .help
  | some (.run options valueless) =>
    if tree.isDirectory options.workspace then
      (examine tree options).map fun found =>
        match found.lacking? valueless with
        | some switch => .noValue switch
        | none => .ran (.ofFindings tree options.output found) options.shownFrom
    else .ok (.noDirectory options.workspace)

/-- Lines of text. -/
def lines (texts : List String) : String := String.join (texts.map (· ++ "\n"))

namespace Reply

/-- The exit status. -/
def status : Reply → Nat
  | help => statusOk
  | misuse => statusUsage
  | noDirectory _ => statusUsage
  | noValue _ => statusInvalid
  | ran outcome _ => outcome.status

/-- The text that says why there is no directory to work on. -/
def noDirectoryText (workspace : Path) : String := "not a directory: " ++ workspace.text

/-- The text that says that an option has no value. -/
def noValueText (switch : Switch) : String :=
  "no value for " ++ ((longNames.find? (·.2 == switch)).map (·.1)).getD ""

/-- What is written to the standard output, given a text that explains the command. -/
def stdout (usage : String) : Reply → String
  | help => usage
  | ran outcome _ => outcome.stdout
  | _ => ""

/-- What is written to the standard error output, given a text that explains the command. -/
def stderr (usage : String) : Reply → String
  | help => ""
  | misuse => usage
  | noDirectory workspace => lines [noDirectoryText workspace]
  | noValue switch => lines [noValueText switch]
  | ran outcome shownFrom =>
    lines ((messagesFrom shownFrom outcome.messages).map Message.text)

end Reply

end GradleWorkspace.Command
