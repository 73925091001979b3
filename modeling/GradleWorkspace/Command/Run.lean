import GradleWorkspace.Analysis
import GradleWorkspace.FileTree.Write
import GradleWorkspace.Report

/-!
# The command

The command analyses a workspace, writes its report, and tells by its exit status whether the
workspace is in order.

* `examine` finds out all there is to say, without writing anything.
* `run` also writes the report, to a file or to the standard output.
-/

namespace GradleWorkspace.Command

/-! ## Options -/

/-- What the command is asked to do. -/
structure Options where
  workspace : Path
  /-- The file that the report is written to; without it, the standard output. -/
  output : Option Path := none
  /-- The name of the format of the report. -/
  format : String := "json"
  /-- The module whose transitive dependencies are asked for. -/
  requested : Option String := none
  /-- Whether a reference that is not resolved is an error, if this is not left to the
  configuration. -/
  strict : Option Bool := none
  /-- Whether to show messages of all levels. -/
  verbose : Bool := false
  deriving DecidableEq, Repr

/-- The exit status when the workspace is in order. -/
def statusOk : Nat := 0

/-- The exit status when the workspace has cycles, or references that are not resolved. -/
def statusInvalid : Nat := 1

/-- The exit status when there is nothing to report. -/
def statusUsage : Nat := 2

/-! ## Findings -/

/-- Why the command cannot come to an end. -/
inductive Failure
  | analysis (error : AnalysisError)
  | format (error : UnknownFormat)
  deriving DecidableEq, Repr

/-- The text that reports why the command cannot come to an end. -/
def Failure.message : Failure → String
  | analysis error => error.message
  | format error => error.message

/-- All that the command has to say. -/
structure Findings where
  /-- The messages given before the report is written. -/
  before : List Message
  /-- The report, if there is one to write. -/
  report : Option String
  /-- The messages given after the report was written. -/
  after : List Message
  status : Nat
  deriving DecidableEq, Repr

/-- Findings without a report, for a reason. -/
def refused (before : List Message) (reason : String) : Findings where
  before := before ++ [⟨.error, reason⟩]
  report := none
  after := []
  status := statusUsage

/-- A list of names, for a message. -/
def namesText (names : List String) : String :=
  "[" ++ ", ".intercalate (names.map Text.quoted) ++ "]"

/-- The message about a cycle, which ends with the name that it starts with. -/
def cycleMessage (cycle : List String) : Message :=
  ⟨.error, "Circular dependency: " ++ " -> ".intercalate (cycle ++ cycle.take 1)⟩

/-- The message about a reference that is not resolved. -/
def unresolvedMessage (strict : Bool) (r : UnresolvedReference) : Message :=
  ⟨if strict then .error else .warning,
    referenceText r ++
      if r.isAmbiguous then " is ambiguous" else " does not match any module"⟩

/-- The exit status for a report. -/
def statusOf (strict : Bool) (cycles : List (List String))
    (unresolved : List UnresolvedReference) : Nat :=
  if !cycles.isEmpty || (strict && !unresolved.isEmpty) then statusInvalid else statusOk

/-- The findings about a workspace. -/
def findings (options : Options) (strict : Bool) (before : List Message) (ws : Workspace)
    (g : DependencyGraph) : Except UnknownFormat Findings :=
  if ws.modules.isEmpty then
    .ok (refused before ("No Gradle build files found under " ++ ws.root))
  else
    let before := before ++ [⟨.debug, "Modules: " ++ namesText ws.names⟩]
    match Report.of ws g options.requested with
    | .error e => .ok (refused before e.message)
    | .ok report => do
      let text ← report.renderNamed options.format
      return {
        before
        report := some text
        after := (options.output.toList.map fun path => ⟨.info, "Generated " ++ path.text⟩) ++
          report.cycles.map cycleMessage ++ g.unresolved.map (unresolvedMessage strict)
        status := statusOf strict report.cycles g.unresolved }

/-- All that the command has to say about a workspace. -/
def examine (tree : FileTree) (options : Options) : Except Failure Findings := do
  let root ← match tree.resolve? options.workspace with
    | some root => .ok root
    | none => .error (.analysis .tooManyLinks)
  let config ← (configFor tree root none).mapError .analysis
  let strict := options.strict.getD config.value.strict
  let found ← (analyze tree root (some config.value)).mapError .analysis
  (findings options strict (config.messages ++ found.messages) found.value.1
    found.value.2).mapError .format

/-! ## Running -/

/-- What a run of the command leaves behind. -/
structure Outcome where
  status : Nat
  stdout : String
  messages : List Message
  tree : FileTree
  /-- Why the report could not be written to its file; then the run did not come to its end. -/
  writeError : Option WriteError := none

/-- The outcome of a run that has found something. -/
def Outcome.ofFindings (tree : FileTree) (output : Option Path) (found : Findings) : Outcome :=
  let messages := found.before ++ found.after
  match found.report, output with
  | none, _ => { status := found.status, stdout := "", messages, tree }
  | some text, none => { status := found.status, stdout := text, messages, tree }
  | some text, some path =>
    let attempt := tree.write path text.toUTF8
    { status := found.status, stdout := "", messages, tree := attempt.tree,
      writeError := attempt.error }

/-- Runs the command: examines the workspace and writes the report. -/
def run (tree : FileTree) (options : Options) : Except Failure Outcome :=
  (examine tree options).map (.ofFindings tree options.output)

end GradleWorkspace.Command
