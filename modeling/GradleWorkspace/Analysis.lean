import GradleWorkspace.Config
import GradleWorkspace.DependencyGraph.Resolution
import GradleWorkspace.Discovery

/-!
# Analysis of a workspace

The steps from a directory to the dependency graph of its modules: load the configuration,
discover the modules, resolve the references between them.
-/

namespace GradleWorkspace

/-- Why a workspace cannot be analysed. -/
inductive AnalysisError
  | config (error : ConfigError)
  /-- The path of the workspace leads through too many links. -/
  | tooManyLinks
  /-- Two modules share a name or a path. -/
  | duplicate (error : Duplicate)
  deriving DecidableEq, Repr

/-- The text that reports why there is no analysis. -/
def AnalysisError.message : AnalysisError → String
  | config error => error.message
  | tooManyLinks => "the path of the workspace leads through too many links"
  | duplicate error => error.message

/-! ## Messages about references -/

/-- The place of a reference, for a message. -/
def referenceText (r : UnresolvedReference) : String :=
  r.module ++ ": project(" ++ Text.quoted r.path ++ ")"

/-- The message about a reference that became no edge. -/
def noEdgeMessage (r : UnresolvedReference) : String :=
  referenceText r ++ " matched " ++ toString r.candidates.length ++ " modules, no edge added"

/-- The message about the size of a dependency graph. -/
def graphMessage (g : DependencyGraph) : String :=
  "Dependency graph: " ++ toString g.nodes.entries.length ++ " nodes, " ++
    toString g.edgeCount ++ " edges, " ++ toString g.unresolved.length ++
    " unresolved references"

/-! ## The analysis -/

/-- The dependency graph of some modules, with messages about it. -/
def graphOf (modules : List Module) : Logged DependencyGraph :=
  let g := DependencyGraph.ofModules modules
  { value := g
    messages := (g.unresolved.map fun r => ⟨.debug, noEdgeMessage r⟩) ++
      [⟨.debug, graphMessage g⟩] }

/-- The workspace in a directory, with the given names left out. -/
def discoverAt (tree : FileTree) (directory : Path) (exclude : List String) :
    Except AnalysisError (Logged Workspace) :=
  match tree.resolve? directory with
  | none => .error .tooManyLinks
  | some root =>
    let found := discover tree root exclude
    match found.value with
    | .error e => .error (.duplicate e)
    | .ok ws => .ok { value := ws, messages := found.messages }

/-- The configuration of the workspace in a directory: a given one, or else the one that is
stored there. -/
def configFor (tree : FileTree) (directory : Path) :
    Option Config → Except AnalysisError (Logged Config)
  | some config => .ok (.pure config)
  | none => (Config.load tree directory).mapError .config

/-- The workspace in a directory and its dependency graph. -/
def analyze (tree : FileTree) (directory : Path) (given : Option Config) :
    Except AnalysisError (Logged (Workspace × DependencyGraph)) := do
  let config ← configFor tree directory given
  let found ← discoverAt tree directory config.value.exclude
  return do
    discard config
    let ws ← found
    let g ← graphOf ws.modules
    return (ws, g)

end GradleWorkspace
