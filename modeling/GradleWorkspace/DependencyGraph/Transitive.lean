import GradleWorkspace.DependencyGraph.Basic

/-!
# Transitive dependencies

`DependencyGraph.transitiveDependencies` lists everything that a module depends on, directly or
through others.
-/

namespace GradleWorkspace

/-- A module was asked for by a name that no module has. -/
structure UnknownModule where
  name : String
  deriving DecidableEq, Repr

/-- The text that reports an unknown module. -/
def UnknownModule.message (e : UnknownModule) : String := "Unknown module: " ++ e.name

namespace DependencyGraph

/-- The names reached so far, and all that can be reached from the given names without going
through them. -/
def reach (g : DependencyGraph) (names reached : List String) : List String :=
  match names with
  | [] => reached
  | name :: rest =>
    if h : name ∈ reached then reach g rest reached
    else
      have := unvisited_cons_lt_or g h
      reach g (g.successors name ++ rest) (name :: reached)
termination_by (g.unvisited reached, names.length)
decreasing_by
  · exact Prod.Lex.right _ (by simp)
  · rcases this with h | ⟨hle, hnil⟩
    · exact Prod.Lex.left _ _ h
    · rw [hnil]
      exact Prod.Lex.right' _ hle (by simp)

/-- The names that can be reached from a node by one edge or more, without the node itself, in
increasing order. -/
def transitiveDependencies (g : DependencyGraph) (name : String) :
    Except UnknownModule (List String) :=
  if name ∈ g.nodes.keys then
    .ok (((g.reach (g.successors name) []).filter (· ≠ name)).mergeSort (· ≤ ·))
  else .error ⟨name⟩

end DependencyGraph

end GradleWorkspace
