import GradleWorkspace.OrderedMap

/-!
# Dependency graphs

The nodes of a dependency graph are modules; an edge leads from a module to one that it depends
on.  References to modules that could not be resolved are kept beside the graph.

An edge may also lead to a name that is no node; such a name depends on nothing, unless edges
are given for it.
-/

namespace GradleWorkspace

/-- One module in a dependency graph. -/
structure GraphNode where
  moduleName : String
  modulePath : String
  dependencies : List String := []
  deriving DecidableEq, Repr

/-- A reference to a module that matches no module, or several. -/
structure UnresolvedReference where
  /-- The module that holds the reference. -/
  module : String
  /-- The path that refers to another module. -/
  path : String
  /-- The names of the modules that match the path. -/
  candidates : List String := []
  deriving DecidableEq, Repr

/-- Whether several modules match the reference. -/
def UnresolvedReference.isAmbiguous (r : UnresolvedReference) : Bool := r.candidates.length > 1

/-- The dependencies between the modules of a workspace. -/
structure DependencyGraph where
  nodes : OrderedMap GraphNode := .empty
  edges : OrderedMap (List String) := .empty
  unresolved : List UnresolvedReference := []
  deriving DecidableEq, Repr

namespace DependencyGraph

/-- The graph with the given edges.  Each name with edges is a node with itself as its path. -/
def ofEdges (edges : OrderedMap (List String)) : DependencyGraph where
  nodes := .ofList (edges.entries.map fun (name, targets) => (name, ⟨name, name, targets⟩))
  edges := edges

/-- The graph with the given names as nodes, and edges beside them. -/
def ofNodesAndEdges (nodes : List String) (edges : OrderedMap (List String)) :
    DependencyGraph where
  nodes := .ofList (nodes.map fun name => (name, ⟨name, name, []⟩))
  edges := edges

/-- The names that a name has edges to, in the order of the edges. -/
def successors (g : DependencyGraph) (name : String) : List String := (g.edges.get? name).getD []

/-- The number of edges. -/
def edgeCount (g : DependencyGraph) : Nat := g.edges.values.flatten.length

/-- How many names with edges have not been visited.  It bounds how far a walk can still go. -/
def unvisited (g : DependencyGraph) (visited : List String) : Nat :=
  g.edges.keys.countP fun name => name ∉ visited

theorem unvisited_le {g : DependencyGraph} {before after : List String} (h : before ⊆ after) :
    g.unvisited after ≤ g.unvisited before :=
  List.countP_mono_left fun name _ hname => by
    simp only [decide_eq_true_eq] at *
    exact fun hmem => hname (h hmem)

theorem countP_notMem_cons_lt {names visited : List String} {name : String}
    (hname : name ∈ names) (hfresh : name ∉ visited) :
    names.countP (fun n => n ∉ name :: visited) < names.countP (fun n => n ∉ visited) := by
  induction names with
  | nil => simp at hname
  | cons head rest ih =>
    have hle : rest.countP (fun n => n ∉ name :: visited) ≤ rest.countP (fun n => n ∉ visited) :=
      List.countP_mono_left fun n _ hn => by simp_all
    by_cases hhead : head = name
    · subst hhead
      simp [hfresh] at *
      omega
    · have hrest : name ∈ rest := by simpa [Ne.symm hhead] using hname
      have := ih hrest
      by_cases hvisited : head ∈ visited <;> simp [hhead, hvisited] at * <;> omega

/-- Taking a new name out again that was put in front of some names restores them. -/
theorem filter_ne_cons {names : List String} {name : String} (h : name ∉ names) :
    (name :: names).filter (· ≠ name) = names := by
  rw [List.filter_cons_of_neg (by simp), List.filter_eq_self]
  intro other hother
  simpa using ne_of_mem_of_not_mem hother h

theorem successors_eq_nil_of_notMem {g : DependencyGraph} {name : String}
    (h : name ∉ g.edges.keys) : g.successors name = [] := by
  rw [successors, OrderedMap.get?, OrderedMap.lookup_eq_none_of_notMem h]
  rfl

/-- Going on to the successors of a new name, a walk has fewer names left to visit, or none of
the successors. -/
theorem unvisited_cons_lt_or (g : DependencyGraph) {visited : List String} {name : String}
    (hfresh : name ∉ visited) :
    g.unvisited (name :: visited) < g.unvisited visited ∨
      g.unvisited (name :: visited) ≤ g.unvisited visited ∧ g.successors name = [] := by
  by_cases h : name ∈ g.edges.keys
  · exact .inl (countP_notMem_cons_lt h hfresh)
  · exact .inr ⟨unvisited_le (List.subset_cons_self _ _), successors_eq_nil_of_notMem h⟩

end DependencyGraph

end GradleWorkspace
