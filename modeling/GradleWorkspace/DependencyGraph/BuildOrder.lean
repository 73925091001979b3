import GradleWorkspace.DependencyGraph.Basic

/-!
# Build order

`DependencyGraph.buildOrder` lists the modules so that each stands after everything that it
depends on.  Otherwise modules keep the order of the nodes.  A graph with a cycle has no build
order.

While all that a name depends on is placed, the name waits; then it gets the next place.  A name
that has to be placed while it waits depends on itself.
-/

namespace GradleWorkspace

/-- A build order was asked for a graph in which a name depends on itself, perhaps through
others. -/
structure CircularDependency where
  node : String
  deriving DecidableEq, Repr

/-- The text that reports a circular dependency. -/
def CircularDependency.message (e : CircularDependency) : String :=
  "Circular dependency detected involving " ++ e.node

namespace DependencyGraph

/-- How far the placing of names has come. -/
structure Placing where
  /-- The names that wait until all they depend on has been placed. -/
  waiting : List String := []
  /-- The names that have been placed. -/
  placed : List String := []
  /-- The names that have been placed, in the order of their places. -/
  order : List String := []
  deriving DecidableEq, Repr

/-- The names that have been met. -/
def Placing.met (s : Placing) : List String := s.waiting ++ s.placed

/-- A name begins to wait. -/
def Placing.enter (s : Placing) (name : String) : Placing :=
  { s with waiting := name :: s.waiting }

/-- A name waits no longer and gets the next place. -/
def Placing.leave (s : Placing) (name : String) : Placing where
  waiting := s.waiting.filter (· ≠ name)
  placed := name :: s.placed
  order := s.order ++ [name]

theorem Placing.met_subset_leave (s : Placing) (name : String) : s.met ⊆ (s.leave name).met := by
  intro other hother
  by_cases hname : other = name <;> simp_all [met, leave]

/-- Places the given names, one after the other, each after all that it depends on.  Meeting a
name that waits is a circular dependency. -/
def place (g : DependencyGraph) (names : List String) (s : Placing) :
    Except CircularDependency { after : Placing // s.met ⊆ after.met } :=
  match names with
  | [] => .ok ⟨s, List.Subset.refl _⟩
  | name :: rest =>
    if _ : name ∈ s.waiting then .error ⟨name⟩
    else if _ : name ∈ s.placed then place g rest s
    else
      match place g (g.successors name) (s.enter name) with
      | .error e => .error e
      | .ok below =>
        have hbelow : s.met ⊆ (below.1.leave name).met :=
          List.Subset.trans (List.Subset.trans (List.subset_cons_self _ _) below.2)
            (below.1.met_subset_leave name)
        have := unvisited_le (g := g) hbelow
        match place g rest (below.1.leave name) with
        | .error e => .error e
        | .ok after => .ok ⟨after.1, List.Subset.trans hbelow after.2⟩
termination_by (g.unvisited s.met, names.length)
decreasing_by
  · exact Prod.Lex.right _ (by simp)
  · have hnew : name ∉ s.met := by simp_all [Placing.met]
    simp only [Placing.enter, Placing.met, List.cons_append]
    rcases unvisited_cons_lt_or g hnew with h | ⟨hle, hnil⟩
    · exact Prod.Lex.left _ _ h
    · rw [hnil]
      exact Prod.Lex.right' _ hle (by simp)
  · exact Prod.Lex.right' _ this (by simp)

theorem place_nil (g : DependencyGraph) (s : Placing) : (g.place [] s).map (·.1) = .ok s := by
  rw [place]
  rfl

theorem place_cons_of_mem_waiting {g : DependencyGraph} {name : String} {rest : List String}
    {s : Placing} (h : name ∈ s.waiting) :
    (g.place (name :: rest) s).map (·.1) = .error ⟨name⟩ := by
  rw [place, dif_pos h]
  rfl

theorem place_cons_of_mem_placed {g : DependencyGraph} {name : String} {rest : List String}
    {s : Placing} (hwaiting : name ∉ s.waiting) (hplaced : name ∈ s.placed) :
    (g.place (name :: rest) s).map (·.1) = (g.place rest s).map (·.1) := by
  rw [place, dif_neg hwaiting, dif_pos hplaced]

theorem place_cons_of_notMem {g : DependencyGraph} {name : String} {rest : List String}
    {s : Placing} (hwaiting : name ∉ s.waiting) (hplaced : name ∉ s.placed) :
    (g.place (name :: rest) s).map (·.1) =
      ((g.place (g.successors name) (s.enter name)).map (·.1)).bind
        fun below => (g.place rest (below.leave name)).map (·.1) := by
  rw [place, dif_neg hwaiting, dif_neg hplaced]
  split
  · next hbelow => rw [hbelow]; rfl
  · next below hbelow =>
    rw [hbelow]
    show _ = (g.place rest (below.1.leave name)).map (·.1)
    cases g.place rest (below.1.leave name) <;> rfl

/-- Places a node, unless it has a place. -/
def placeNode (g : DependencyGraph) (s : Placing) (node : String) :
    Except CircularDependency Placing :=
  if node ∈ s.placed then .ok s else (g.place [node] s).map (·.1)

/-- The names reachable from the nodes, each after all that it depends on. -/
def buildOrder (g : DependencyGraph) : Except CircularDependency (List String) :=
  (g.nodes.keys.foldlM g.placeNode {}).map Placing.order

end DependencyGraph

end GradleWorkspace
