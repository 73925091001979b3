import GradleWorkspace.DependencyGraph.Basic

/-!
# Depth-first traversals

`Traversal` is a declarative trace of a depth-first search.  The walk that looks for cycles and
the placing of names in a build order both follow such a trace, so that what holds of every
traversal holds of both.
-/

namespace GradleWorkspace.DependencyGraph

/-- A depth-first traversal of the graph from the end of `path` to the given names, one after the
other.  The names in `entered` have been entered before; `after` are those that have been entered
when it ends.  It leaves the names in `left`, in this order, and each edge that it finds to lead
back to a name on the path closes one of the cycles `found`. -/
inductive Traversal (g : DependencyGraph) : (path names entered after left : List String) →
    (found : List (List String)) → Prop where
  | nil (path entered : List String) : Traversal g path [] entered entered [] []
  | cross {path rest entered after left : List String} {found : List (List String)}
      {name : String} (hentered : name ∈ entered) (hpath : name ∉ path)
      (tail : Traversal g path rest entered after left found) :
      Traversal g path (name :: rest) entered after left found
  | back {path rest entered after left before loop : List String}
      {found : List (List String)} {name : String} (hentered : name ∈ entered)
      (hpath : path = before ++ name :: loop)
      (tail : Traversal g path rest entered after left found) :
      Traversal g path (name :: rest) entered after left ((name :: loop) :: found)
  | fresh {path rest entered between after inner outer : List String}
      {foundBelow foundAfter : List (List String)} {name : String} (hnew : name ∉ entered)
      (below : Traversal g (path ++ [name]) (g.successors name) (name :: entered) between inner
        foundBelow)
      (tail : Traversal g path rest between after outer foundAfter) :
      Traversal g path (name :: rest) entered after (inner ++ name :: outer)
        (foundBelow ++ foundAfter)

/-- Two traversals from the end of the same path make one. -/
theorem Traversal.append {g : DependencyGraph}
    {path first second entered between after left left' : List String}
    {found found' : List (List String)}
    (h : Traversal g path first entered between left found)
    (h' : Traversal g path second between after left' found') :
    Traversal g path (first ++ second) entered after (left ++ left') (found ++ found') := by
  induction h with
  | nil => exact h'
  | cross hentered hpath _ ih => exact .cross hentered hpath (ih h')
  | back hentered hpath _ ih => exact .back hentered hpath (ih h')
  | fresh hnew below _ _ ih =>
      rw [List.append_assoc, List.append_assoc]
      exact .fresh hnew below (ih h')

/-- A traversal to some names and then to others is made of two. -/
theorem Traversal.exists_of_append {g : DependencyGraph}
    {path first second entered after left : List String} {found : List (List String)}
    (h : Traversal g path (first ++ second) entered after left found) :
    ∃ between left' left'' found' found'',
      Traversal g path first entered between left' found' ∧
        Traversal g path second between after left'' found'' ∧
        left = left' ++ left'' ∧ found = found' ++ found'' := by
  induction first generalizing entered left found with
  | nil => exact ⟨entered, [], left, [], found, .nil _ _, h, rfl, rfl⟩
  | cons name rest ih =>
      cases h with
      | cross hentered hpath tail =>
          obtain ⟨between, left', left'', found', found'', h', h'', rfl, rfl⟩ := ih tail
          exact ⟨between, left', left'', found', found'', .cross hentered hpath h', h'', rfl, rfl⟩
      | @back _ _ _ _ _ _ loop _ _ hentered hpath tail =>
          obtain ⟨between, left', left'', found', found'', h', h'', rfl, rfl⟩ := ih tail
          exact ⟨between, left', left'', (name :: loop) :: found', found'',
            .back hentered hpath h', h'', rfl, rfl⟩
      | @fresh _ _ _ _ _ inner _ foundBelow _ _ hnew below tail =>
          obtain ⟨between, left', left'', found', found'', h', h'', rfl, rfl⟩ := ih tail
          exact ⟨between, inner ++ name :: left', left'', foundBelow ++ found', found'',
            .fresh hnew below h', h'', by simp, by simp⟩

end GradleWorkspace.DependencyGraph
