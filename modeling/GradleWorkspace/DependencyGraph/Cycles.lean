import GradleWorkspace.DependencyGraph.Traversal

/-!
# Dependency cycles

`DependencyGraph.cycles` walks a graph in depth and lists a cycle for each edge that leads back
to a name on the current path: the part of the path from that name on.

The walk keeps one stack of the names that it has entered and not left, and hands a path of its
own to each name that it enters.  It looks a name of the stack up in the path and fails if the
path does not hold it; `exists_walk_eq` says that the two agree throughout, so that it never
does.
-/

namespace GradleWorkspace.DependencyGraph

/-- What a walk has seen so far. -/
structure Walk where
  /-- The names that the walk has entered. -/
  entered : List String := []
  /-- The names that it has entered and not left. -/
  onStack : List String := []
  /-- The cycles that it has found, in the order in which they were found. -/
  cycles : List (List String) := []
  deriving DecidableEq, Repr

/-- The walk after it entered a name. -/
def Walk.enter (w : Walk) (name : String) : Walk :=
  { w with entered := name :: w.entered, onStack := name :: w.onStack }

/-- The walk after it left a name. -/
def Walk.leave (w : Walk) (name : String) : Walk :=
  { w with onStack := w.onStack.filter (· ≠ name) }

/-- The walk after it met a name that it had entered before.  If the name is on the stack, the
path from there on is a cycle.  There is no such walk if the path lacks a name on the stack. -/
def Walk.meet (w : Walk) (path : List String) (name : String) : Option Walk :=
  if name ∈ w.onStack then
    (path.idxOf? name).map fun start => { w with cycles := w.cycles ++ [path.drop start] }
  else some w

/-- Meeting a name again changes nothing but the cycles. -/
theorem Walk.exists_eq_of_meet {w after : Walk} {path : List String} {name : String}
    (h : w.meet path name = some after) :
    ∃ found, after = { w with cycles := w.cycles ++ found } := by
  unfold Walk.meet at h
  split at h
  · obtain ⟨start, -, rfl⟩ := Option.map_eq_some_iff.1 h
    exact ⟨_, rfl⟩
  · exact ⟨[], by rw [← Option.some.inj h, List.append_nil]⟩

theorem Walk.entered_of_meet {w after : Walk} {path : List String} {name : String}
    (h : w.meet path name = some after) : after.entered = w.entered := by
  obtain ⟨found, rfl⟩ := Walk.exists_eq_of_meet h
  rfl

/-- The walk from the end of a path to the given names, one after the other, and in depth from
each that has not been entered before. -/
def walk (g : DependencyGraph) (path : List String) (names : List String) (w : Walk) :
    Option { after : Walk // w.entered ⊆ after.entered } :=
  match names with
  | [] => some ⟨w, List.Subset.refl _⟩
  | name :: rest =>
    if _ : name ∈ w.entered then
      match hmet : w.meet path name with
      | none => none
      | some met =>
        have hentered := Walk.entered_of_meet hmet
        (walk g path rest met).map fun after => ⟨after.1, hentered ▸ after.2⟩
    else
      match walk g (path ++ [name]) (g.successors name) (w.enter name) with
      | none => none
      | some below =>
        have hbelow : w.entered ⊆ below.1.entered :=
          List.Subset.trans (List.subset_cons_self _ _) below.2
        have := unvisited_le (g := g) hbelow
        (walk g path rest (below.1.leave name)).map fun after =>
          ⟨after.1, List.Subset.trans hbelow after.2⟩
termination_by (g.unvisited w.entered, names.length)
decreasing_by
  · rw [hentered]
    exact Prod.Lex.right _ (by simp)
  · simp only [Walk.enter]
    rcases unvisited_cons_lt_or g ‹name ∉ w.entered› with h | ⟨hle, hnil⟩
    · exact Prod.Lex.left _ _ h
    · rw [hnil]
      exact Prod.Lex.right' _ hle (by simp)
  · exact Prod.Lex.right' _ this (by simp)

theorem walk_nil (g : DependencyGraph) (path : List String) (w : Walk) :
    (g.walk path [] w).map (·.1) = some w := by
  rw [walk]
  rfl

theorem walk_cons_of_mem {g : DependencyGraph} {path rest : List String} {w : Walk}
    {name : String} (h : name ∈ w.entered) :
    (g.walk path (name :: rest) w).map (·.1) =
      (w.meet path name).bind fun met => (g.walk path rest met).map (·.1) := by
  rw [walk, dif_pos h]
  split
  · next hmet => rw [hmet]; rfl
  · next met hmet =>
    simp only [hmet, Option.map_map, Option.bind_some]
    rfl

theorem walk_cons_of_notMem {g : DependencyGraph} {path rest : List String} {w : Walk}
    {name : String} (h : name ∉ w.entered) :
    (g.walk path (name :: rest) w).map (·.1) =
      ((g.walk (path ++ [name]) (g.successors name) (w.enter name)).map (·.1)).bind
        fun below => (g.walk path rest (below.leave name)).map (·.1) := by
  rw [walk, dif_neg h]
  split
  · next hbelow => rw [hbelow]; rfl
  · next below hbelow =>
    rw [hbelow]
    simp only [Option.map_map, Option.map_some, Option.bind_some]
    rfl

/-! ## The walk does not fail -/

/-- The stack of a walk holds the names of a path, and all of them have been entered. -/
structure Walk.Follows (w : Walk) (path : List String) : Prop where
  onStack_eq : w.onStack = path.reverse
  entered_of_mem : path ⊆ w.entered

namespace Walk.Follows

variable {w : Walk} {path : List String} {name : String}

theorem mem_onStack_iff (h : w.Follows path) : name ∈ w.onStack ↔ name ∈ path := by
  rw [h.onStack_eq, List.mem_reverse]

theorem notMem_onStack (h : w.Follows path) (hnew : name ∉ w.entered) : name ∉ w.onStack :=
  fun hmem => hnew (h.entered_of_mem (h.mem_onStack_iff.1 hmem))

theorem enter (h : w.Follows path) (name : String) : (w.enter name).Follows (path ++ [name]) where
  onStack_eq := by
    rw [List.reverse_append, ← h.onStack_eq]
    rfl
  entered_of_mem := by
    have hpath : path ⊆ name :: w.entered :=
      List.Subset.trans h.entered_of_mem (List.subset_cons_self _ _)
    simp [Walk.enter, hpath]

/-- A name that is met again is off the path and nothing happens, or the path from it on is a new
cycle. -/
theorem meet_cases (h : w.Follows path) (name : String) :
    (name ∉ path ∧ w.meet path name = some w) ∨
      ∃ before loop, path = before ++ name :: loop ∧
        w.meet path name = some { w with cycles := w.cycles ++ [name :: loop] } := by
  unfold Walk.meet
  by_cases hname : name ∈ path
  · obtain ⟨start, hstart⟩ := Option.isSome_iff_exists.1 (List.isSome_idxOf?.2 hname)
    obtain ⟨hlt, hat, -⟩ := List.idxOf?_eq_some_iff.1 hstart
    have hdrop : path.drop start = name :: path.drop (start + 1) := by
      rw [List.drop_eq_getElem_cons hlt, hat]
    refine Or.inr ⟨path.take start, path.drop (start + 1), ?_, ?_⟩
    · rw [← hdrop, List.take_append_drop]
    · rw [if_pos (h.mem_onStack_iff.2 hname), hstart, Option.map_some, hdrop]
  · exact Or.inl ⟨hname, if_neg (mt h.mem_onStack_iff.1 hname)⟩

end Walk.Follows

/-- Leaving a name that was not on the stack before it was entered restores the stack. -/
theorem Walk.leave_eq {entered stack : List String} {cycles : List (List String)} {name : String}
    (h : name ∉ stack) :
    Walk.leave ⟨entered, name :: stack, cycles⟩ name = ⟨entered, stack, cycles⟩ := by
  rw [Walk.leave, filter_ne_cons h]

/-- If the walk follows the path, it does not fail.  It makes a traversal, and at its end the stack
is the path again. -/
theorem exists_walk_eq (g : DependencyGraph) (path names : List String) (w : Walk)
    (h : w.Follows path) :
    ∃ after left found,
      (g.walk path names w).map (·.1) = some ⟨after, w.onStack, w.cycles ++ found⟩ ∧
        Traversal g path names w.entered after left found := by
  induction path, names, w using walk.induct (g := g) with
  | case1 path w =>
      exact ⟨w.entered, [], [], by rw [walk_nil, List.append_nil], .nil _ _⟩
  | case2 path w name rest _ hmet =>
      rcases h.meet_cases name with ⟨-, hmet'⟩ | ⟨_, _, -, hmet'⟩ <;> simp [hmet'] at hmet
  | case3 path w name rest hentered met hmet _ ih =>
      rw [walk_cons_of_mem hentered, hmet, Option.bind_some]
      rcases h.meet_cases name with ⟨hoff, hmet'⟩ | ⟨before, loop, hsplit, hmet'⟩
      · obtain rfl := Option.some.inj (hmet.symm.trans hmet')
        obtain ⟨after, left, found, hwalk, htrace⟩ := ih h
        exact ⟨after, left, found, hwalk, .cross hentered hoff htrace⟩
      · obtain rfl := Option.some.inj (hmet.symm.trans hmet')
        obtain ⟨after, left, found, hwalk, htrace⟩ := ih ⟨h.onStack_eq, h.entered_of_mem⟩
        refine ⟨after, left, (name :: loop) :: found, ?_, .back hentered hsplit htrace⟩
        rw [hwalk, List.append_assoc]
        rfl
  | case4 path w name rest _ hbelow ih =>
      obtain ⟨after, left, found, hwalk, -⟩ := ih (h.enter name)
      simp [hbelow] at hwalk
  | case5 path w name rest hnew below hbelow hgrow _ ihBelow ih =>
      obtain ⟨between, inner, foundBelow, hwalk, htrace⟩ := ihBelow (h.enter name)
      have hval : below.1 = ⟨between, name :: w.onStack, w.cycles ++ foundBelow⟩ := by
        rw [hbelow] at hwalk
        exact Option.some.inj hwalk
      have hleave : below.1.leave name = ⟨between, w.onStack, w.cycles ++ foundBelow⟩ := by
        rw [hval, Walk.leave_eq (h.notMem_onStack hnew)]
      have hbetween : w.entered ⊆ between := by simpa [hval] using hgrow
      rw [hleave] at ih
      obtain ⟨after, outer, foundAfter, hrest, htail⟩ :=
        ih ⟨h.onStack_eq, List.Subset.trans h.entered_of_mem hbetween⟩
      refine ⟨after, inner ++ name :: outer, foundBelow ++ foundAfter, ?_,
        .fresh hnew htrace htail⟩
      rw [walk_cons_of_notMem hnew, hbelow, Option.map_some, Option.bind_some, hleave, hrest,
        List.append_assoc]

/-! ## The walk from all nodes -/

/-- The walk in depth from a node, unless it has been entered before. -/
def walkFrom (g : DependencyGraph) (w : Walk) (node : String) : Option Walk :=
  if node ∈ w.entered then some w else (g.walk [] [node] w).map (·.1)

/-- The walk from all nodes, one after the other. -/
def walkNodes (g : DependencyGraph) : Option Walk := g.nodes.keys.foldlM g.walkFrom {}

/-- The walk from all nodes follows a traversal, too. -/
theorem exists_foldlM_walkFrom (g : DependencyGraph) (nodes : List String) (w : Walk)
    (hstack : w.onStack = []) :
    ∃ after left found,
      nodes.foldlM g.walkFrom w = some ⟨after, [], w.cycles ++ found⟩ ∧
        Traversal g [] nodes w.entered after left found := by
  induction nodes generalizing w with
  | nil =>
      refine ⟨w.entered, [], [], ?_, .nil _ _⟩
      rw [List.foldlM_nil, List.append_nil, ← hstack]
      rfl
  | cons node rest ih =>
      rw [List.foldlM_cons]
      by_cases hnode : node ∈ w.entered
      · obtain ⟨after, left, found, hfold, htrace⟩ := ih w hstack
        refine ⟨after, left, found, ?_, .cross hnode List.not_mem_nil htrace⟩
        rw [walkFrom, if_pos hnode]
        exact hfold
      · obtain ⟨between, left, found, hwalk, htrace⟩ :=
          exists_walk_eq g [] [node] w ⟨hstack, List.nil_subset _⟩
        obtain ⟨after, left', found', hfold, htrace'⟩ :=
          ih ⟨between, w.onStack, w.cycles ++ found⟩ hstack
        refine ⟨after, left ++ left', found ++ found', ?_, htrace.append htrace'⟩
        rw [walkFrom, if_neg hnode, hwalk, ← List.append_assoc]
        exact hfold

theorem isSome_walkNodes (g : DependencyGraph) : g.walkNodes.isSome := by
  obtain ⟨after, left, found, hfold, -⟩ := exists_foldlM_walkFrom g g.nodes.keys {} rfl
  rw [walkNodes, hfold]
  rfl

/-- The cycles that a walk from all nodes finds, each in the order of its edges from the name
that closed it. -/
def cycles (g : DependencyGraph) : List (List String) := (g.walkNodes.get g.isSome_walkNodes).cycles

/-- The cycles of a graph are those that one traversal from its nodes finds. -/
theorem exists_traversal_cycles (g : DependencyGraph) :
    ∃ after left, g.walkNodes = some ⟨after, [], g.cycles⟩ ∧
      Traversal g [] g.nodes.keys [] after left g.cycles := by
  obtain ⟨after, left, found, hfold, htrace⟩ := exists_foldlM_walkFrom g g.nodes.keys {} rfl
  have hcycles : g.cycles = found := by
    unfold cycles
    simp only [walkNodes, hfold, Option.get_some, List.nil_append]
  rw [hcycles]
  exact ⟨after, left, hfold, htrace⟩

end GradleWorkspace.DependencyGraph
