import GradleWorkspace.DependencyGraph.BuildOrder
import GradleWorkspace.Proofs.DependencyGraph.Cycles

/-!
# Build orders and cycles

The placing of names follows the same traversal as the walk that looks for cycles, up to the
first edge that closes one.  `Traversal.place_eq` is this simulation.  It gives both results: a
graph has a build order exactly if no cycle can be reached, and the name that is reported
otherwise is the first one of the first cycle.
-/

namespace GradleWorkspace.DependencyGraph

/-! ## Placing follows a traversal -/

/-- What comes of a placing, given the cycles that a traversal finds: it stops at the name that
closes the first of them, and comes to its end if there are none. -/
def outcome (found : List (List String)) (s : Placing) : Except CircularDependency Placing :=
  match found.flatten.head? with
  | some name => .error ⟨name⟩
  | none => .ok s

theorem outcome_nil (s : Placing) : outcome [] s = .ok s := rfl

theorem outcome_cons (name : String) (loop : List String) (found : List (List String))
    (s : Placing) : outcome ((name :: loop) :: found) s = .error ⟨name⟩ := rfl

/-- A placing that goes on after one with the given outcome. -/
theorem outcome_append {found' : List (List String)} {s s' : Placing}
    {next : Placing → Except CircularDependency Placing} (found : List (List String))
    (h : next s = outcome found' s') :
    outcome (found ++ found') s' = (outcome found s).bind next := by
  unfold outcome at h ⊢
  rw [List.flatten_append, List.head?_append]
  cases found.flatten.head? with
  | none => exact h.symm
  | some name => rfl

/-- Placing names one after the other goes along a traversal to them, if the names that wait are
those on its path and the placed ones are those that it has left. -/
theorem Traversal.place_eq {g : DependencyGraph} {path names entered after left : List String}
    {found : List (List String)} (h : Traversal g path names entered after left found)
    (s : Placing) (hwaiting : s.waiting = path.reverse)
    (hcolour : Coloured path s.placed entered) :
    (g.place names s).map (·.1) =
      outcome found ⟨s.waiting, left.reverse ++ s.placed, s.order ++ left⟩ := by
  induction h generalizing s with
  | nil => simp [place_nil, outcome_nil]
  | @cross path _ _ _ _ _ name hentered hpath _ ih =>
      have hoff : name ∉ s.waiting := by
        rw [hwaiting, List.mem_reverse]
        exact hpath
      have hplaced : name ∈ s.placed := ((hcolour name).1 hentered).resolve_left hpath
      rw [place_cons_of_mem_placed hoff hplaced]
      exact ih s hwaiting hcolour
  | @back path _ _ _ _ before loop _ name _ hsplit _ _ =>
      have hname : name ∈ s.waiting := by
        rw [hwaiting, List.mem_reverse, hsplit]
        simp
      rw [place_cons_of_mem_waiting hname, outcome_cons]
  | @fresh path rest entered _ _ inner outer foundBelow foundAfter name hnew below _ ihBelow ih =>
      have hout : name ∉ path ∧ name ∉ s.placed := by
        have hnot := mt (hcolour name).2 hnew
        exact not_or.1 hnot
      have hoff : name ∉ s.waiting := by
        rw [hwaiting, List.mem_reverse]
        exact hout.1
      have henter : (s.enter name).waiting = (path ++ [name]).reverse := by
        simp [Placing.enter, hwaiting]
      let lower : Placing := ⟨name :: s.waiting, inner.reverse ++ s.placed, s.order ++ inner⟩
      let upper : Placing :=
        ⟨s.waiting, name :: (inner.reverse ++ s.placed), s.order ++ inner ++ [name]⟩
      have hleave : lower.leave name = upper := by rw [Placing.leave, filter_ne_cons hoff]
      have hrest : (g.place rest (lower.leave name)).map (·.1) =
          outcome foundAfter ⟨s.waiting, (inner ++ name :: outer).reverse ++ s.placed,
            s.order ++ (inner ++ name :: outer)⟩ := by
        rw [hleave, ih upper hwaiting (hcolour.leave below)]
        simp [upper]
      rw [place_cons_of_notMem hoff hout.2, ihBelow (s.enter name) henter (hcolour.enter name)]
      exact (outcome_append foundBelow hrest).symm

/-- Placing the nodes goes along a traversal to them, too. -/
theorem Traversal.foldlM_placeNode_eq {g : DependencyGraph}
    {nodes entered after left : List String} {found : List (List String)}
    (h : Traversal g [] nodes entered after left found) (s : Placing) (hwaiting : s.waiting = [])
    (hcolour : Coloured [] s.placed entered) :
    nodes.foldlM g.placeNode s =
      outcome found ⟨[], left.reverse ++ s.placed, s.order ++ left⟩ := by
  induction nodes generalizing entered left found s with
  | nil =>
      cases h
      show Except.ok s = .ok ⟨[], [] ++ s.placed, s.order ++ []⟩
      rw [List.nil_append, List.append_nil, ← hwaiting]
  | cons node rest ih =>
      rw [List.foldlM_cons, placeNode]
      cases h with
      | cross hentered _ tail =>
          have hplaced : node ∈ s.placed := by simpa using (hcolour node).1 hentered
          rw [if_pos hplaced]
          exact ih tail s hwaiting hcolour
      | back _ hsplit _ => simp at hsplit
      | @fresh _ _ _ _ _ inner outer foundBelow foundAfter _ hnew below tail =>
          have hplaced : node ∉ s.placed := fun hmem => hnew ((hcolour node).2 (Or.inr hmem))
          let next : Placing :=
            ⟨[], node :: (inner.reverse ++ s.placed), s.order ++ inner ++ [node]⟩
          have hnode : (g.place [node] s).map (·.1) = outcome foundBelow next := by
            have hsingle := Traversal.fresh hnew below (.nil [] _)
            rw [hsingle.place_eq s hwaiting hcolour]
            simp [next, hwaiting]
          have hrest : rest.foldlM g.placeNode next =
              outcome foundAfter ⟨[], (inner ++ node :: outer).reverse ++ s.placed,
                s.order ++ (inner ++ node :: outer)⟩ := by
            rw [ih tail next rfl (hcolour.leave below)]
            simp [next]
          rw [if_neg hplaced, hnode]
          exact (outcome_append foundBelow hrest).symm

/-- The build order of a graph is the order in which the walk that looks for cycles leaves the
names.  There is none if that walk finds a cycle. -/
theorem exists_traversal_buildOrder (g : DependencyGraph) :
    ∃ after order, Traversal g [] g.nodes.keys [] after order g.cycles ∧
      g.buildOrder = (outcome g.cycles ⟨[], order.reverse, order⟩).map Placing.order := by
  obtain ⟨after, order, -, htrace⟩ := exists_traversal_cycles g
  refine ⟨after, order, htrace, ?_⟩
  rw [buildOrder, htrace.foldlM_placeNode_eq {} rfl coloured_nil]
  simp

/-! ## Agreement -/

/-- Either no cycle is found and a traversal gives the build order, or the build order fails at
the first name of the first cycle. -/
theorem buildOrder_cases (g : DependencyGraph) :
    (g.cycles = [] ∧ ∃ after order, Traversal g [] g.nodes.keys [] after order [] ∧
        g.buildOrder = .ok order) ∨
      ∃ name loop others, g.cycles = (name :: loop) :: others ∧
        g.buildOrder = .error ⟨name⟩ := by
  obtain ⟨after, order, htrace, horder⟩ := exists_traversal_buildOrder g
  cases hcycles : g.cycles with
  | nil =>
      rw [hcycles] at htrace horder
      exact Or.inl ⟨rfl, after, order, htrace, horder⟩
  | cons cycle others =>
      have hreal := isCycle_of_mem_cycles (hcycles ▸ List.mem_cons_self : cycle ∈ g.cycles)
      obtain ⟨name, loop, rfl⟩ := List.exists_cons_of_ne_nil hreal.1.ne_nil
      rw [hcycles, outcome_cons] at horder
      exact Or.inr ⟨name, loop, others, rfl, horder⟩

theorem buildOrder_eq_ok_iff {g : DependencyGraph} :
    (∃ order, g.buildOrder = .ok order) ↔ g.cycles = [] := by
  rcases buildOrder_cases g with ⟨hcycles, _, _, -, horder⟩ | ⟨_, _, _, hcycles, horder⟩ <;>
    simp [hcycles, horder]

theorem buildOrder_eq_error_iff {g : DependencyGraph} :
    (∃ e, g.buildOrder = .error e) ↔ g.cycles ≠ [] := by
  rcases buildOrder_cases g with ⟨hcycles, _, _, -, horder⟩ | ⟨_, _, _, hcycles, horder⟩ <;>
    simp [hcycles, horder]

/-- The build order fails exactly if a cycle is reported, and then at the first name of the first
cycle. -/
theorem buildOrder_fails_at_first_cycle (g : DependencyGraph) :
    ((∃ e, g.buildOrder = .error e) ↔ g.cycles ≠ []) ∧
      ∀ e, g.buildOrder = .error e →
        ∃ cycle, g.cycles[0]? = some cycle ∧ cycle[0]? = some e.node := by
  refine ⟨buildOrder_eq_error_iff, ?_⟩
  intro e he
  rcases buildOrder_cases g with ⟨-, _, _, -, horder⟩ | ⟨name, loop, others, hcycles, horder⟩
  · simp [horder] at he
  · obtain rfl := Except.error.inj (horder.symm.trans he)
    exact ⟨name :: loop, by rw [hcycles]; rfl, rfl⟩

theorem buildOrder_tangled :
    tangled.buildOrder = .error ⟨"app"⟩ ∧
      ∃ cycle, tangled.cycles[0]? = some cycle ∧ cycle[0]? = some "app" := by
  have horder : tangled.buildOrder = .error ⟨"app"⟩ := by cbv
  exact ⟨horder, (buildOrder_fails_at_first_cycle tangled).2 _ horder⟩

/-! ## Build orders -/

/-- A graph has a build order exactly if no cycle can be reached from its nodes, and otherwise a
circular dependency is reported.  A build order lists the reachable names and no others, each
once, and after all that it depends on. -/
theorem buildOrder_lists_dependencies_first (g : DependencyGraph) :
    ((∃ order, g.buildOrder = .ok order) ↔
        ¬∃ names, g.IsCycle names ∧ ∃ name ∈ names, g.Reachable name) ∧
      ((∃ e, g.buildOrder = .error e) ↔
        ∃ names, g.IsCycle names ∧ ∃ name ∈ names, g.Reachable name) ∧
      ∀ order, g.buildOrder = .ok order →
        order.Nodup ∧ (∀ name, name ∈ order ↔ g.Reachable name) ∧
          ∀ source ∈ order, ∀ target ∈ g.successors source,
            order.idxOf target < order.idxOf source := by
  refine ⟨buildOrder_eq_ok_iff.trans cycles_eq_nil_iff, ?_, ?_⟩
  · rw [buildOrder_eq_error_iff, ne_eq, cycles_eq_nil_iff, not_not]
  · intro order horder
    rcases buildOrder_cases g with ⟨-, after, left, htrace, hleft⟩ | ⟨_, _, _, -, herror⟩
    · obtain rfl := Except.ok.inj (hleft.symm.trans horder)
      refine ⟨htrace.nodup_left.1, fun _ => htrace.mem_left_iff_reachable, ?_⟩
      intro source hsource target htarget
      have hfirst := htrace.dependenciesFirst coloured_nil
      simpa [Closes] using hfirst.idxOf_lt hsource htarget
    · simp [herror] at horder

/-- Two modules that depend on a third, one of them twice, and on a name that is no node. -/
def layered : DependencyGraph :=
  ofEdges (.ofList [("web", ["api", "core", "core"]), ("api", ["core", "log"]), ("core", [])])

theorem buildOrder_layered :
    layered.buildOrder = .ok ["core", "log", "api", "web"] ∧
      ["core", "log", "api", "web"].Nodup ∧ layered.Reachable "log" ∧
      ["core", "log", "api", "web"].idxOf "log" < ["core", "log", "api", "web"].idxOf "api" := by
  have horder : layered.buildOrder = .ok ["core", "log", "api", "web"] := by cbv
  obtain ⟨hnodup, hmem, hfirst⟩ :=
    (buildOrder_lists_dependencies_first layered).2.2 _ horder
  exact ⟨horder, hnodup, (hmem "log").1 (by decide), hfirst "api" (by decide) "log" (by decide)⟩

end GradleWorkspace.DependencyGraph
