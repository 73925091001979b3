import Mathlib
import GradleWorkspace.DependencyGraph.Cycles
import GradleWorkspace.Proofs.DependencyGraph.Traversal

/-!
# The cycles of a graph are real, and none is missed

There are three groups.

* The path.  `IsPath` is the invariant of the path of a traversal: a chain of distinct names
  that have been entered.  A cycle that is found is its end, from the name on that closed it.
* The stack.  `WalkCall` lists all calls that the walk from the nodes makes, and
  `WalkCall.follows` says that at each of them the shared stack is the path of the call.
* Completeness.  The order of leaving puts the target of an edge before its source, unless the
  edge closes a cycle that is found.  Following the steps of any cycle therefore leads to such
  an edge.
-/

namespace GradleWorkspace.DependencyGraph

/-! ## The path -/

/-- The path of a traversal to some names: a chain of distinct names that have been entered,
from the end of which an edge leads to each of the names. -/
structure IsPath (g : DependencyGraph) (path names entered : List String) : Prop where
  nodup : path.Nodup
  entered_of_mem : path ⊆ entered
  isChain : ∀ name ∈ names, (path ++ [name]).IsChain g.Edge

theorem isPath_nil (g : DependencyGraph) (names entered : List String) :
    IsPath g [] names entered :=
  ⟨List.nodup_nil, List.nil_subset _, fun name _ => List.isChain_singleton name⟩

theorem IsPath.tail {g : DependencyGraph} {path rest entered entered' : List String}
    {name : String} (h : IsPath g path (name :: rest) entered) (hsub : entered ⊆ entered') :
    IsPath g path rest entered' :=
  ⟨h.nodup, List.Subset.trans h.entered_of_mem hsub,
    fun other hother => h.isChain other (List.mem_cons_of_mem _ hother)⟩

theorem IsPath.enter {g : DependencyGraph} {path rest entered : List String} {name : String}
    (h : IsPath g path (name :: rest) entered) (hnew : name ∉ entered) :
    IsPath g (path ++ [name]) (g.successors name) (name :: entered) where
  nodup := by
    have hname : name ∉ path := fun hmem => hnew (h.entered_of_mem hmem)
    refine List.nodup_append.2 ⟨h.nodup, by simp, ?_⟩
    intro other hother last hlast
    rw [List.mem_singleton.1 hlast]
    exact ne_of_mem_of_not_mem hother hname
  entered_of_mem := by
    rw [List.append_subset]
    exact ⟨List.Subset.trans h.entered_of_mem (List.subset_cons_self _ _), by simp⟩
  isChain := by
    intro target htarget
    have hchain : (path ++ [name]).IsChain g.Edge := h.isChain name List.mem_cons_self
    refine List.IsChain.append hchain (.singleton target) ?_
    intro last hlast first hfirst
    obtain rfl : name = last := by simpa using hlast
    obtain rfl : target = first := by simpa using hfirst
    exact htarget

/-- Going back to a name on the path closes a cycle. -/
theorem IsPath.isCycle {g : DependencyGraph} {path rest entered before loop : List String}
    {name : String} (h : IsPath g path (name :: rest) entered)
    (hsplit : path = before ++ name :: loop) : g.IsCycle (name :: loop) := by
  have hloop : (name :: loop ++ [name]).IsChain g.Edge := by
    have hchain := h.isChain name List.mem_cons_self
    rw [hsplit, List.append_assoc] at hchain
    exact hchain.right_of_append
  obtain ⟨hchain, -, hclosing⟩ := List.isChain_append.1 hloop
  exact ⟨List.cons_ne_nil _ _, hchain, hclosing⟩

theorem Traversal.isCycle_of_mem_found {g : DependencyGraph}
    {path names entered after left cycle : List String} {found : List (List String)}
    (h : Traversal g path names entered after left found) (hpath : IsPath g path names entered)
    (hcycle : cycle ∈ found) : g.IsCycle cycle ∧ cycle.Nodup ∧ cycle ⊆ after := by
  induction h with
  | nil => simp at hcycle
  | cross _ _ _ ih => exact ih (hpath.tail (List.Subset.refl _)) hcycle
  | @back path _ _ _ _ before loop _ name _ hsplit tail ih =>
      rcases List.mem_cons.1 hcycle with rfl | hrest
      · have hsuffix : name :: loop <:+ path := ⟨before, hsplit.symm⟩
        exact ⟨hpath.isCycle hsplit, hpath.nodup.sublist hsuffix.sublist,
          List.Subset.trans hsuffix.subset
            (List.Subset.trans hpath.entered_of_mem tail.entered_subset)⟩
      · exact ih (hpath.tail (List.Subset.refl _)) hrest
  | fresh hnew below tail ihBelow ih =>
      rcases List.mem_append.1 hcycle with hbelow | hafter
      · obtain ⟨hreal, hnodup, hsub⟩ := ihBelow (hpath.enter hnew) hbelow
        exact ⟨hreal, hnodup, List.Subset.trans hsub tail.entered_subset⟩
      · have hgrow := List.Subset.trans (List.subset_cons_self _ _) below.entered_subset
        exact ih (hpath.tail hgrow) hafter

/-- The cycles of a graph are cycles without repeated names that can be reached. -/
theorem isCycle_of_mem_cycles {g : DependencyGraph} {cycle : List String}
    (h : cycle ∈ g.cycles) :
    g.IsCycle cycle ∧ cycle.Nodup ∧ ∀ name ∈ cycle, g.Reachable name := by
  obtain ⟨after, left, -, htrace⟩ := exists_traversal_cycles g
  obtain ⟨hreal, hnodup, hsub⟩ := htrace.isCycle_of_mem_found (isPath_nil g _ _) h
  refine ⟨hreal, hnodup, fun name hname => htrace.mem_left_iff_reachable.1 ?_⟩
  simpa using htrace.mem_after_iff.1 (hsub hname)

/-! ## The stack -/

/-- The calls of `walk` that the walk from all nodes makes: the path of the call, the names that
it has still to go to, and what the walk has seen by then. -/
inductive WalkCall (g : DependencyGraph) : (path names : List String) → Walk → Prop where
  | node {before rest : List String} {node : String} {w : Walk}
      (hnodes : g.nodes.keys = before ++ node :: rest)
      (hwalk : before.foldlM g.walkFrom {} = some w) (hnew : node ∉ w.entered) :
      WalkCall g [] [node] w
  | met {path rest : List String} {name : String} {w met : Walk}
      (call : WalkCall g path (name :: rest) w) (hentered : name ∈ w.entered)
      (hmet : w.meet path name = some met) : WalkCall g path rest met
  | down {path rest : List String} {name : String} {w : Walk}
      (call : WalkCall g path (name :: rest) w) (hnew : name ∉ w.entered) :
      WalkCall g (path ++ [name]) (g.successors name) (w.enter name)
  | up {path rest : List String} {name : String} {w inner : Walk}
      (call : WalkCall g path (name :: rest) w) (hnew : name ∉ w.entered)
      (hwalk : (g.walk (path ++ [name]) (g.successors name) (w.enter name)).map (·.1) =
        some inner) : WalkCall g path rest (inner.leave name)

/-- At each call the walk follows the path of the call. -/
theorem WalkCall.follows {g : DependencyGraph} {path names : List String} {w : Walk}
    (h : WalkCall g path names w) : w.Follows path := by
  induction h with
  | @node before _ _ w _ hwalk _ =>
      obtain ⟨after, left, found, hfold, -⟩ := exists_foldlM_walkFrom g before {} rfl
      obtain rfl := Option.some.inj (hwalk.symm.trans hfold)
      exact ⟨rfl, List.nil_subset _⟩
  | met _ _ hmet ih =>
      obtain ⟨found, rfl⟩ := Walk.exists_eq_of_meet hmet
      exact ⟨ih.onStack_eq, ih.entered_of_mem⟩
  | down _ _ ih => exact ih.enter _
  | @up path _ name w _ _ hnew hwalk ih =>
      obtain ⟨between, left, found, hwalk', htrace⟩ := exists_walk_eq g _ _ _ (ih.enter name)
      obtain rfl := Option.some.inj (hwalk.symm.trans hwalk')
      have hbetween : w.entered ⊆ between :=
        List.Subset.trans (List.subset_cons_self _ _) htrace.entered_subset
      show (Walk.leave ⟨between, name :: w.onStack, _⟩ name).Follows path
      rw [Walk.leave_eq (ih.notMem_onStack hnew)]
      exact ⟨ih.onStack_eq, List.Subset.trans ih.entered_of_mem hbetween⟩

/-- Every reported cycle is real.  It is not empty, repeats no name, holds reachable names only,
each of its names has an edge to the next, and the last has one to the first.  Whenever the walk
meets a name of the stack, the path holds it and the look-up succeeds, so that the walk ends. -/
theorem cycles_are_real (g : DependencyGraph) :
    (∀ cycle ∈ g.cycles,
        cycle ≠ [] ∧ cycle.Nodup ∧ (∀ name ∈ cycle, g.Reachable name) ∧
          cycle.IsChain g.Edge ∧
          ∀ last ∈ cycle.getLast?, ∀ first ∈ cycle.head?, g.Edge last first) ∧
      (∀ path name rest w, WalkCall g path (name :: rest) w → name ∈ w.onStack →
        name ∈ path ∧ ∃ met, w.meet path name = some met) ∧
      ∃ after, g.walkNodes = some after ∧ after.cycles = g.cycles := by
  refine ⟨?_, ?_, ?_⟩
  · intro cycle hcycle
    obtain ⟨hreal, hnodup, hreachable⟩ := isCycle_of_mem_cycles hcycle
    exact ⟨hreal.ne_nil, hnodup, hreachable, hreal.isChain, hreal.closing⟩
  · intro path name rest w hcall hstack
    have hpath : name ∈ path := hcall.follows.mem_onStack_iff.1 hstack
    rcases hcall.follows.meet_cases name with ⟨hoff, -⟩ | ⟨before, loop, -, hmet⟩
    · exact absurd hpath hoff
    · exact ⟨hpath, _, hmet⟩
  · obtain ⟨after, left, hwalk, -⟩ := exists_traversal_cycles g
    exact ⟨_, hwalk, rfl⟩

/-- Two modules that depend on each other, and one below them that depends on itself. -/
def tangled : DependencyGraph :=
  ofEdges (.ofList [("app", ["core"]), ("core", ["app", "util"]), ("util", ["util"])])

theorem walkCall_tangled :
    WalkCall tangled ["app", "core"] ["app", "util"]
      { entered := ["core", "app"], onStack := ["core", "app"] } := by
  have hnodes : tangled.nodes.keys = [] ++ "app" :: ["core", "util"] := by decide
  have hroot : WalkCall tangled [] ["app"] {} := .node hnodes rfl (by decide)
  have hbelow : WalkCall tangled ["app"] ["core"] (Walk.enter {} "app") :=
    .down hroot (by decide)
  exact .down hbelow (by decide)

theorem cycles_tangled :
    ["app", "core"] ∈ tangled.cycles ∧ tangled.Reachable "core" ∧ "app" ∈ ["app", "core"] := by
  have hcycles : tangled.cycles = [["app", "core"], ["util"]] := by cbv
  have hcycle : ["app", "core"] ∈ tangled.cycles := by rw [hcycles]; decide
  obtain ⟨hreal, hcall, -⟩ := cycles_are_real tangled
  obtain ⟨-, -, hreachable, -⟩ := hreal _ hcycle
  exact ⟨hcycle, hreachable "core" (by decide), (hcall _ _ _ _ walkCall_tangled (by decide)).1⟩

/-! ## Completeness -/

/-- Each cycle of reachable names uses an edge that closes a reported cycle. -/
theorem exists_closing_step {g : DependencyGraph} {names : List String} (h : g.IsCycle names)
    (hreachable : ∀ name ∈ names, g.Reachable name) :
    ∃ source target, (source, target) ∈ steps names ∧ Closes g.cycles source target := by
  obtain ⟨after, order, -, htrace⟩ := exists_traversal_cycles g
  have horder : DependenciesFirst g (Closes g.cycles) [] order :=
    htrace.dependenciesFirst coloured_nil
  obtain ⟨start, hstart⟩ := List.exists_mem_of_ne_nil names h.ne_nil
  -- Each step that closes no cycle goes on to a name that was left earlier.
  induction hplace : order.idxOf start using Nat.strong_induction_on generalizing start with
  | _ place ih =>
      obtain ⟨target, hstep⟩ := exists_mem_steps hstart
      have hmem : start ∈ order := htrace.mem_left_iff_reachable.2 (hreachable start hstart)
      rcases horder.idxOf_lt hmem (h.edge_of_mem_steps hstep) with hnone | hcloses | hlt
      · simp at hnone
      · exact ⟨start, target, hstep, hcloses⟩
      · exact ih _ (hplace ▸ hlt) target (mem_of_mem_steps hstep) rfl

theorem cycles_eq_nil_iff {g : DependencyGraph} :
    g.cycles = [] ↔ ¬∃ names, g.IsCycle names ∧ ∃ name ∈ names, g.Reachable name := by
  constructor
  · rintro hnil ⟨names, hcycle, name, hname, hreachable⟩
    obtain ⟨source, target, -, cycle, hmem, -⟩ :=
      exists_closing_step hcycle fun other => hcycle.reachable_of_mem hname hreachable
    rw [hnil] at hmem
    exact List.not_mem_nil hmem
  · intro hnone
    by_contra hne
    obtain ⟨cycle, hmem⟩ := List.exists_mem_of_ne_nil g.cycles hne
    obtain ⟨hreal, -, hreachable⟩ := isCycle_of_mem_cycles hmem
    obtain ⟨name, hname⟩ := List.exists_mem_of_ne_nil cycle hreal.ne_nil
    exact hnone ⟨cycle, hreal, name, hname, hreachable name hname⟩

/-- The edges that close the reported cycles. -/
def closingEdges (g : DependencyGraph) : List (String × String) :=
  g.cycles.filterMap fun cycle =>
    cycle.getLast?.bind fun last => cycle.head?.map fun first => (last, first)

theorem mem_closingEdges {g : DependencyGraph} {source target : String} :
    (source, target) ∈ g.closingEdges ↔ Closes g.cycles source target := by
  simp only [closingEdges, Closes, List.mem_filterMap, Option.bind_eq_some_iff,
    Option.map_eq_some_iff, Prod.mk.injEq]
  grind

/-- No cyclic region is missed.  Each cycle of reachable names has a step that leads from the last
to the first name of a reported cycle.  Without the closing edges of the reported cycles the
reachable names form no cycle, and nothing is reported exactly if no cycle can be reached. -/
theorem cycles_miss_nothing (g : DependencyGraph) :
    (∀ names, g.IsCycle names → (∀ name ∈ names, g.Reachable name) →
        ∃ source target, (source, target) ∈ steps names ∧
          ∃ cycle ∈ g.cycles, cycle.getLast? = some source ∧ cycle.head? = some target) ∧
      (¬∃ names, (g.withoutEdges g.closingEdges).IsCycle names ∧
        ∀ name ∈ names, g.Reachable name) ∧
      (g.cycles = [] ↔ ¬∃ names, g.IsCycle names ∧ ∃ name ∈ names, g.Reachable name) := by
  refine ⟨fun names hcycle hreachable => exists_closing_step hcycle hreachable, ?_,
    cycles_eq_nil_iff⟩
  rintro ⟨names, hcycle, hreachable⟩
  obtain ⟨source, target, hstep, hcloses⟩ :=
    exists_closing_step (hcycle.of_edge fun _ _ h => (edge_withoutEdges.1 h).1) hreachable
  exact (edge_withoutEdges.1 (hcycle.edge_of_mem_steps hstep)).2 (mem_closingEdges.2 hcloses)

/-- The cycle of two modules is met although the walk may come to it from either of them. -/
theorem exists_closing_step_tangled :
    tangled.IsCycle ["core", "app"] ∧
      ∃ source target, (source, target) ∈ steps ["core", "app"] ∧
        ∃ cycle ∈ tangled.cycles, cycle.getLast? = some source ∧ cycle.head? = some target := by
  have hcore : tangled.Edge "core" "app" := by decide
  have happ : tangled.Edge "app" "core" := by decide
  have hcycle : tangled.IsCycle ["core", "app"] := ⟨by simp, by simp [hcore], by simp [happ]⟩
  have hkeys : ["core", "app"] ⊆ tangled.nodes.keys := by decide
  have hreachable : ∀ name ∈ ["core", "app"], tangled.Reachable name :=
    fun name hname => reachable_of_mem_keys (hkeys hname)
  exact ⟨hcycle, (cycles_miss_nothing tangled).1 _ hcycle hreachable⟩

end GradleWorkspace.DependencyGraph
