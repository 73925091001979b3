import GradleWorkspace.Proofs.DependencyGraph.BuildOrder
import GradleWorkspace.Proofs.DependencyGraph.DepthFirst

/-!
# The walk and the placing of names end

Both are depth-first searches: `cycleSearch` is the walk that looks for cycles, and `placingSearch`
the placing of names for a build order.  A run of either is what the function does (`walk_eq_of_run`
and `place_eq_of_run`), so what holds of all runs holds of both.

`searches_end` is the result: from all nodes of any graph each of them has one run, whose calls
follow a relation that does not go on for ever.
-/

namespace GradleWorkspace.DependencyGraph

/-! ## The walk that looks for cycles -/

/-- The walk as a search.  It fails if a name of the stack is not on the path. -/
def cycleSearch : DepthFirst Walk Unit where
  met := Walk.entered
  meet w path name :=
    match w.meet path name with
    | none => .error ()
    | some met => .ok met
  enter := Walk.enter
  leave := Walk.leave
  met_meet {w after path name} h := by
    cases hmeet : w.meet path name with
    | none => simp [hmeet] at h
    | some met =>
        rw [hmeet] at h
        obtain rfl := Except.ok.inj h
        exact Walk.entered_of_meet hmeet
  met_enter _ _ := rfl
  mem_met_leave _ := Iff.rfl

theorem meet_of_cycleSearch_eq_ok {w after : Walk} {path : List String} {name : String}
    (h : cycleSearch.meet w path name = .ok after) : w.meet path name = some after := by
  unfold cycleSearch at h
  cases hmeet : w.meet path name with
  | none => simp [hmeet] at h
  | some met =>
      simp only [hmeet] at h
      rw [Except.ok.inj h]

theorem meet_of_cycleSearch_eq_error {w : Walk} {path : List String} {name : String}
    (h : cycleSearch.meet w path name = .error ()) : w.meet path name = none := by
  unfold cycleSearch at h
  cases hmeet : w.meet path name with
  | none => rfl
  | some met => simp [hmeet] at h

/-- A run of the search is what the walk does. -/
theorem walk_eq_of_run {g : DependencyGraph} {active : List Visit} {names expanded : List String}
    {w : Walk} {record : List (List Visit)} {result : Except Unit Walk}
    (h : cycleSearch.Run g active names w record expanded result) :
    (g.walk (active.map Visit.name) names w).map (·.1) = result.toOption := by
  induction h with
  | nil active w => exact walk_nil g _ w
  | stop hmet hmeet =>
      rw [walk_cons_of_mem hmet, meet_of_cycleSearch_eq_error hmeet]
      rfl
  | again hmet hmeet tail ih =>
      rw [walk_cons_of_mem hmet, meet_of_cycleSearch_eq_ok hmeet]
      exact ih
  | fail hnew below ihBelow =>
      rw [List.map_append] at ihBelow
      rw [walk_cons_of_notMem hnew]
      exact congrArg (Option.bind · _) ihBelow
  | fresh hnew below tail ihBelow ih =>
      rw [List.map_append] at ihBelow
      rw [walk_cons_of_notMem hnew]
      exact (congrArg (Option.bind · _) ihBelow).trans ih

/-- Walking from one node after the other is one walk to all of them. -/
theorem foldlM_walkFrom_eq (g : DependencyGraph) (nodes : List String) (w : Walk)
    (hstack : w.onStack = []) :
    nodes.foldlM g.walkFrom w = (g.walk [] nodes w).map (·.1) := by
  induction nodes generalizing w with
  | nil => exact (walk_nil g [] w).symm
  | cons node rest ih =>
      rw [List.foldlM_cons, walkFrom]
      by_cases hnode : node ∈ w.entered
      · have hmeet : w.meet [] node = some w := by
          rw [Walk.meet, hstack, if_neg List.not_mem_nil]
        rw [if_pos hnode, walk_cons_of_mem hnode, hmeet]
        exact ih w hstack
      · have hfollows : w.Follows [] := ⟨hstack, List.nil_subset _⟩
        obtain ⟨between, _, found, hbelow, -⟩ :=
          exists_walk_eq g [node] (g.successors node) (w.enter node) (hfollows.enter node)
        have hleave : Walk.leave ⟨between, (w.enter node).onStack, (w.enter node).cycles ++ found⟩
            node = ⟨between, w.onStack, w.cycles ++ found⟩ :=
          Walk.leave_eq (hfollows.notMem_onStack hnode)
        rw [if_neg hnode, walk_cons_of_notMem hnode, walk_cons_of_notMem hnode, List.nil_append,
          hbelow, Option.bind_some, Option.bind_some, walk_nil, hleave]
        exact ih _ hstack

/-- A run from all nodes ends with what the walk from all nodes has seen. -/
theorem eq_of_run_of_walkNodes {g : DependencyGraph} {record : List (List Visit)}
    {entered : List String} {result : Except Unit Walk} {after : Walk}
    (h : cycleSearch.Run g [] g.nodes.keys {} record entered result)
    (hwalk : g.walkNodes = some after) : result = .ok after := by
  have hresult := walk_eq_of_run h
  rw [List.map_nil, ← foldlM_walkFrom_eq g g.nodes.keys {} rfl, ← walkNodes, hwalk] at hresult
  cases result with
  | error e => simp [Except.toOption] at hresult
  | ok last => exact congrArg Except.ok (Option.some.inj hresult).symm

/-! ## The placing of names -/

/-- The placing of names as a search.  It stops at a name that waits. -/
def placingSearch : DepthFirst Placing CircularDependency where
  met := Placing.met
  meet s _ name := if name ∈ s.waiting then .error ⟨name⟩ else .ok s
  enter := Placing.enter
  leave := Placing.leave
  met_meet {s after _ name} h := by
    split at h
    · simp at h
    · rw [Except.ok.inj h]
  met_enter _ _ := rfl
  mem_met_leave {s name other} h := by
    by_cases hother : other = name
    · simp [Placing.met, Placing.leave, hother, List.mem_append.1 h]
    · simp [Placing.met, Placing.leave, hother]

theorem mem_waiting_of_placingSearch_eq_error {s : Placing} {path : List String} {name : String}
    {e : CircularDependency} (h : placingSearch.meet s path name = .error e) :
    name ∈ s.waiting ∧ e = ⟨name⟩ := by
  unfold placingSearch at h
  dsimp only at h
  split at h
  · next hwaiting => exact ⟨hwaiting, (Except.error.inj h).symm⟩
  · simp at h

theorem notMem_waiting_of_placingSearch_eq_ok {s after : Placing} {path : List String}
    {name : String} (h : placingSearch.meet s path name = .ok after) :
    name ∉ s.waiting ∧ after = s := by
  unfold placingSearch at h
  dsimp only at h
  split at h
  · simp at h
  · next hwaiting => exact ⟨hwaiting, (Except.ok.inj h).symm⟩

/-- A run of the search is what the placing does. -/
theorem place_eq_of_run {g : DependencyGraph} {active : List Visit} {names expanded : List String}
    {s : Placing} {record : List (List Visit)} {result : Except CircularDependency Placing}
    (h : placingSearch.Run g active names s record expanded result) :
    (g.place names s).map (·.1) = result := by
  induction h with
  | nil active s => exact place_nil g s
  | stop hmet hmeet =>
      obtain ⟨hwaiting, rfl⟩ := mem_waiting_of_placingSearch_eq_error hmeet
      exact place_cons_of_mem_waiting hwaiting
  | again hmet hmeet tail ih =>
      obtain ⟨hwaiting, rfl⟩ := notMem_waiting_of_placingSearch_eq_ok hmeet
      have hplaced := (List.mem_append.1 hmet).resolve_left hwaiting
      rw [place_cons_of_mem_placed hwaiting hplaced]
      exact ih
  | fail hnew below ihBelow =>
      obtain ⟨hwaiting, hplaced⟩ := not_or.1 (mt List.mem_append.2 hnew)
      rw [place_cons_of_notMem hwaiting hplaced]
      exact congrArg (Except.bind · _) ihBelow
  | fresh hnew below tail ihBelow ih =>
      obtain ⟨hwaiting, hplaced⟩ := not_or.1 (mt List.mem_append.2 hnew)
      rw [place_cons_of_notMem hwaiting hplaced]
      exact (congrArg (Except.bind · _) ihBelow).trans ih

/-- The placing of all nodes gives the build order. -/
theorem buildOrder_eq_place (g : DependencyGraph) :
    g.buildOrder = ((g.place g.nodes.keys {}).map (·.1)).map Placing.order := by
  obtain ⟨after, left, -, htrace⟩ := exists_traversal_cycles g
  rw [buildOrder, htrace.foldlM_placeNode_eq {} rfl coloured_nil,
    htrace.place_eq {} rfl coloured_nil]

/-! ## Both searches end -/

/-- The walk and the placing end for every graph, with cycles, with edges to names that are no nodes
and with repeated edges.  The calls that calls can make do not go on for ever.  From all nodes, the
walk has one run, which enters each reachable name once, and these are the names that it remembers.
The placing has one run, too, whether it ends in a build order or at a circular dependency.  It goes
through the edges of each name once at most, and the active calls are for different names, but for
the last. -/
theorem searches_end (g : DependencyGraph) :
    (WellFounded fun callee caller : Visit => caller.Calls g callee) ∧
      (∃ record entered after, g.walkNodes = some after ∧ after.cycles = g.cycles ∧
        (∀ record' entered' result,
          cycleSearch.Run g [] g.nodes.keys {} record' entered' result ↔
            record' = record ∧ entered' = entered ∧ result = .ok after) ∧
        after.entered.Perm entered ∧ entered.Nodup ∧ (∀ name, name ∈ entered ↔ g.Reachable name) ∧
        ∀ chain ∈ record, chain.IsChain (Visit.Calls g)) ∧
      ∃ record expanded result, g.buildOrder = result.map Placing.order ∧
        (∀ record' expanded' result',
          placingSearch.Run g [] g.nodes.keys {} record' expanded' result' ↔
            record' = record ∧ expanded' = expanded ∧ result' = result) ∧
        expanded.Nodup ∧
        ∀ chain ∈ record, chain.IsChain (Visit.Calls g) ∧
          (chain.dropLast.map Visit.name).Nodup := by
  refine ⟨Visit.wellFounded_calls g, ?_, ?_⟩
  · obtain ⟨record, entered, result, hruns⟩ := cycleSearch.exists_run_iff g [] g.nodes.keys {}
    have hrun := (hruns _ _ _).2 ⟨rfl, rfl, rfl⟩
    obtain ⟨after, left, hwalk, htrace⟩ := exists_traversal_cycles g
    obtain rfl := eq_of_run_of_walkNodes hrun hwalk
    have hmem : ∀ name, name ∈ after ↔ name ∈ entered := by
      intro name
      have hmet : name ∈ after ↔ name ∈ [] ∨ name ∈ entered := hrun.mem_met_iff rfl
      simpa using hmet
    have hnodup := hrun.nodup_expanded.1
    refine ⟨record, entered, _, hwalk, rfl, hruns, ?_, hnodup, fun name => ?_,
      hrun.isChain (DepthFirst.isActive_nil g _ _)⟩
    · exact (List.perm_ext_iff_of_nodup (htrace.nodup_after List.nodup_nil) hnodup).2 hmem
    · rw [← hmem, htrace.mem_after_iff, htrace.mem_left_iff_reachable]
      simp
  · obtain ⟨record, expanded, result, hruns⟩ := placingSearch.exists_run_iff g [] g.nodes.keys {}
    have hrun := (hruns _ _ _).2 ⟨rfl, rfl, rfl⟩
    refine ⟨record, expanded, result, ?_, hruns, hrun.nodup_expanded.1, fun chain hchain => ?_⟩
    · rw [buildOrder_eq_place, place_eq_of_run hrun]
    · have hcalls := hrun.isChain (DepthFirst.isActive_nil g _ _) chain hchain
      exact ⟨hcalls, Visit.nodup_of_isChain hcalls⟩

/-- The calls that are active when the placing stops: the last one is for a name that waits. -/
def stoppingCalls : List Visit := [⟨"app", []⟩, ⟨"core", ["app"]⟩, ⟨"app", ["core", "app"]⟩]

/-- The placing stops at the cycle of two modules and goes through the edges of both before. -/
theorem searches_end_tangled :
    (∃ record, placingSearch.Run tangled [] tangled.nodes.keys {} record ["app", "core"]
        (.error ⟨"app"⟩) ∧ stoppingCalls ∈ record) ∧
      tangled.buildOrder = .error ⟨"app"⟩ ∧ stoppingCalls.IsChain (Visit.Calls tangled) ∧
      (stoppingCalls.dropLast.map Visit.name).Nodup := by
  have hrun : placingSearch.Run tangled [] tangled.nodes.keys {}
      [[⟨"app", []⟩], [⟨"app", []⟩, ⟨"core", ["app"]⟩], stoppingCalls] ["app", "core"]
      (.error ⟨"app"⟩) :=
    .fail (by decide) (.fail (by decide) (.stop (by decide) rfl))
  obtain ⟨-, -, record, expanded, result, horder, hruns, -, hcalls⟩ := searches_end tangled
  obtain ⟨rfl, rfl, rfl⟩ := (hruns _ _ _).1 hrun
  have hmem : stoppingCalls ∈ [[⟨"app", []⟩], [⟨"app", []⟩, ⟨"core", ["app"]⟩], stoppingCalls] := by
    simp
  exact ⟨⟨_, hrun, hmem⟩, horder, hcalls _ hmem⟩

end GradleWorkspace.DependencyGraph
