import GradleWorkspace.Proofs.DependencyGraph.Reachability

/-!
# Depth-first searches and their calls

A depth-first search calls itself for the successors of each name that it meets for the first time.
What it has met by then depends on all that it did before, so no call is below another in the
graph alone; it is the names that have been met, together with the edges, that order the calls.

* `Visit.Calls` says which calls a call can make.  `Visit.wellFounded_calls` says that no calls go
  on for ever, and `Visit.nodup_of_isChain` that a chain of calls repeats no name before its last.
* `DepthFirst` is a search, given by what it does to its state, and `DepthFirst.Run` is one run of
  it, with a record of all calls.  No number bounds its length, and yet each search has one run from
  each state (`DepthFirst.exists_run`, `DepthFirst.Run.unique`).
* `DepthFirst.Run.isChain` says that the calls of a run are such calls, and `nodup_expanded` that
  the edges of a name are gone through once at most, also if the run is stopped.
-/

namespace GradleWorkspace.DependencyGraph

/-! ## Calls -/

/-- A call of a search: the name that it comes to, and the names that have been met before. -/
structure Visit where
  name : String
  met : List String
  deriving DecidableEq, Repr

namespace Visit

/-- A call for a new name makes calls for the successors of the name.  By then at least the name
itself has been met, too. -/
structure Calls (g : DependencyGraph) (caller callee : Visit) : Prop where
  fresh : caller.name ∉ caller.met
  edge : g.Edge caller.name callee.name
  met_subset : caller.name :: caller.met ⊆ callee.met

variable {g : DependencyGraph} {caller callee : Visit}

theorem Calls.mono (h : caller.Calls g callee) {met : List String} (hmet : callee.met ⊆ met) :
    caller.Calls g ⟨callee.name, met⟩ :=
  ⟨h.fresh, h.edge, List.Subset.trans h.met_subset hmet⟩

/-- With each call, fewer names with edges have not been met. -/
theorem Calls.unvisited_lt (h : caller.Calls g callee) :
    g.unvisited callee.met < g.unvisited caller.met := by
  have hle := unvisited_le (g := g) h.met_subset
  rcases unvisited_cons_lt_or g h.fresh with hlt | ⟨-, hnil⟩
  · exact Nat.lt_of_le_of_lt hle hlt
  · have hedge := h.edge
    rw [Edge, hnil] at hedge
    simp at hedge

/-- No calls go on for ever. -/
theorem wellFounded_calls (g : DependencyGraph) :
    WellFounded fun callee caller : Visit => caller.Calls g callee :=
  Subrelation.wf Calls.unvisited_lt
    (InvImage.wf (fun visit : Visit => g.unvisited visit.met) Nat.lt_wfRel.wf)

/-- What was met before a call, and the name of the call itself, have been met before all calls that
it leads to. -/
theorem pairwise_of_isChain {chain : List Visit} (h : chain.IsChain (Calls g)) :
    chain.Pairwise fun earlier later => earlier.name :: earlier.met ⊆ later.met := by
  have hmono : chain.IsChain fun earlier later => earlier.name :: earlier.met ⊆ later.met :=
    h.imp fun _ _ hcalls => hcalls.met_subset
  have : Trans (fun earlier later : Visit => earlier.name :: earlier.met ⊆ later.met)
      (fun earlier later : Visit => earlier.name :: earlier.met ⊆ later.met)
      (fun earlier later : Visit => earlier.name :: earlier.met ⊆ later.met) :=
    ⟨fun hfirst hsecond =>
      List.Subset.trans hfirst (List.Subset.trans (List.subset_cons_self _ _) hsecond)⟩
  exact List.isChain_iff_pairwise.1 hmono

theorem fresh_of_mem_dropLast {chain : List Visit} (h : chain.IsChain (Calls g)) {visit : Visit}
    (hmem : visit ∈ chain.dropLast) : visit.name ∉ visit.met := by
  induction chain with
  | nil => simp at hmem
  | cons first rest ih =>
      cases rest with
      | nil => simp at hmem
      | cons second rest =>
          rw [List.dropLast_cons_cons] at hmem
          rcases List.mem_cons.1 hmem with rfl | hrest
          · exact h.rel.fresh
          · exact ih h.tail hrest

/-- A chain of calls repeats no name before its last. -/
theorem nodup_of_isChain {chain : List Visit} (h : chain.IsChain (Calls g)) :
    (chain.dropLast.map Visit.name).Nodup := by
  have hmet := (pairwise_of_isChain h).sublist (List.dropLast_sublist chain)
  refine List.pairwise_map.2 (hmet.imp_of_mem fun {earlier later} _ hlater hsub heq => ?_)
  have hname : later.name ∈ later.met := heq ▸ hsub List.mem_cons_self
  exact fresh_of_mem_dropLast h hlater hname

end Visit

/-! ## Searches -/

/-- A depth-first search: what it does to its state when it comes to a name.  The names that it has
met tell whether it goes on from there. -/
structure DepthFirst (σ ε : Type) where
  /-- The names that have been met. -/
  met : σ → List String
  /-- It comes to a name again, at the end of a path. -/
  meet : σ → (path : List String) → (name : String) → Except ε σ
  /-- It comes to a name for the first time. -/
  enter : σ → String → σ
  /-- It is done with the successors of a name. -/
  leave : σ → String → σ
  met_meet : ∀ {s s' : σ} {path : List String} {name : String},
    meet s path name = .ok s' → met s' = met s
  met_enter : ∀ (s : σ) (name : String), met (enter s name) = name :: met s
  mem_met_leave : ∀ {s : σ} {name other : String}, name ∈ met s →
    (other ∈ met (leave s name) ↔ other ∈ met s)

namespace DepthFirst

variable {σ ε : Type}

/-- A run of a search from the last of the active calls to the given names, one after the other.
The record holds, for each name that the run comes to, the chain of calls that are active then, and
beside it the names whose edges are gone through, in this order. -/
inductive Run (search : DepthFirst σ ε) (g : DependencyGraph) :
    (active : List Visit) → (names : List String) → σ → (record : List (List Visit)) →
      (expanded : List String) → Except ε σ → Prop
  | nil (active : List Visit) (s : σ) : Run search g active [] s [] [] (.ok s)
  | stop {active : List Visit} {rest : List String} {name : String} {s : σ} {e : ε}
      (hmet : name ∈ search.met s)
      (hmeet : search.meet s (active.map Visit.name) name = .error e) :
      Run search g active (name :: rest) s [active ++ [⟨name, search.met s⟩]] [] (.error e)
  | again {active : List Visit} {rest expanded : List String} {name : String} {s s' : σ}
      {record : List (List Visit)} {result : Except ε σ} (hmet : name ∈ search.met s)
      (hmeet : search.meet s (active.map Visit.name) name = .ok s')
      (tail : Run search g active rest s' record expanded result) :
      Run search g active (name :: rest) s ((active ++ [⟨name, search.met s⟩]) :: record) expanded
        result
  | fail {active : List Visit} {rest expanded : List String} {name : String} {s : σ} {e : ε}
      {record : List (List Visit)} (hnew : name ∉ search.met s)
      (below : Run search g (active ++ [⟨name, search.met s⟩]) (g.successors name)
        (search.enter s name) record expanded (.error e)) :
      Run search g active (name :: rest) s ((active ++ [⟨name, search.met s⟩]) :: record)
        (name :: expanded) (.error e)
  | fresh {active : List Visit} {rest expanded expanded' : List String} {name : String}
      {s inner : σ} {record record' : List (List Visit)} {result : Except ε σ}
      (hnew : name ∉ search.met s)
      (below : Run search g (active ++ [⟨name, search.met s⟩]) (g.successors name)
        (search.enter s name) record expanded (.ok inner))
      (tail : Run search g active rest (search.leave inner name) record' expanded' result) :
      Run search g active (name :: rest) s
        ((active ++ [⟨name, search.met s⟩]) :: (record ++ record'))
        (name :: (expanded ++ expanded')) result

namespace Run

variable {search : DepthFirst σ ε} {g : DependencyGraph} {active : List Visit}
  {names expanded : List String} {s s' : σ} {record : List (List Visit)} {result : Except ε σ}

/-- A run that comes to its end has met what was met before and what it went on from. -/
theorem mem_met_iff (h : search.Run g active names s record expanded result)
    (hok : result = .ok s') {other : String} :
    other ∈ search.met s' ↔ other ∈ search.met s ∨ other ∈ expanded := by
  induction h generalizing s' other with
  | nil active s =>
      obtain rfl := Except.ok.inj hok
      simp
  | stop hmet hmeet => simp at hok
  | again hmet hmeet tail ih => rw [ih hok, search.met_meet hmeet]
  | fail hnew below ihBelow => simp at hok
  | @fresh _ _ _ _ name s inner _ _ _ hnew below tail ihBelow ih =>
      have hname : name ∈ search.met inner := by
        rw [ihBelow rfl, search.met_enter]
        exact Or.inl List.mem_cons_self
      rw [ih hok, search.mem_met_leave hname, ihBelow rfl, search.met_enter, List.mem_cons,
        List.mem_cons, List.mem_append]
      grind

/-- What has been met once all below a name is done. -/
theorem mem_met_leave_iff {name other : String} {inner : σ}
    (below : search.Run g active names (search.enter s name) record expanded (.ok inner)) :
    other ∈ search.met (search.leave inner name) ↔
      other ∈ name :: search.met s ∨ other ∈ expanded := by
  have hname : name ∈ search.met inner := by
    rw [below.mem_met_iff rfl, search.met_enter]
    exact Or.inl List.mem_cons_self
  rw [search.mem_met_leave hname, below.mem_met_iff rfl, search.met_enter]

/-- The edges of each name are gone through once at most, and not if the name was met before the
run, whether the run comes to its end or not. -/
theorem nodup_expanded (h : search.Run g active names s record expanded result) :
    expanded.Nodup ∧ ∀ name ∈ expanded, name ∉ search.met s := by
  induction h with
  | nil | stop => simp
  | again hmet hmeet tail ih => rwa [search.met_meet hmeet] at ih
  | @fail active rest expanded name s e record hnew below ihBelow =>
      rw [search.met_enter] at ihBelow
      obtain ⟨hnodup, hfresh⟩ := ihBelow
      refine ⟨List.nodup_cons.2 ⟨fun hname => hfresh name hname List.mem_cons_self, hnodup⟩, ?_⟩
      refine List.forall_mem_cons.2 ⟨hnew, fun other hother hmem => ?_⟩
      exact hfresh other hother (List.mem_cons_of_mem _ hmem)
  | @fresh active rest expanded expanded' name s inner record record' result hnew below tail ihBelow
      ih =>
      rw [search.met_enter] at ihBelow
      obtain ⟨hnodup, hfresh⟩ := ihBelow
      obtain ⟨hnodup', hfresh'⟩ := ih
      -- What is gone through after the name and all below it is none of these.
      have hafter : ∀ other ∈ expanded', other ∉ name :: search.met s ∧ other ∉ expanded := by
        intro other hother
        exact not_or.1 (mt below.mem_met_leave_iff.2 (hfresh' other hother))
      refine ⟨List.nodup_cons.2 ⟨?_, List.nodup_append.2 ⟨hnodup, hnodup', ?_⟩⟩, ?_⟩
      · intro hname
        rcases List.mem_append.1 hname with hbelow | htail
        · exact hfresh name hbelow List.mem_cons_self
        · exact (hafter name htail).1 List.mem_cons_self
      · intro other hother _ hlater heq
        exact (hafter _ hlater).2 (heq ▸ hother)
      · refine List.forall_mem_cons.2 ⟨hnew, fun other hother hmem => ?_⟩
        rcases List.mem_append.1 hother with hbelow | htail
        · exact hfresh other hbelow (List.mem_cons_of_mem _ hmem)
        · exact (hafter other htail).1 (List.mem_cons_of_mem _ hmem)

/-- There is no other run. -/
theorem unique (h : search.Run g active names s record expanded result)
    {record' : List (List Visit)} {expanded' : List String} {result' : Except ε σ}
    (h' : search.Run g active names s record' expanded' result') :
    record' = record ∧ expanded' = expanded ∧ result' = result := by
  induction h generalizing record' expanded' result' with
  | nil => 
      cases h'
      exact ⟨rfl, rfl, rfl⟩
  | stop hmet hmeet =>
      cases h' with
      | stop _ hmeet' => 
          obtain rfl := Except.error.inj (hmeet'.symm.trans hmeet)
          exact ⟨rfl, rfl, rfl⟩
      | again _ hmeet' _ => simp [hmeet] at hmeet'
      | fail hnew _ => exact absurd hmet hnew
      | fresh hnew _ _ => exact absurd hmet hnew
  | again hmet hmeet tail ih =>
      cases h' with
      | stop _ hmeet' => simp [hmeet] at hmeet'
      | again _ hmeet' tail' => 
          obtain rfl := Except.ok.inj (hmeet'.symm.trans hmeet)
          obtain ⟨rfl, rfl, rfl⟩ := ih tail'
          exact ⟨rfl, rfl, rfl⟩
      | fail hnew _ => exact absurd hmet hnew
      | fresh hnew _ _ => exact absurd hmet hnew
  | fail hnew below ihBelow =>
      cases h' with
      | stop hmet _ => exact absurd hmet hnew
      | again hmet _ _ => exact absurd hmet hnew
      | fail _ below' =>
          obtain ⟨rfl, rfl, heq⟩ := ihBelow below'
          obtain rfl := Except.error.inj heq
          exact ⟨rfl, rfl, rfl⟩
      | fresh _ below' _ => simpa using (ihBelow below').2.2
  | fresh hnew below tail ihBelow ih =>
      cases h' with
      | stop hmet _ => exact absurd hmet hnew
      | again hmet _ _ => exact absurd hmet hnew
      | fail _ below' => simpa using (ihBelow below').2.2
      | fresh _ below' tail' => 
          obtain ⟨rfl, rfl, heq⟩ := ihBelow below'
          obtain rfl := Except.ok.inj heq
          obtain ⟨rfl, rfl, rfl⟩ := ih tail'
          exact ⟨rfl, rfl, rfl⟩

end Run

/-- There is a run from each state. -/
theorem exists_run (search : DepthFirst σ ε) (g : DependencyGraph) (active : List Visit)
    (names : List String) (s : σ) :
    ∃ record expanded result, search.Run g active names s record expanded result := by
  match names with
  | [] => exact ⟨_, _, _, .nil active s⟩
  | name :: rest =>
    by_cases hmet : name ∈ search.met s
    · cases hmeet : search.meet s (active.map Visit.name) name with
      | error e => exact ⟨_, _, _, .stop hmet hmeet⟩
      | ok s' =>
          have hsame : search.met s' = search.met s := search.met_meet hmeet
          obtain ⟨_, _, _, htail⟩ := exists_run search g active rest s'
          exact ⟨_, _, _, .again hmet hmeet htail⟩
    · obtain ⟨_, _, below, hbelow⟩ := exists_run search g (active ++ [⟨name, search.met s⟩])
        (g.successors name) (search.enter s name)
      cases below with
      | error e => exact ⟨_, _, _, .fail hmet hbelow⟩
      | ok inner =>
          have hgrow : search.met s ⊆ search.met (search.leave inner name) := fun _ hother =>
            hbelow.mem_met_leave_iff.2 (Or.inl (List.mem_cons_of_mem _ hother))
          have hle := unvisited_le (g := g) hgrow
          obtain ⟨_, _, _, htail⟩ := exists_run search g active rest (search.leave inner name)
          exact ⟨_, _, _, .fresh hmet hbelow htail⟩
termination_by (g.unvisited (search.met s), names.length)
decreasing_by
  · rw [hsame]
    exact Prod.Lex.right _ (by simp)
  · rw [search.met_enter]
    rcases unvisited_cons_lt_or g hmet with hlt | ⟨hle, hnil⟩
    · exact Prod.Lex.left _ _ hlt
    · rw [hnil]
      exact Prod.Lex.right' _ hle (by simp)
  · exact Prod.Lex.right' _ hle (by simp)

/-- There is one run from each state. -/
theorem exists_run_iff (search : DepthFirst σ ε) (g : DependencyGraph) (active : List Visit)
    (names : List String) (s : σ) :
    ∃ record expanded result, ∀ record' expanded' result',
      search.Run g active names s record' expanded' result' ↔
        record' = record ∧ expanded' = expanded ∧ result' = result := by
  obtain ⟨record, expanded, result, hrun⟩ := exists_run search g active names s
  refine ⟨record, expanded, result, fun record' expanded' result' => ⟨hrun.unique, ?_⟩⟩
  rintro ⟨rfl, rfl, rfl⟩
  exact hrun

/-! ## The calls of a run -/

/-- The active calls form a chain, and the last of them can make calls for the given names once some
names have been met. -/
structure IsActive (g : DependencyGraph) (active : List Visit) (names met : List String) :
    Prop where
  isChain : active.IsChain (Visit.Calls g)
  calls : ∀ caller ∈ active.getLast?, ∀ name ∈ names, caller.Calls g ⟨name, met⟩

section IsActive

variable {g : DependencyGraph} {active : List Visit} {name : String} {names met met' : List String}

theorem isActive_nil (g : DependencyGraph) (names met : List String) : IsActive g [] names met :=
  ⟨List.isChain_nil, by simp⟩

/-- A call for the first name makes the chain longer. -/
theorem IsActive.isChain_concat (h : IsActive g active (name :: names) met) :
    List.IsChain (Visit.Calls g) (active ++ [⟨name, met⟩]) := by
  refine List.isChain_append.2 ⟨h.isChain, List.isChain_singleton _, ?_⟩
  intro caller hcaller callee hcallee
  obtain rfl := Option.some.inj hcallee
  exact h.calls caller hcaller name List.mem_cons_self

/-- The call can make calls in its turn, if the name is new. -/
theorem IsActive.enter (h : IsActive g active (name :: names) met) (hnew : name ∉ met) :
    IsActive g (active ++ [⟨name, met⟩]) (g.successors name) (name :: met) where
  isChain := h.isChain_concat
  calls caller hcaller other hother := by
    rw [List.getLast?_concat] at hcaller
    obtain rfl := Option.some.inj hcaller
    exact ⟨hnew, hother, List.Subset.refl _⟩

/-- Afterwards the same calls are active, and more names have been met. -/
theorem IsActive.tail (h : IsActive g active (name :: names) met) (hmet : met ⊆ met') :
    IsActive g active names met' where
  isChain := h.isChain
  calls caller hcaller other hother :=
    (h.calls caller hcaller other (List.mem_cons_of_mem _ hother)).mono hmet

end IsActive

/-- Each chain of active calls in the record of a run leads from a call to one that it makes. -/
theorem Run.isChain {search : DepthFirst σ ε} {g : DependencyGraph} {active : List Visit}
    {names expanded : List String} {s : σ} {record : List (List Visit)} {result : Except ε σ}
    (h : search.Run g active names s record expanded result)
    (hactive : IsActive g active names (search.met s)) :
    ∀ chain ∈ record, chain.IsChain (Visit.Calls g) := by
  induction h with
  | nil => simp
  | stop hmet hmeet => exact List.forall_mem_singleton.2 hactive.isChain_concat
  | again hmet hmeet tail ih =>
      rw [search.met_meet hmeet] at ih
      exact List.forall_mem_cons.2 ⟨hactive.isChain_concat, ih (hactive.tail (List.Subset.refl _))⟩
  | fail hnew below ihBelow =>
      rw [search.met_enter] at ihBelow
      exact List.forall_mem_cons.2 ⟨hactive.isChain_concat, ihBelow (hactive.enter hnew)⟩
  | fresh hnew below tail ihBelow ih =>
      rw [search.met_enter] at ihBelow
      refine List.forall_mem_cons.2 ⟨hactive.isChain_concat, List.forall_mem_append.2
        ⟨ihBelow (hactive.enter hnew), ih (hactive.tail fun _ hother => ?_)⟩⟩
      exact below.mem_met_leave_iff.2 (Or.inl (List.mem_cons_of_mem _ hother))

end DepthFirst

end GradleWorkspace.DependencyGraph
