import GradleWorkspace.DependencyGraph.Transitive
import GradleWorkspace.Proofs.DependencyGraph.Cycles
import GradleWorkspace.Proofs.OrderedMap

/-!
# Transitive dependencies are what can be reached

The search behind `transitiveDependencies` keeps the names that it has reached, and a worklist that
may hold a name many times.  `Search.Round` is one round of such a search.  It may take any name
from the worklist and put successors anywhere, so that no result depends on their order.

There are three groups.

* What a round keeps.  `Search.IsFrom` ties the names that are reached to the worklist, and when the
  worklist is empty the names are exactly those that can be reached.
* The end of a search.  `Search.pending` counts the worklist and the edges of all names that are not
  reached.  It falls by one in each round, although a round may make the worklist longer.
* `reach` is such a search (`rounds_reach`), and `transitiveDependencies_exact` is the result.
-/

namespace GradleWorkspace.DependencyGraph

/-- A search in a graph. -/
structure Search where
  /-- The names that are still to be looked at. -/
  worklist : List String
  /-- The names that have been reached. -/
  reached : List String

namespace Search

/-- The search for what can be reached from a name by one edge or more. -/
def start (g : DependencyGraph) (source : String) : Search := ⟨g.successors source, []⟩

/-- One round of a search: a name is taken from the worklist and dropped if it has been reached;
otherwise it is reached, and its successors are put on the worklist. -/
inductive Round (g : DependencyGraph) : Search → Search → Prop
  | again {worklist rest reached : List String} {name : String}
      (htake : worklist.Perm (name :: rest)) (hold : name ∈ reached) :
      Round g ⟨worklist, reached⟩ ⟨rest, reached⟩
  | first {worklist rest next reached : List String} {name : String}
      (htake : worklist.Perm (name :: rest)) (hnew : name ∉ reached)
      (hput : next.Perm (g.successors name ++ rest)) :
      Round g ⟨worklist, reached⟩ ⟨next, name :: reached⟩

variable {g : DependencyGraph} {source : String} {s s' : Search}

/-- A search goes on as long as its worklist holds a name. -/
theorem exists_round_iff : (∃ s', Round g s s') ↔ s.worklist ≠ [] := by
  constructor
  · rintro ⟨_, hround⟩ hend
    cases hround with
    | again htake _ | first htake _ _ =>
        obtain rfl : _ = [] := hend
        simp at htake
  · intro hne
    obtain ⟨worklist, reached⟩ := s
    obtain ⟨name, rest, rfl⟩ := List.exists_cons_of_ne_nil hne
    by_cases hname : name ∈ reached
    · exact ⟨_, .again (.refl _) hname⟩
    · exact ⟨_, .first (.refl _) hname (.refl _)⟩

/-! ## What a round keeps -/

/-- A search for what can be reached from a name: all names that it holds can be, and it holds all
successors of the name and of those that it has reached. -/
structure IsFrom (g : DependencyGraph) (source : String) (s : Search) : Prop where
  sound : ∀ name, name ∈ s.worklist ∨ name ∈ s.reached → Relation.TransGen g.Edge source name
  complete : ∀ name, name = source ∨ name ∈ s.reached → ∀ target ∈ g.successors name,
    target ∈ s.worklist ∨ target ∈ s.reached

theorem isFrom_start (g : DependencyGraph) (source : String) :
    IsFrom g source (start g source) where
  sound name hname := by
    have hedge : name ∈ g.successors source := by simpa [start] using hname
    exact .single hedge
  complete name hname target htarget := by
    obtain rfl : name = source := by simpa [start] using hname
    exact Or.inl htarget

theorem IsFrom.round (h : IsFrom g source s) (hround : Round g s s') : IsFrom g source s' := by
  cases hround with
  | @again worklist rest reached name htake hold =>
      have hmem : ∀ other, other ∈ worklist ↔ other = name ∨ other ∈ rest := by
        simp [htake.mem_iff]
      refine ⟨fun other hother => h.sound other ?_, fun other hother target htarget => ?_⟩
      · exact hother.imp_left fun hrest => (hmem other).2 (Or.inr hrest)
      · rcases h.complete other hother target htarget with hwork | hreached
        · rcases (hmem target).1 hwork with rfl | hrest
          · exact Or.inr hold
          · exact Or.inl hrest
        · exact Or.inr hreached
  | @first worklist rest next reached name htake hnew hput =>
      have hmem : ∀ other, other ∈ worklist ↔ other = name ∨ other ∈ rest := by
        simp [htake.mem_iff]
      have hnext : ∀ other, other ∈ next ↔ other ∈ g.successors name ∨ other ∈ rest := by
        simp [hput.mem_iff]
      have hname : Relation.TransGen g.Edge source name :=
        h.sound name (Or.inl ((hmem name).2 (Or.inl rfl)))
      constructor
      · rintro other (hother | hother)
        · rcases (hnext other).1 hother with hedge | hrest
          · exact hname.tail hedge
          · exact h.sound other (Or.inl ((hmem other).2 (Or.inr hrest)))
        · rcases List.mem_cons.1 hother with rfl | hreached
          · exact hname
          · exact h.sound other (Or.inr hreached)
      · intro other hother target htarget
        by_cases heq : other = name
        · subst heq
          exact Or.inl ((hnext target).2 (Or.inl htarget))
        · have hbefore : other = source ∨ other ∈ reached :=
            hother.imp_right fun hcons => (List.mem_cons.1 hcons).resolve_left heq
          rcases h.complete other hbefore target htarget with hwork | hreached
          · rcases (hmem target).1 hwork with rfl | hrest
            · exact Or.inr List.mem_cons_self
            · exact Or.inl ((hnext target).2 (Or.inr hrest))
          · exact Or.inr (List.mem_cons_of_mem _ hreached)

theorem IsFrom.rounds (h : IsFrom g source s) (hrounds : Relation.ReflTransGen (Round g) s s') :
    IsFrom g source s' := by
  induction hrounds with
  | refl => exact h
  | tail _ hround ih => exact ih.round hround

/-- A search that has come to its end has reached what can be reached, and nothing else. -/
theorem IsFrom.mem_reached_iff (h : IsFrom g source s) (hend : s.worklist = []) {name : String} :
    name ∈ s.reached ↔ Relation.TransGen g.Edge source name := by
  have hclosed : ∀ other, other = source ∨ other ∈ s.reached → ∀ target ∈ g.successors other,
      target ∈ s.reached := fun other hother target htarget => by
    simpa [hend] using h.complete other hother target htarget
  constructor
  · exact fun hname => h.sound name (Or.inr hname)
  · intro hpath
    induction hpath with
    | single hedge => exact hclosed source (Or.inl rfl) _ hedge
    | tail _ hedge ih => exact hclosed _ (Or.inr ih) _ hedge

/-! ## The end of a search -/

/-- The number of edges listed for names that have not been reached. -/
def edgesLeft (entries : List (String × List String)) (reached : List String) : Nat :=
  ((entries.filter fun entry => entry.1 ∉ reached).map fun entry => entry.2.length).sum

/-- The rounds that a search can still make: one for each name of the worklist, and one for each
that may still be put there. -/
def pending (g : DependencyGraph) (s : Search) : Nat :=
  s.worklist.length + edgesLeft g.edges.entries s.reached

theorem pending_start (g : DependencyGraph) (source : String) :
    (start g source).pending g = (g.successors source).length + g.edgeCount := by
  simp [start, pending, edgesLeft, edgeCount, OrderedMap.values, List.length_flatten,
    Function.comp_def]

/-- A name that is reached takes its edges with it. -/
theorem edgesLeft_cons {entries : List (String × List String)} {reached : List String}
    {name : String} (hkeys : (entries.map Prod.fst).Nodup) (hnew : name ∉ reached) :
    edgesLeft entries reached =
      ((entries.lookup name).getD []).length + edgesLeft entries (name :: reached) := by
  induction entries with
  | nil => rfl
  | cons entry rest ih =>
      obtain ⟨key, targets⟩ := entry
      obtain ⟨hkey, hrest⟩ := List.nodup_cons.1 hkeys
      have ih := ih hrest
      by_cases hname : name = key
      · subst hname
        have hnone : rest.lookup name = none := OrderedMap.lookup_eq_none_of_notMem hkey
        simp [edgesLeft, hnew, hnone] at ih ⊢
        omega
      · rw [List.lookup_cons, beq_false_of_ne hname]
        by_cases hmem : key ∈ reached <;> simp [edgesLeft, hmem, Ne.symm hname] at ih ⊢ <;> omega

/-- Each round uses up one of the rounds that are pending. -/
theorem Round.pending_eq (h : Round g s s') : s.pending g = s'.pending g + 1 := by
  cases h with
  | again htake hold =>
      simp only [pending, htake.length_eq, List.length_cons]
      omega
  | first htake hnew hput =>
      simp only [pending, htake.length_eq, hput.length_eq, List.length_cons, List.length_append,
        edgesLeft_cons g.edges.nodup_keys hnew, successors, OrderedMap.get?]
      omega

/-- No search makes more rounds than are pending. -/
theorem length_le_pending {rounds : List Search} (h : (s :: rounds).IsChain (Round g)) :
    rounds.length ≤ s.pending g := by
  induction rounds generalizing s with
  | nil => exact Nat.zero_le _
  | cons next rest ih =>
      obtain ⟨hround, hrest⟩ := List.isChain_cons_cons.1 h
      have hle := ih hrest
      rw [hround.pending_eq, List.length_cons]
      omega

end Search

/-! ## The search that is made -/

theorem rounds_reach (g : DependencyGraph) (names reached : List String) :
    Relation.ReflTransGen (Search.Round g) ⟨names, reached⟩ ⟨[], g.reach names reached⟩ := by
  fun_induction reach g names reached with
  | case1 reached => exact .refl
  | case2 reached name rest hold ih => exact .head (.again (.refl _) hold) ih
  | case3 reached name rest hnew _ ih => exact .head (.first (.refl _) hnew (.refl _)) ih

/-- The names that are reached from the successors of a name are those to which a path of one or
more edges leads.  The name itself is among them only if it lies on a cycle. -/
theorem mem_reach_successors_iff (g : DependencyGraph) {source name : String} :
    name ∈ g.reach (g.successors source) [] ↔ Relation.TransGen g.Edge source name :=
  ((Search.isFrom_start g source).rounds (rounds_reach g _ _)).mem_reached_iff rfl

theorem nodup_reach (g : DependencyGraph) (names : List String) {reached : List String}
    (h : reached.Nodup) : (g.reach names reached).Nodup := by
  fun_induction reach g names reached with
  | case1 reached => exact h
  | case2 reached name rest hold ih => exact ih h
  | case3 reached name rest hnew _ ih => exact ih (List.nodup_cons.2 ⟨hnew, h⟩)

/-- The transitive dependencies of a node, and of nothing else, can be listed.  They are, in
increasing order, the names different from it to which a path of one or more edges leads.

The search for them ends, whichever name it takes from its worklist in each round.  It makes at most
as many rounds as the node has edges and the graph has edges, and when it cannot go on it has
reached what can be reached. -/
theorem transitiveDependencies_exact (g : DependencyGraph) (node : String) :
    (g.transitiveDependencies node = .error ⟨node⟩ ↔ node ∉ g.nodes.keys) ∧
      ((∃ names, g.transitiveDependencies node = .ok names) ↔ node ∈ g.nodes.keys) ∧
      (∀ names, g.transitiveDependencies node = .ok names →
        names.Pairwise (· < ·) ∧
          ∀ name, name ∈ names ↔ name ≠ node ∧ Relation.TransGen g.Edge node name) ∧
      (∀ rounds, (Search.start g node :: rounds).IsChain (Search.Round g) →
        rounds.length ≤ (g.successors node).length + g.edgeCount) ∧
      ∀ s, Relation.ReflTransGen (Search.Round g) (Search.start g node) s →
        (¬∃ s', Search.Round g s s') →
          ∀ name, name ∈ s.reached ↔ Relation.TransGen g.Edge node name := by
  refine ⟨?_, ?_, ?_, ?_, ?_⟩
  · unfold transitiveDependencies
    split <;> simp [*]
  · unfold transitiveDependencies
    split <;> simp [*]
  · intro names hnames
    unfold transitiveDependencies at hnames
    split at hnames
    · obtain rfl := Except.ok.inj hnames
      have hnodup : (g.reach (g.successors node) []).Nodup := nodup_reach g _ List.nodup_nil
      refine ⟨pairwise_lt_mergeSort id ?_, fun name => ?_⟩
      · rw [List.map_id]
        exact hnodup.filter _
      · rw [List.mem_mergeSort, List.mem_filter, mem_reach_successors_iff, and_comm,
          decide_eq_true_iff]
    · simp at hnames
  · intro rounds hrounds
    rw [← Search.pending_start]
    exact Search.length_le_pending hrounds
  · intro s hs hstuck name
    exact ((Search.isFrom_start g node).rounds hs).mem_reached_iff
      (not_not.1 (mt Search.exists_round_iff.2 hstuck))

/-- The rounds of a search in which the name that was put on the worklist last is taken first. -/
def tangledRounds : List Search :=
  [⟨["app", "util"], ["core"]⟩, ⟨["app", "util"], ["util", "core"]⟩, ⟨["app"], ["util", "core"]⟩,
    ⟨["core"], ["app", "util", "core"]⟩, ⟨[], ["app", "util", "core"]⟩]

/-- The search comes back to the name that it starts from, and makes all rounds that are pending. -/
theorem transitiveDependencies_tangled :
    tangled.transitiveDependencies "app" = .ok ["core", "util"] ∧
      (∀ name, name ∈ ["core", "util"] ↔ name ≠ "app" ∧ Relation.TransGen tangled.Edge "app" name) ∧
      (Search.start tangled "app" :: tangledRounds).IsChain (Search.Round tangled) ∧
      tangledRounds.length ≤ (tangled.successors "app").length + tangled.edgeCount ∧
      ∀ name, name ∈ ["app", "util", "core"] ↔ Relation.TransGen tangled.Edge "app" name := by
  have hnames : tangled.transitiveDependencies "app" = .ok ["core", "util"] := by cbv
  have hfirst : Search.Round tangled (Search.start tangled "app") ⟨["app", "util"], ["core"]⟩ :=
    .first (.refl ["core"]) (by decide) (by decide)
  have hsecond : Search.Round tangled ⟨["app", "util"], ["core"]⟩
      ⟨["app", "util"], ["util", "core"]⟩ :=
    .first (.swap "util" "app" []) (by decide) (by decide)
  have hthird : Search.Round tangled ⟨["app", "util"], ["util", "core"]⟩
      ⟨["app"], ["util", "core"]⟩ :=
    .again (.swap "util" "app" []) (by decide)
  have hfourth : Search.Round tangled ⟨["app"], ["util", "core"]⟩
      ⟨["core"], ["app", "util", "core"]⟩ :=
    .first (.refl ["app"]) (by decide) (by decide)
  have hfifth : Search.Round tangled ⟨["core"], ["app", "util", "core"]⟩
      ⟨[], ["app", "util", "core"]⟩ :=
    .again (.refl ["core"]) (by decide)
  have hrounds : (Search.start tangled "app" :: tangledRounds).IsChain (Search.Round tangled) := by
    simp [tangledRounds, hfirst, hsecond, hthird, hfourth, hfifth]
  have hend : Relation.ReflTransGen (Search.Round tangled) (Search.start tangled "app")
      ⟨[], ["app", "util", "core"]⟩ :=
    .head hfirst (.head hsecond (.head hthird (.head hfourth (.single hfifth))))
  obtain ⟨-, -, hok, hbound, hreached⟩ := transitiveDependencies_exact tangled "app"
  exact ⟨hnames, (hok _ hnames).2, hrounds, hbound _ hrounds,
    hreached _ hend fun hround => Search.exists_round_iff.1 hround rfl⟩

end GradleWorkspace.DependencyGraph
