import GradleWorkspace.DependencyGraph.Traversal
import GradleWorkspace.Proofs.DependencyGraph.Reachability

/-!
# What every depth-first traversal does

There are three groups.

* What is entered.  A traversal enters the names that it leaves and no others, each once.  They
  are those that can be reached from where it starts, and from a fresh start at all nodes they
  are the reachable names.
* The three colours of a name.  At each moment a name that has been entered is on the path, or
  it has been left.  `Coloured` says so, and a step down and back up keeps it.
* The order of leaving.  An edge of a name that is left leads to a name that has been left
  before, unless it closes one of the cycles that were found.
-/

namespace GradleWorkspace.DependencyGraph

/-! ## What is entered -/

namespace Traversal

variable {g : DependencyGraph} {path names entered after left : List String}
  {found : List (List String)}

theorem mem_after_iff (h : Traversal g path names entered after left found) {name : String} :
    name ∈ after ↔ name ∈ entered ∨ name ∈ left := by
  induction h with
  | nil => simp
  | cross _ _ _ ih | back _ _ _ ih => exact ih
  | fresh _ _ _ ihBelow ih =>
      simp only [ih, ihBelow, List.mem_cons, List.mem_append]
      grind

theorem entered_subset (h : Traversal g path names entered after left found) :
    entered ⊆ after := fun _ hname => h.mem_after_iff.2 (Or.inl hname)

theorem names_subset (h : Traversal g path names entered after left found) : names ⊆ after := by
  induction h with
  | nil => exact List.nil_subset _
  | cross hentered _ tail ih | back hentered _ tail ih =>
      exact List.cons_subset.2 ⟨tail.entered_subset hentered, ih⟩
  | fresh _ below tail _ ih =>
      exact List.cons_subset.2
        ⟨tail.entered_subset (below.entered_subset List.mem_cons_self), ih⟩

/-- A traversal leaves each name once, and none that had been entered before it began. -/
theorem nodup_left (h : Traversal g path names entered after left found) :
    left.Nodup ∧ ∀ name ∈ left, name ∉ entered := by
  induction h with
  | nil => simp
  | cross _ _ _ ih | back _ _ _ ih => exact ih
  | @fresh path rest entered between after inner outer _ _ name hnew below tail ihBelow ih =>
      have hname : name ∉ inner := fun hname => ihBelow.2 name hname List.mem_cons_self
      have houter : ∀ other ∈ outer, other ≠ name ∧ other ∉ entered ∧ other ∉ inner := by
        intro other hother
        have hnot := mt below.mem_after_iff.2 (ih.2 other hother)
        simp only [List.mem_cons, not_or] at hnot
        exact ⟨hnot.1.1, hnot.1.2, hnot.2⟩
      constructor
      · refine List.nodup_append.2 ⟨ihBelow.1, List.nodup_cons.2 ⟨?_, ih.1⟩, ?_⟩
        · exact fun hmem => (houter name hmem).1 rfl
        · rintro other hinner _ hmem rfl
          rcases List.mem_cons.1 hmem with rfl | hmem
          · exact hname hinner
          · exact (houter other hmem).2.2 hinner
      · intro other hother
        rcases List.mem_append.1 hother with hinner | hmem
        · exact fun hentered => ihBelow.2 other hinner (List.mem_cons_of_mem _ hentered)
        · rcases List.mem_cons.1 hmem with rfl | hmem
          · exact hnew
          · exact (houter other hmem).2.1

/-- A traversal enters no name a second time. -/
theorem nodup_after (h : Traversal g path names entered after left found)
    (hentered : entered.Nodup) : after.Nodup := by
  induction h with
  | nil => exact hentered
  | cross _ _ _ ih | back _ _ _ ih => exact ih hentered
  | fresh hnew _ _ ihBelow ih => exact ih (ihBelow (List.nodup_cons.2 ⟨hnew, hentered⟩))

/-- All successors of a name that is left have been entered. -/
theorem successors_subset (h : Traversal g path names entered after left found) {name : String}
    (hname : name ∈ left) : g.successors name ⊆ after := by
  induction h with
  | nil => simp at hname
  | cross _ _ _ ih | back _ _ _ ih => exact ih hname
  | fresh _ below tail ihBelow ih =>
      rcases List.mem_append.1 hname with hinner | hmem
      · exact List.Subset.trans (ihBelow hinner) tail.entered_subset
      · rcases List.mem_cons.1 hmem with rfl | hmem
        · exact List.Subset.trans below.names_subset tail.entered_subset
        · exact ih hmem

/-- Each name that is left can be reached from where the traversal starts. -/
theorem exists_reaches (h : Traversal g path names entered after left found) {name : String}
    (hname : name ∈ left) : ∃ start ∈ names, g.Reaches start name := by
  induction h with
  | nil => simp at hname
  | cross _ _ _ ih | back _ _ _ ih =>
      obtain ⟨start, hstart, hreaches⟩ := ih hname
      exact ⟨start, List.mem_cons_of_mem _ hstart, hreaches⟩
  | @fresh _ _ _ _ _ _ _ _ _ top _ _ _ ihBelow ih =>
      rcases List.mem_append.1 hname with hinner | hmem
      · obtain ⟨start, hstart, hreaches⟩ := ihBelow hinner
        exact ⟨top, List.mem_cons_self, .head hstart hreaches⟩
      · rcases List.mem_cons.1 hmem with rfl | hmem
        · exact ⟨name, List.mem_cons_self, .refl⟩
        · obtain ⟨start, hstart, hreaches⟩ := ih hmem
          exact ⟨start, List.mem_cons_of_mem _ hstart, hreaches⟩

/-- A traversal that starts afresh leaves exactly the names that can be reached from where it
starts. -/
theorem mem_left_iff (h : Traversal g [] names [] after left found) {name : String} :
    name ∈ left ↔ ∃ start ∈ names, g.Reaches start name := by
  have hafter : after ⊆ left := fun other hother => by simpa using h.mem_after_iff.1 hother
  have hclosed : ∀ source ∈ left, g.successors source ⊆ left := fun _ hsource =>
    List.Subset.trans (h.successors_subset hsource) hafter
  constructor
  · exact h.exists_reaches
  · rintro ⟨start, hstart, hreaches⟩
    exact hreaches.mem_of_closed hclosed (hafter (h.names_subset hstart))

/-- A traversal from all nodes leaves exactly the reachable names. -/
theorem mem_left_iff_reachable (h : Traversal g [] g.nodes.keys [] after left found)
    {name : String} : name ∈ left ↔ g.Reachable name := h.mem_left_iff

end Traversal

/-! ## The three colours of a name -/

/-- The names that have been entered are those on the path and those that have been `placed`: a
traversal has left them.  All others are fresh. -/
def Coloured (path placed entered : List String) : Prop :=
  ∀ name, name ∈ entered ↔ name ∈ path ∨ name ∈ placed

theorem coloured_nil : Coloured [] [] [] := by simp [Coloured]

/-- A fresh name that is entered comes to the end of the path. -/
theorem Coloured.enter {path placed entered : List String} (h : Coloured path placed entered)
    (name : String) : Coloured (path ++ [name]) placed (name :: entered) := by
  intro other
  rw [List.mem_cons, List.mem_append, List.mem_singleton, h other]
  grind

/-- Once all below a name has been left, the name itself is left and the path is as before. -/
theorem Coloured.leave {g : DependencyGraph} {path names placed entered between inner : List String}
    {found : List (List String)} {name : String} (h : Coloured path placed entered)
    (below : Traversal g (path ++ [name]) names (name :: entered) between inner found) :
    Coloured path (name :: (inner.reverse ++ placed)) between := by
  intro other
  rw [below.mem_after_iff, List.mem_cons, List.mem_cons, List.mem_append, List.mem_reverse,
    h other]
  grind

/-! ## The order of leaving -/

/-- Each name of the list stands after all that it depends on.  The names in `placed` count as
standing before the list, and an excused dependency may stand anywhere. -/
def DependenciesFirst (g : DependencyGraph) (excused : String → String → Prop) :
    List String → List String → Prop
  | _, [] => True
  | placed, name :: rest =>
    (∀ target ∈ g.successors name, target ∈ placed ∨ excused name target) ∧
      DependenciesFirst g excused (name :: placed) rest

theorem dependenciesFirst_append {g : DependencyGraph} {excused : String → String → Prop}
    {placed first second : List String} :
    DependenciesFirst g excused placed (first ++ second) ↔
      DependenciesFirst g excused placed first ∧
        DependenciesFirst g excused (first.reverse ++ placed) second := by
  induction first generalizing placed with
  | nil => simp [DependenciesFirst]
  | cons name rest ih =>
      simp only [List.cons_append, DependenciesFirst, ih, List.reverse_cons, List.append_assoc,
        List.nil_append, and_assoc]

theorem DependenciesFirst.mono {g : DependencyGraph} {excused excused' : String → String → Prop}
    {placed order : List String} (h : DependenciesFirst g excused placed order)
    (himp : ∀ source target, excused source target → excused' source target) :
    DependenciesFirst g excused' placed order := by
  induction order generalizing placed with
  | nil => trivial
  | cons name rest ih =>
      exact ⟨fun target htarget => (h.1 target htarget).imp_right (himp name target), ih h.2⟩

theorem DependenciesFirst.idxOf_lt {g : DependencyGraph} {excused : String → String → Prop}
    {placed order : List String} {source target : String}
    (h : DependenciesFirst g excused placed order) (hsource : source ∈ order)
    (hedge : g.Edge source target) :
    target ∈ placed ∨ excused source target ∨ order.idxOf target < order.idxOf source := by
  induction order generalizing placed with
  | nil => simp at hsource
  | cons name rest ih =>
      by_cases hname : source = name
      · subst hname
        exact (h.1 target hedge).imp_right Or.inl
      · have hrest : source ∈ rest := (List.mem_cons.1 hsource).resolve_left hname
        rw [List.idxOf_cons_ne _ (Ne.symm hname)]
        by_cases htarget : target = name
        · subst htarget
          rw [List.idxOf_cons_self]
          exact Or.inr (Or.inr (Nat.succ_pos _))
        · rw [List.idxOf_cons_ne _ (Ne.symm htarget)]
          rcases ih h.2 hrest with hplaced | hexcused | hlt
          · exact Or.inl ((List.mem_cons.1 hplaced).resolve_left htarget)
          · exact Or.inr (Or.inl hexcused)
          · exact Or.inr (Or.inr (Nat.succ_lt_succ hlt))

/-- An edge closes one of the cycles: it leads from its last name to its first. -/
def Closes (found : List (List String)) (source target : String) : Prop :=
  ∃ cycle ∈ found, cycle.getLast? = some source ∧ cycle.head? = some target

theorem Closes.mono {found found' : List (List String)} (hsub : found ⊆ found')
    {source target : String} (h : Closes found source target) : Closes found' source target := by
  obtain ⟨cycle, hcycle, hends⟩ := h
  exact ⟨cycle, hsub hcycle, hends⟩

namespace Traversal

variable {g : DependencyGraph} {path names entered after left placed : List String}
  {found : List (List String)}

/-- An edge that a traversal follows from the end of its path leads to a name that has been left
before or is left now, unless it closes a cycle. -/
theorem placed_or_left_or_closes (h : Traversal g path names entered after left found)
    {source target : String} (hcolour : Coloured path placed entered)
    (hsource : path.getLast? = some source) (htarget : target ∈ names) :
    target ∈ placed ∨ target ∈ left ∨ Closes found source target := by
  induction h generalizing placed with
  | nil => simp at htarget
  | cross hentered hpath _ ih =>
      rcases List.mem_cons.1 htarget with rfl | hrest
      · exact Or.inl (((hcolour target).1 hentered).resolve_left hpath)
      · exact ih hcolour hsource hrest
  | @back path rest _ _ _ before loop found name _ hpath _ ih =>
      rcases List.mem_cons.1 htarget with rfl | hrest
      · have hlast : (target :: loop).getLast? = some source := by
          rw [← hsource, hpath, List.getLast?_append_cons]
        exact Or.inr (Or.inr ⟨target :: loop, List.mem_cons_self, hlast, rfl⟩)
      · exact (ih hcolour hsource hrest).imp_right
          (Or.imp_right (Closes.mono (List.subset_cons_self _ _)))
  | @fresh _ rest _ _ _ inner outer foundBelow foundAfter name _ below _ _ ih =>
      rcases List.mem_cons.1 htarget with rfl | hrest
      · exact Or.inr (Or.inl (by simp))
      · rcases ih (hcolour.leave below) hsource hrest with hplaced | houter | hcloses
        · simp only [List.mem_cons, List.mem_append, List.mem_reverse] at hplaced ⊢
          grind
        · exact Or.inr (Or.inl (by simp [houter]))
        · exact Or.inr (Or.inr (hcloses.mono (List.subset_append_right _ _)))

/-- A traversal leaves each name after all that it depends on, but for the edges that close a
cycle. -/
theorem dependenciesFirst (h : Traversal g path names entered after left found)
    (hcolour : Coloured path placed entered) :
    DependenciesFirst g (Closes found) placed left := by
  induction h generalizing placed with
  | nil => trivial
  | cross _ _ _ ih => exact ih hcolour
  | back _ _ _ ih =>
      exact (ih hcolour).mono fun _ _ => Closes.mono (List.subset_cons_self _ _)
  | @fresh path rest _ _ _ inner outer foundBelow foundAfter name _ below _ ihBelow ih =>
      have hbelow : ∀ source target, Closes foundBelow source target →
          Closes (foundBelow ++ foundAfter) source target :=
        fun _ _ => Closes.mono (List.subset_append_left _ _)
      have hafter : ∀ source target, Closes foundAfter source target →
          Closes (foundBelow ++ foundAfter) source target :=
        fun _ _ => Closes.mono (List.subset_append_right _ _)
      refine dependenciesFirst_append.2 ⟨(ihBelow (hcolour.enter name)).mono hbelow, ?_,
        (ih (hcolour.leave below)).mono hafter⟩
      intro target htarget
      rcases below.placed_or_left_or_closes (hcolour.enter name) List.getLast?_concat htarget with
        hplaced | hinner | hcloses
      · exact Or.inl (List.mem_append_right _ hplaced)
      · exact Or.inl (List.mem_append_left _ (List.mem_reverse.2 hinner))
      · exact Or.inr (hbelow _ _ hcloses)

end Traversal

end GradleWorkspace.DependencyGraph
