import GradleWorkspace.Proofs.DependencyGraph.Cycles

/-!
# One cycle for each closing edge

The walk that looks for cycles goes on from each name once, and the path is the same all the while.
So an edge closes one cycle only, and this cycle is found once for each time that the edge is
listed.

There are two groups.

* Where a cycle is found.  `Traversal.mem_left_or_suffix` says that a cycle is found below the name
  that it ends with, and `Traversal.count_of_mem_left` counts how often.
* The names of a cycle.  A walk leaves the names of a path in the opposite order
  (`Traversal.reverse_sublist`), so that a cycle is given by the set of its names.
-/

namespace GradleWorkspace.DependencyGraph

/-! ## Where a cycle is found -/

theorem eq_of_suffix_concat {names path : List String} {last name : String}
    (h : names <:+ path ++ [name]) (hlast : names.getLast? = some last) : last = name := by
  obtain ⟨before, heq⟩ := h
  have hends : (before ++ names).getLast? = (path ++ [name]).getLast? := by rw [heq]
  simpa [hlast] using hends

/-- Two ends of a path without repeated names are the same if they begin with the same name. -/
theorem eq_of_suffix_of_head? {path names others : List String} {first : String}
    (hnodup : path.Nodup) (h : names <:+ path) (h' : others <:+ path)
    (hfirst : names.head? = some first) (hfirst' : others.head? = some first) :
    names = others := by
  obtain ⟨rest, rfl⟩ := List.head?_eq_some_iff.1 hfirst
  obtain ⟨rest', rfl⟩ := List.head?_eq_some_iff.1 hfirst'
  have hnodup' : (first :: rest).Nodup ∧ (first :: rest').Nodup :=
    ⟨hnodup.sublist h.sublist, hnodup.sublist h'.sublist⟩
  rcases List.suffix_or_suffix_of_suffix h h' with hsuffix | hsuffix
  · exact @List.Nodup.eq_of_head_mem_of_suffix _ _ _ hsuffix (List.cons_ne_nil _ _)
      List.mem_cons_self hnodup'.2
  · exact (@List.Nodup.eq_of_head_mem_of_suffix _ _ _ hsuffix (List.cons_ne_nil _ _)
      List.mem_cons_self hnodup'.1).symm

namespace Traversal

variable {g : DependencyGraph} {path names entered after left cycle : List String}
  {found : List (List String)} {first last : String}

/-- A cycle that is found ends with a name that is left, or it is an end of the path. -/
theorem mem_left_or_suffix (h : Traversal g path names entered after left found)
    (hcycle : cycle ∈ found) (hlast : cycle.getLast? = some last) :
    last ∈ left ∨ cycle <:+ path := by
  induction h with
  | nil => simp at hcycle
  | cross _ _ _ ih => exact ih hcycle
  | back _ hsplit _ ih =>
      rcases List.mem_cons.1 hcycle with rfl | hrest
      · exact Or.inr ⟨_, hsplit.symm⟩
      · exact ih hrest
  | fresh _ _ _ ihBelow ih =>
      rcases List.mem_append.1 hcycle with hbelow | hafter
      · rcases ihBelow hbelow with hinner | hsuffix
        · exact Or.inl (List.mem_append_left _ hinner)
        · obtain rfl := eq_of_suffix_concat hsuffix hlast
          exact Or.inl (by simp)
      · exact (ih hafter).imp_left fun houter =>
          List.mem_append_right _ (List.mem_cons_of_mem _ houter)

theorem count_eq_zero (h : Traversal g path names entered after left found)
    (hlast : cycle.getLast? = some last) (hleft : last ∉ left) (hpath : ¬cycle <:+ path) :
    found.count cycle = 0 :=
  List.count_eq_zero.2 fun hcycle => (h.mem_left_or_suffix hcycle hlast).elim hleft hpath

/-- A cycle that is an end of the path is found once for each time that the traversal comes to its
first name. -/
theorem count_of_suffix (h : Traversal g path names entered after left found)
    (hpath : IsPath g path names entered) (hsuffix : cycle <:+ path)
    (hfirst : cycle.head? = some first) (hlast : cycle.getLast? = some last) :
    found.count cycle = names.count first := by
  have hmem : first ∈ path := hsuffix.subset (List.mem_of_mem_head? hfirst)
  induction h with
  | nil => simp
  | cross _ hoff _ ih =>
      have hne := ne_of_mem_of_not_mem hmem hoff
      rw [List.count_cons_of_ne hne.symm, ih (hpath.tail (List.Subset.refl _)) hsuffix hmem]
  | @back path _ _ _ _ _ loop _ name _ hsplit _ ih =>
      have hrest := ih (hpath.tail (List.Subset.refl _)) hsuffix hmem
      by_cases hname : name = first
      · subst hname
        obtain rfl := eq_of_suffix_of_head? hpath.nodup hsuffix ⟨_, hsplit.symm⟩ hfirst rfl
        rw [List.count_cons_self, List.count_cons_self, hrest]
      · have hne : name :: loop ≠ cycle := by
          rintro rfl
          exact hname (Option.some.inj hfirst)
        rw [List.count_cons_of_ne hne, List.count_cons_of_ne hname, hrest]
  | @fresh _ _ entered between _ inner _ foundBelow _ name hnew below _ _ ih =>
      have hgrow : entered ⊆ between :=
        List.Subset.trans (List.subset_cons_self _ _) below.entered_subset
      have hentered : last ∈ entered :=
        hpath.entered_of_mem (hsuffix.subset (List.mem_of_getLast? hlast))
      -- What is found below the new name ends with it or with a name that is entered after it.
      have hbelow : foundBelow.count cycle = 0 := by
        refine below.count_eq_zero hlast (fun hinner => ?_) fun hsuffix' => ?_
        · exact below.nodup_left.2 last hinner (List.mem_cons_of_mem _ hentered)
        · exact hnew (eq_of_suffix_concat hsuffix' hlast ▸ hentered)
      have hne := ne_of_mem_of_not_mem (hpath.entered_of_mem hmem) hnew
      rw [List.count_append, hbelow, Nat.zero_add, List.count_cons_of_ne hne.symm,
        ih (hpath.tail hgrow) hsuffix hmem]

/-- Any other cycle is found below its last name, once for each edge from there to its first
name. -/
theorem count_of_mem_left (h : Traversal g path names entered after left found)
    (hpath : IsPath g path names entered) (hcycle : cycle ∈ found)
    (hfirst : cycle.head? = some first) (hlast : cycle.getLast? = some last)
    (hleft : last ∈ left) : found.count cycle = (g.successors last).count first := by
  induction h with
  | nil => simp at hcycle
  | cross _ _ _ ih => exact ih (hpath.tail (List.Subset.refl _)) hcycle hleft
  | @back path _ _ _ _ _ loop _ name _ hsplit tail ih =>
      -- The cycle that is closed here ends with the last name of the path, which is not left yet.
      have hne : name :: loop ≠ cycle := by
        rintro rfl
        have hsuffix : name :: loop <:+ path := ⟨_, hsplit.symm⟩
        have hmem := hsuffix.subset (List.mem_of_getLast? hlast)
        exact tail.nodup_left.2 last hleft (hpath.entered_of_mem hmem)
      have hrest := (List.mem_cons.1 hcycle).resolve_left hne.symm
      rw [List.count_cons_of_ne hne, ih (hpath.tail (List.Subset.refl _)) hrest hleft]
  | @fresh path _ entered between _ inner outer foundBelow foundAfter name hnew below tail ihBelow
      ih =>
      have hgrow : entered ⊆ between :=
        List.Subset.trans (List.subset_cons_self _ _) below.entered_subset
      rw [List.count_append]
      by_cases houter : last ∈ outer
      · have hbetween : last ∉ between := tail.nodup_left.2 last houter
        have hbelow : foundBelow.count cycle = 0 := by
          refine below.count_eq_zero hlast (fun hinner => ?_) fun hsuffix => ?_
          · exact hbetween (below.mem_after_iff.2 (Or.inr hinner))
          · rw [eq_of_suffix_concat hsuffix hlast] at hbetween
            exact hbetween (below.entered_subset List.mem_cons_self)
        have hafter := (List.mem_append.1 hcycle).resolve_left (List.count_eq_zero.1 hbelow)
        rw [hbelow, Nat.zero_add, ih (hpath.tail hgrow) hafter houter]
      · have hentered : last ∉ entered :=
          (Traversal.fresh hnew below tail).nodup_left.2 last hleft
        have hafter : foundAfter.count cycle = 0 :=
          tail.count_eq_zero hlast houter fun hsuffix =>
            hentered (hpath.entered_of_mem (hsuffix.subset (List.mem_of_getLast? hlast)))
        have hbelow := (List.mem_append.1 hcycle).resolve_right (List.count_eq_zero.1 hafter)
        rw [hafter, Nat.add_zero]
        rcases below.mem_left_or_suffix hbelow hlast with hinner | hsuffix
        · exact ihBelow (hpath.enter hnew) hbelow hinner
        · rw [eq_of_suffix_concat hsuffix hlast]
          exact below.count_of_suffix (hpath.enter hnew) hsuffix hfirst hlast

/-! ## The names of a cycle -/

/-- A traversal leaves the names of a cycle that it finds in the opposite order, and then, going up,
those on its path. -/
theorem reverse_sublist (h : Traversal g path names entered after left found)
    (hcycle : cycle ∈ found) : cycle.reverse.Sublist (left ++ path.reverse) := by
  induction h with
  | nil => simp at hcycle
  | cross _ _ _ ih => exact ih hcycle
  | @back path _ _ _ left before loop _ name _ hsplit _ ih =>
      rcases List.mem_cons.1 hcycle with rfl | hrest
      · rw [hsplit, List.reverse_append]
        exact (List.sublist_append_left _ _).trans (List.sublist_append_right _ _)
      · exact ih hrest
  | @fresh path _ _ _ _ inner outer _ _ name _ _ _ ihBelow ih =>
      rw [List.append_assoc]
      rcases List.mem_append.1 hcycle with hbelow | hafter
      · have hsub := ihBelow hbelow
        rw [List.reverse_append] at hsub
        refine hsub.trans ((List.Sublist.refl inner).append ?_)
        exact List.Sublist.cons_cons name (List.sublist_append_right _ _)
      · exact (ih hafter).trans ((List.sublist_cons_self name _).trans
          (List.sublist_append_right _ _))

end Traversal

/-- Each reported cycle is listed once for each edge from its last name to its first, and no other
reported cycle has the same names. -/
theorem cycles_once_per_closing_edge (g : DependencyGraph) :
    (∀ cycle ∈ g.cycles, ∃ first last, cycle.head? = some first ∧ cycle.getLast? = some last ∧
        g.cycles.count cycle = (g.successors last).count first) ∧
      ∀ cycle ∈ g.cycles, ∀ other ∈ g.cycles, (∀ name, name ∈ cycle ↔ name ∈ other) →
        cycle = other := by
  obtain ⟨after, order, -, htrace⟩ := exists_traversal_cycles g
  constructor
  · intro cycle hcycle
    obtain ⟨hreal, -, -⟩ := isCycle_of_mem_cycles hcycle
    have hfirst := List.head?_eq_some_head hreal.ne_nil
    have hlast := List.getLast?_eq_some_getLast hreal.ne_nil
    refine ⟨_, _, hfirst, hlast, ?_⟩
    have hleft : cycle.getLast hreal.ne_nil ∈ order :=
      (htrace.mem_left_or_suffix hcycle hlast).resolve_right fun hsuffix =>
        hreal.ne_nil (List.suffix_nil.1 hsuffix)
    exact htrace.count_of_mem_left (isPath_nil g _ _) hcycle hfirst hlast hleft
  · intro cycle hcycle other hother hsame
    have hsub : ∀ found ∈ g.cycles, found.reverse.Sublist order := fun found hfound => by
      simpa using htrace.reverse_sublist hfound
    have hperm : cycle.Perm other := (List.perm_ext_iff_of_nodup
      (isCycle_of_mem_cycles hcycle).2.1 (isCycle_of_mem_cycles hother).2.1).2 hsame
    have hreverse : cycle.reverse.Perm other.reverse :=
      (List.reverse_perm cycle).trans (hperm.trans (List.reverse_perm other).symm)
    exact List.reverse_injective ((htrace.nodup_left.1.perm_iff_eq_of_sublist
      (hsub cycle hcycle) (hsub other hother)).1 hreverse)

/-- Two modules that depend on each other, one of them twice, and a third that depends on the first
and on itself. -/
def doubled : DependencyGraph :=
  ofEdges (.ofList [("app", ["core", "core"]), ("core", ["app", "app", "util"]),
    ("util", ["app", "util"])])

theorem cycles_doubled :
    doubled.cycles = [["app", "core"], ["app", "core"], ["app", "core", "util"], ["util"]] ∧
      doubled.cycles.count ["app", "core"] = (doubled.successors "core").count "app" ∧
      ∀ other ∈ doubled.cycles, (∀ name, name ∈ ["app", "core"] ↔ name ∈ other) →
        ["app", "core"] = other := by
  have hcycles : doubled.cycles =
      [["app", "core"], ["app", "core"], ["app", "core", "util"], ["util"]] := by cbv
  have hmem : ["app", "core"] ∈ doubled.cycles := hcycles ▸ List.mem_cons_self
  obtain ⟨hcount, hsame⟩ := cycles_once_per_closing_edge doubled
  obtain ⟨first, last, hfirst, hlast, heq⟩ := hcount _ hmem
  obtain rfl : "app" = first := Option.some.inj hfirst
  obtain rfl : "core" = last := Option.some.inj hlast
  exact ⟨hcycles, heq, hsame _ hmem⟩

end GradleWorkspace.DependencyGraph
