import GradleWorkspace.Proofs.Script.Opening

/-!
# How deep a place stands in braces

The depth of a place is the number of braces that are open there, as `topLevel` counts them.  A
closing brace without an opening one leaves the depth at zero; such a brace is stray.

`findBlock` does not look at the depth.  It compares the numbers of opening and closing braces, so
that a stray brace makes up for an opening one that comes later.

* `braceDepth_add_count` ties depths, stray braces and the numbers of braces together.
* `findBlock_outermost_iff` says when the block that is found is the first one outside all braces,
  and `nested_block_wins` is a script where it is not.
-/

namespace GradleWorkspace.Script

/-! ## Depths and stray braces -/

/-- How many braces are open after one more character. -/
def nest (depth : Nat) (c : Char) : Nat :=
  if c = '{' then depth + 1 else if c = '}' then depth - 1 else depth

/-- How many braces are open after a masked text. -/
def braceDepth (masked : List Char) : Nat := masked.foldl nest 0

/-- How many closing braces of a masked text have no opening one, if some braces are open before
the text. -/
def strayBracesFrom : Nat → List Char → Nat
  | _, [] => 0
  | depth, c :: rest =>
    strayBracesFrom (nest depth c) rest + if c = '}' ∧ depth = 0 then 1 else 0

/-- How many closing braces of a masked text have no opening one. -/
def strayBraces (masked : List Char) : Nat := strayBracesFrom 0 masked

/-- Each brace that was opened is closed or still open, and each brace that was closed was opened
or is stray. -/
theorem foldl_nest_add_count (depth : Nat) (masked : List Char) :
    masked.foldl nest depth + masked.count '}' =
      depth + masked.count '{' + strayBracesFrom depth masked := by
  induction masked generalizing depth with
  | nil => simp [strayBracesFrom]
  | cons c rest ih =>
      have hrest := ih (nest depth c)
      rw [List.foldl_cons, strayBracesFrom, List.count_cons, List.count_cons]
      by_cases hopen : c = '{'
      · subst hopen
        simp [nest] at hrest ⊢
        omega
      · by_cases hclose : c = '}'
        · subst hclose
          simp [nest] at hrest ⊢
          split <;> omega
        · simp [nest, hopen, hclose] at hrest ⊢
          omega

theorem braceDepth_add_count (masked : List Char) :
    braceDepth masked + masked.count '}' = masked.count '{' + strayBraces masked := by
  have h := foldl_nest_add_count 0 masked
  rwa [Nat.zero_add] at h

/-- At least as many braces are closed as opened if the stray ones make up for those that are still
open. -/
theorem closesBraces_iff (masked : List Char) :
    closesBraces masked = true ↔ braceDepth masked ≤ strayBraces masked := by
  have h := braceDepth_add_count masked
  rw [closesBraces, decide_eq_true_iff]
  omega

theorem strayBracesFrom_append (depth : Nat) (first second : List Char) :
    strayBracesFrom depth (first ++ second) =
      strayBracesFrom depth first + strayBracesFrom (first.foldl nest depth) second := by
  induction first generalizing depth with
  | nil => simp [strayBracesFrom]
  | cons c first ih =>
      rw [List.cons_append, strayBracesFrom, strayBracesFrom, ih, List.foldl_cons]
      omega

/-- Stray braces do not get fewer. -/
theorem strayBraces_take_le {place place' : Nat} (h : place ≤ place') (masked : List Char) :
    strayBraces (masked.take place) ≤ strayBraces (masked.take place') := by
  obtain ⟨length, rfl⟩ := Nat.exists_eq_add_of_le h
  rw [List.take_add, strayBraces, strayBraces, strayBracesFrom_append]
  exact Nat.le_add_right _ _

/-! ## The outermost block -/

section Outermost

variable {keyword : String} {masked : List Char} {place : Nat}

/-- The places outside all braces where a block with a keyword is opened. -/
def outerPlaces (keyword : String) (masked : List Char) : Set Nat :=
  openingPlaces keyword masked ∩ {place | braceDepth (masked.take place) = 0}

/-- Outside all braces, all braces are closed. -/
theorem mem_closedPlaces_of_braceDepth (h : braceDepth (masked.take place) = 0) :
    place ∈ closedPlaces masked :=
  mem_closedPlaces_iff.2 ((closesBraces_iff _).2 (by omega))

theorem IsChosen.eq {place' : Nat} (h : IsChosen keyword masked place)
    (h' : IsChosen keyword masked place') : place = place' := by
  rcases h with h | ⟨hnone, h⟩ <;> rcases h' with h' | ⟨hnone', h'⟩
  · exact h.unique h'
  · exact absurd h.1 (by simp [hnone'])
  · exact absurd h'.1 (by simp [hnone])
  · exact h.unique h'

/-- The first place outside all braces is chosen, unless stray braces make up for the braces that
are open at an earlier place. -/
theorem isChosen_iff_of_isLeast_outerPlaces (h : IsLeast (outerPlaces keyword masked) place) :
    IsChosen keyword masked place ↔ ∀ other ∈ openingPlaces keyword masked, other < place →
      strayBraces (masked.take other) < braceDepth (masked.take other) := by
  have hclosed : place ∈ openingPlaces keyword masked ∩ closedPlaces masked :=
    ⟨h.1.1, mem_closedPlaces_of_braceDepth h.1.2⟩
  have hopen : ∀ other, strayBraces (masked.take other) < braceDepth (masked.take other) ↔
      other ∉ closedPlaces masked := by
    intro other
    rw [mem_closedPlaces_iff, closesBraces_iff, Nat.not_le]
  constructor
  · rintro (hleast | ⟨hnone, -⟩) other hother hlt
    · refine (hopen other).2 fun hmem => ?_
      exact absurd (hleast.2 ⟨hother, hmem⟩) (Nat.not_le_of_lt hlt)
    · exact absurd hclosed (by simp [hnone])
  · intro hbefore
    refine .inl ⟨hclosed, fun other hother => ?_⟩
    by_contra hlt
    exact (hopen other).1 (hbefore other hother.1 (by omega)) hother.2

/-- The first place outside all braces is the first of those that are found. -/
theorem isLeast_outerPlaces_of_find? (hkeyword : IsWord keyword.toList) {opening : Located Unit}
    (h : (find isNameBorder (readOpening keyword) masked).find? (fun opening =>
      braceDepth (masked.take opening.start) = 0) = some opening) :
    IsLeast (outerPlaces keyword masked) opening.start ∧
      OpensBlock keyword masked opening.start opening.stop := by
  have hopens := (opensBlock_iff_mem_find hkeyword).2 (List.mem_of_find?_eq_some h)
  have hdepth : braceDepth (masked.take opening.start) = 0 := by simpa using List.find?_some h
  refine ⟨⟨⟨⟨_, hopens⟩, hdepth⟩, ?_⟩, hopens⟩
  rintro place ⟨⟨start, hstart⟩, hplace⟩
  exact start_le_of_find? (pairwise_start_findFrom 0 0 none masked) h _
    ((opensBlock_iff_mem_find hkeyword).1 hstart) (decide_eq_true hplace)

end Outermost

/-- If blocks are opened outside all braces, the first of them is found if and only if at each
opening before it more braces are open than stray braces have been met.  So it is found if no stray
brace stands before it. -/
theorem findBlock_outermost_iff {keyword : String} (hkeyword : IsWord keyword.toList)
    {script : List Char} {place start : Nat}
    (hplace : IsLeast (outerPlaces keyword (mask script)) place)
    (hopens : OpensBlock keyword (mask script) place start) :
    ((∃ stop, findBlock keyword script = some (start, stop)) ↔
      ∀ other ∈ openingPlaces keyword (mask script), other < place →
        strayBraces ((mask script).take other) < braceDepth ((mask script).take other)) ∧
    (strayBraces ((mask script).take place) = 0 →
      ∃ stop, findBlock keyword script = some (start, stop)) := by
  have hiff : (∃ stop, findBlock keyword script = some (start, stop)) ↔
      IsChosen keyword (mask script) place := by
    constructor
    · rintro ⟨stop, hfind⟩
      obtain ⟨place', hchosen, hopens', -⟩ := exists_isChosen_of_findBlock hkeyword hfind
      rwa [Nat.le_antisymm (hopens'.place_le hkeyword hopens)
        (hopens.place_le hkeyword hopens')]
    · intro hchosen
      have hfound : findBlock keyword script ≠ none := by
        rw [ne_eq, findBlock_eq_none_iff hkeyword]
        exact Set.nonempty_iff_ne_empty.1 ⟨place, hplace.1.1⟩
      obtain ⟨⟨start', stop⟩, hfind⟩ := Option.ne_none_iff_exists'.1 hfound
      obtain ⟨place', hchosen', hopens', -⟩ := exists_isChosen_of_findBlock hkeyword hfind
      obtain rfl := hchosen.eq hchosen'
      obtain rfl := hopens.start_eq hopens'
      exact ⟨stop, hfind⟩
  rw [hiff, isChosen_iff_of_isLeast_outerPlaces hplace]
  refine ⟨Iff.rfl, fun hstray other hother hlt => ?_⟩
  have hnone := strayBraces_take_le (Nat.le_of_lt hlt) (mask script)
  have hinside : braceDepth ((mask script).take other) ≠ 0 := fun hdepth =>
    absurd (hplace.2 ⟨hother, hdepth⟩) (Nat.not_le_of_lt hlt)
  omega

/-- A block inside another one, and a block outside. -/
def nestedFirst : List Char :=
  ["a \x7b b \x7b x \x7d \x7d\n", "b \x7b y \x7d \x7d"].flatMap String.toList

theorem findBlock_outermost_nestedFirst :
    IsWord "b".toList ∧ IsLeast (outerPlaces "b" (mask nestedFirst)) 14 ∧
      OpensBlock "b" (mask nestedFirst) 14 17 ∧ strayBraces ((mask nestedFirst).take 14) = 0 ∧
      ∃ stop, findBlock "b" nestedFirst = some (17, stop) := by
  have hkeyword : IsWord "b".toList := ⟨by decide, by decide⟩
  obtain ⟨hplace, hopens⟩ := @isLeast_outerPlaces_of_find? "b" (mask nestedFirst) hkeyword
    ⟨14, 17, ()⟩ (by decide +kernel)
  have hstray : strayBraces ((mask nestedFirst).take 14) = 0 := by decide +kernel
  exact ⟨hkeyword, hplace, hopens, hstray,
    (findBlock_outermost_iff hkeyword hplace hopens).2 hstray⟩

/-- A regular expression that holds a closing brace, before two blocks. -/
def braceBetweenSlashes : List Char :=
  ["def end = /\x7d/\n", "allprojects \x7b dependencies \x7b api 'a:b:1' \x7d \x7d\n",
    "dependencies \x7b api 'c:d:2' \x7d\n"].flatMap String.toList

/-- After a stray brace, a block inside another one can be found in place of the first one outside
all braces. -/
theorem nested_block_wins :
    (IsLeast (outerPlaces "dependencies" (mask braceBetweenSlashes)) 59 ∧
      OpensBlock "dependencies" (mask braceBetweenSlashes) 59 73) ∧
    (OpensBlock "dependencies" (mask braceBetweenSlashes) 28 42 ∧
      braceDepth ((mask braceBetweenSlashes).take 28) = 1) ∧
    findBlock "dependencies" braceBetweenSlashes = some (42, 55) := by
  have hkeyword : IsWord "dependencies".toList := ⟨by decide, by decide⟩
  refine ⟨@isLeast_outerPlaces_of_find? "dependencies" (mask braceBetweenSlashes) hkeyword
    ⟨59, 73, ()⟩ (by decide +kernel), ⟨(opensBlock_iff_mem_find hkeyword).2 ?_, ?_⟩, ?_⟩ <;>
    decide +kernel

end GradleWorkspace.Script
