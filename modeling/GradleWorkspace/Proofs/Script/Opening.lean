import Mathlib.Order.Bounds.Basic
import GradleWorkspace.Proofs.Script.Brace

/-!
# Which block is found, and where its body ends

A block is opened where its keyword stands as a word of its own and only blanks stand between the
keyword and a brace.  This file says which of these places `findBlock` chooses, and up to which
brace the body goes, both by counting braces in the masked script.

* `OpensBlock` are the places where a block is opened.  `opensBlock_iff_mem_find` says that all of
  them are found.
* `IsChosen` is the place that is chosen among them, and `IsBodyEnd` the end of the body.
* `exists_cut_of_findBlock` cuts a script before and after the body that is found.
* `findBlock_chooses_balanced` puts both together.
-/

namespace GradleWorkspace.Script

open Text

/-! ## Openings of blocks -/

section Openings

variable {keyword : String} {masked : List Char}

/-- At a place of a masked text a block with a keyword is opened, and its body starts after the
brace. -/
def OpensBlock (keyword : String) (masked : List Char) (place start : Nat) : Prop :=
  ∃ front blanks rest, masked = front ++ (keyword.toList ++ (blanks ++ '{' :: rest)) ∧
    isNameBorder front.getLast? = true ∧ (∀ c ∈ blanks, isBlank c = true) ∧
    place = front.length ∧ start = place + (keyword.toList.length + blanks.length + 1)

/-- Inside of a word and the blanks and the brace after it, the word does not stand again. -/
theorem neverInside_readOpening (hkeyword : IsWord keyword.toList) :
    NeverInside isNameBorder (readOpening keyword) := by
  intro front place value rest hread hne hinside hborder
  obtain ⟨blanks, hblanks, htext⟩ := readOpening_eq_some_iff.1 hread
  rcases List.append_eq_append_iff.1 htext with ⟨tail, hword, -⟩ | ⟨tail, rfl, htail⟩
  · -- The place stands inside the word, after one of its characters.
    obtain ⟨c, hc⟩ := Option.isSome_iff_exists.1 (List.getLast?_isSome.2 hne)
    have hmem : c ∈ keyword.toList := hword ▸ List.mem_append_left tail (List.mem_of_getLast? hc)
    rw [hc, isNameBorder, hkeyword.2 c hmem] at hborder
    simp at hborder
  · -- The place stands after the word and begins with a blank or with the brace.
    have hfirst : ∀ c ∈ place.head?, isWordChar c = false := by
      intro c hc
      obtain ⟨more, rfl⟩ := List.head?_eq_some_iff.1 hc
      rcases append_eq_append_cons_cases htail with ⟨middle, rfl, hbrace⟩ | ⟨others, rfl, -⟩
      · cases middle with
        | nil =>
            obtain ⟨rfl, -⟩ := List.cons.inj hbrace
            decide
        | cons d middle =>
            obtain ⟨rfl, rfl⟩ := List.cons.inj hbrace
            simp at hinside
            omega
      · exact isWordChar_eq_false_of_isBlank (hblanks c (by simp))
    cases hagain : readOpening keyword place with
    | none => rfl
    | some found =>
        obtain ⟨more, -, hplace⟩ := readOpening_eq_some_iff.1 hagain
        obtain ⟨c, word, hword⟩ := List.exists_cons_of_ne_nil hkeyword.1
        have hnot := hfirst c (by rw [hplace, hword]; rfl)
        simp [hkeyword.2 c (by simp [hword])] at hnot

/-- All places where a block is opened are found. -/
theorem opensBlock_iff_mem_find (hkeyword : IsWord keyword.toList) {place start : Nat} :
    OpensBlock keyword masked place start ↔
      ⟨place, start, ()⟩ ∈ find isNameBorder (readOpening keyword) masked := by
  constructor
  · rintro ⟨front, blanks, rest, rfl, hborder, hblanks, rfl, rfl⟩
    have hread : readOpening keyword (keyword.toList ++ (blanks ++ '{' :: rest)) =
        some ((), rest) := readOpening_eq_some_iff.2 ⟨blanks, hblanks, rfl⟩
    have hmem := mem_find_of_read (neverInside_readOpening hkeyword) hborder
      (by simp [hkeyword.1]) hread
    have hlength : (keyword.toList ++ (blanks ++ '{' :: rest)).length - rest.length =
        keyword.toList.length + blanks.length + 1 := by
      simp only [List.length_append, List.length_cons]
      omega
    rwa [hlength] at hmem
  · intro hmem
    obtain ⟨front, text, rest, rfl, hstart, hstop, hborder, hread⟩ :=
      exists_read_of_mem_findFrom hmem
    obtain ⟨blanks, hblanks, rfl⟩ := readOpening_eq_some_iff.1 hread
    refine ⟨front, blanks, rest, rfl, by simpa using hborder, hblanks, by simpa using hstart, ?_⟩
    simp only [List.length_append, List.length_cons] at hstop ⊢
    omega

/-- A block that is opened at a place starts at one brace only. -/
theorem OpensBlock.start_eq {place start start' : Nat} (h : OpensBlock keyword masked place start)
    (h' : OpensBlock keyword masked place start') : start = start' := by
  have hread : ∀ {start}, OpensBlock keyword masked place start → ∃ rest,
      readOpening keyword (masked.drop place) = some ((), rest) ∧
        start = masked.length - rest.length := by
    rintro _ ⟨front, blanks, rest, rfl, -, hblanks, rfl, rfl⟩
    refine ⟨rest, ?_, ?_⟩
    · rw [List.drop_left]
      exact readOpening_eq_some_iff.2 ⟨blanks, hblanks, rfl⟩
    · simp only [List.length_append, List.length_cons]
      omega
  obtain ⟨rest, hrest, rfl⟩ := hread h
  obtain ⟨rest', hrest', rfl⟩ := hread h'
  obtain ⟨-, rfl⟩ := Prod.mk.inj (Option.some.inj (hrest.symm.trans hrest'))
  rfl

/-- Two blocks that start at one brace are one block. -/
theorem OpensBlock.place_le (hkeyword : IsWord keyword.toList) {place place' start : Nat}
    (h : OpensBlock keyword masked place start) (h' : OpensBlock keyword masked place' start) :
    place' ≤ place := by
  by_contra hbefore
  obtain ⟨front, blanks, rest, rfl, -, hblanks, rfl, rfl⟩ := h
  obtain ⟨front', blanks', rest', heq, hborder, hblanks', rfl, hstart⟩ := h'
  rcases List.append_eq_append_iff.1 heq with ⟨middle, rfl, hmiddle⟩ | ⟨middle, rfl, -⟩
  · have hne : middle ≠ [] := by
      rintro rfl
      simp at hbefore
    have hread : readOpening keyword
        (middle ++ (keyword.toList ++ (blanks' ++ '{' :: rest'))) = some ((), rest) := by
      rw [← hmiddle]
      exact readOpening_eq_some_iff.2 ⟨blanks, hblanks, rfl⟩
    have hagain : readOpening keyword (keyword.toList ++ (blanks' ++ '{' :: rest')) =
        some ((), rest') := readOpening_eq_some_iff.2 ⟨blanks', hblanks', rfl⟩
    have hinside : rest.length < (keyword.toList ++ (blanks' ++ '{' :: rest')).length := by
      have hlength := congrArg List.length hmiddle
      simp only [List.length_append, List.length_cons] at hlength hstart ⊢
      omega
    rw [List.getLast?_append_of_ne_nil _ hne] at hborder
    simp [neverInside_readOpening hkeyword _ _ _ _ hread hne hinside hborder] at hagain
  · rw [List.length_append] at hbefore
    omega

end Openings

/-! ## The opening that is chosen -/

section Choice

variable {keyword : String} {masked : List Char}

/-- The places where a block with a keyword is opened. -/
def openingPlaces (keyword : String) (masked : List Char) : Set Nat :=
  {place | ∃ start, OpensBlock keyword masked place start}

/-- The places before which at least as many braces are closed as opened. -/
def closedPlaces (masked : List Char) : Set Nat :=
  {place | (masked.take place).count '{' ≤ (masked.take place).count '}'}

/-- The first opening before which all braces are closed, or the first one if there is none such. -/
def IsChosen (keyword : String) (masked : List Char) (place : Nat) : Prop :=
  IsLeast (openingPlaces keyword masked ∩ closedPlaces masked) place ∨
    openingPlaces keyword masked ∩ closedPlaces masked = ∅ ∧
      IsLeast (openingPlaces keyword masked) place

theorem mem_closedPlaces_iff {place : Nat} :
    place ∈ closedPlaces masked ↔ closesBraces (masked.take place) = true := by
  simp [closedPlaces, closesBraces]

/-- The first of some findings that are listed from left to right. -/
theorem start_le_of_head? {found : List (Located Unit)} {first : Located Unit}
    (hsorted : found.Pairwise (·.start < ·.start)) (h : found.head? = some first) :
    ∀ other ∈ found, first.start ≤ other.start := by
  obtain ⟨rest, rfl⟩ := List.head?_eq_some_iff.1 h
  intro other hother
  rcases List.mem_cons.1 hother with rfl | hlater
  · exact Nat.le_refl _
  · exact Nat.le_of_lt ((List.pairwise_cons.1 hsorted).1 other hlater)

/-- The first of some findings with a property. -/
theorem start_le_of_find? {found : List (Located Unit)} {property : Located Unit → Bool}
    {first : Located Unit} (hsorted : found.Pairwise (·.start < ·.start))
    (h : found.find? property = some first) :
    ∀ other ∈ found, property other = true → first.start ≤ other.start := by
  intro other hother hproperty
  rw [← List.head?_filter] at h
  exact start_le_of_head? (hsorted.filter property) h other (List.mem_filter.2 ⟨hother, hproperty⟩)

variable {opening : Located Unit}

theorem isChosen_of_or (hkeyword : IsWord keyword.toList)
    (h : ((find isNameBorder (readOpening keyword) masked).find? fun opening =>
      closesBraces (masked.take opening.start)).or
        (find isNameBorder (readOpening keyword) masked).head? = some opening) :
    IsChosen keyword masked opening.start ∧
      OpensBlock keyword masked opening.start opening.stop := by
  have hsorted : (find isNameBorder (readOpening keyword) masked).Pairwise (·.start < ·.start) :=
    pairwise_start_findFrom 0 0 none masked
  have hopens : ∀ found ∈ find isNameBorder (readOpening keyword) masked,
      OpensBlock keyword masked found.start found.stop := fun found hfound =>
    (opensBlock_iff_mem_find hkeyword).2 hfound
  rcases Option.or_eq_some_iff.1 h with houter | ⟨hnone, hfirst⟩
  · have hmem := List.mem_of_find?_eq_some houter
    have hclosed := List.find?_some houter
    refine ⟨.inl ⟨⟨⟨_, hopens opening hmem⟩, mem_closedPlaces_iff.2 hclosed⟩, ?_⟩,
      hopens opening hmem⟩
    rintro place ⟨⟨start, hstart⟩, hplace⟩
    exact start_le_of_find? hsorted houter _ ((opensBlock_iff_mem_find hkeyword).1 hstart)
      (mem_closedPlaces_iff.1 hplace)
  · have hmem := List.mem_of_mem_head? hfirst
    refine ⟨.inr ⟨?_, ⟨_, hopens opening hmem⟩, ?_⟩, hopens opening hmem⟩
    · refine Set.eq_empty_iff_forall_notMem.2 ?_
      rintro place ⟨⟨start, hstart⟩, hplace⟩
      exact List.find?_eq_none.1 hnone _ ((opensBlock_iff_mem_find hkeyword).1 hstart)
        (mem_closedPlaces_iff.1 hplace)
    · rintro place ⟨start, hstart⟩
      exact start_le_of_head? hsorted hfirst _ ((opensBlock_iff_mem_find hkeyword).1 hstart)

end Choice

/-! ## The end of the body -/

section Body

/-- Up to the end of a body, no more braces are closed than have been opened. -/
theorem count_take_bodyLength_le (depth : Nat) (masked : List Char) :
    ∀ length ≤ bodyLength depth masked,
      (masked.take length).count '}' ≤ depth + (masked.take length).count '{' := by
  fun_induction bodyLength depth masked with
  | case1 => simp
  | case2 depth rest ih =>
      rintro (_ | length) hlength
      · simp
      · have := ih length (Nat.le_of_succ_le_succ hlength)
        simp
        omega
  | case3 rest hopen =>
      intro length hlength
      simp [Nat.le_zero.1 hlength]
  | case4 rest depth hopen ih =>
      rintro (_ | length) hlength
      · simp
      · have := ih length (Nat.le_of_succ_le_succ hlength)
        simp
        omega
  | case5 depth c rest hopen hclose ih =>
      rintro (_ | length) hlength
      · simp
      · have := ih length (Nat.le_of_succ_le_succ hlength)
        simpa [List.count_cons, hopen, hclose] using this

/-- No brace closes a body before its end. -/
theorem bodyLength_le {masked : List Char} {length : Nat} (hbrace : masked[length]? = some '}')
    (hcount : (masked.take length).count '{' = (masked.take length).count '}') :
    bodyLength 0 masked ≤ length := by
  by_contra hlong
  have hle := count_take_bodyLength_le 0 masked (length + 1) (by omega)
  rw [List.take_add_one, hbrace, Option.toList_some, List.count_append, List.count_append] at hle
  have hclose : ['}'].count '}' = 1 := rfl
  have hopen : ['}'].count '{' = 0 := rfl
  omega

/-- The places where a brace can close the block whose body starts at an offset. -/
def closingPlaces (masked : List Char) (start : Nat) : Set Nat :=
  {stop | start ≤ stop ∧ masked[stop]? = some '}' ∧
    (slice start stop masked).count '{' = (slice start stop masked).count '}'}

/-- The first brace that can close the block, or the end of the text if there is none. -/
def IsBodyEnd (masked : List Char) (start stop : Nat) : Prop :=
  IsLeast (closingPlaces masked start) stop ∨
    closingPlaces masked start = ∅ ∧ stop = masked.length

variable {masked : List Char} {start : Nat}

theorem slice_eq_take_drop (start length : Nat) (text : List Char) :
    slice start (start + length) text = (text.drop start).take length := by
  rw [slice, List.drop_take, Nat.add_sub_cancel_left]

theorem mem_closingPlaces_iff {length : Nat} :
    start + length ∈ closingPlaces masked start ↔ (masked.drop start)[length]? = some '}' ∧
      ((masked.drop start).take length).count '{' =
        ((masked.drop start).take length).count '}' := by
  rw [closingPlaces, Set.mem_ofPred_eq, slice_eq_take_drop, List.getElem?_drop]
  simp

theorem isBodyEnd_bodyLength (hstart : start ≤ masked.length) :
    IsBodyEnd masked start (start + bodyLength 0 (masked.drop start)) := by
  have hleast : ∀ stop ∈ closingPlaces masked start,
      start + bodyLength 0 (masked.drop start) ≤ stop := by
    intro stop hstop
    obtain ⟨length, rfl⟩ := Nat.exists_eq_add_of_le hstop.1
    obtain ⟨hbrace, hcount⟩ := mem_closingPlaces_iff.1 hstop
    exact Nat.add_le_add_left (bodyLength_le hbrace hcount) start
  rcases bodyLength_eq_length_or 0 (masked.drop start) with hall | ⟨hbrace, hcount⟩
  · have hlength : start + bodyLength 0 (masked.drop start) = masked.length := by
      rw [hall, List.length_drop]
      omega
    refine .inr ⟨Set.eq_empty_iff_forall_notMem.2 fun stop hstop => ?_, hlength⟩
    have hinside := (List.getElem?_eq_some_iff.1 hstop.2.1).1
    have hbeyond := hleast stop hstop
    omega
  · rw [Nat.zero_add] at hcount
    exact .inl ⟨mem_closingPlaces_iff.2 ⟨hbrace, hcount.symm⟩, hleast⟩

/-- A body has one end. -/
theorem IsBodyEnd.eq {stop stop' : Nat} (h : IsBodyEnd masked start stop)
    (h' : IsBodyEnd masked start stop') : stop = stop' := by
  rcases h with hleast | ⟨hnone, rfl⟩ <;> rcases h' with hleast' | ⟨hnone', rfl⟩
  · exact hleast.unique hleast'
  · exact absurd hleast.1 (by simp [hnone'])
  · exact absurd hleast'.1 (by simp [hnone])
  · rfl

end Body

/-! ## The block that is found -/

/-- The body of a block with a keyword goes from an offset of the script up to another. -/
def IsBlockBody (keyword : String) (script : List Char) (start stop : Nat) : Prop :=
  ∃ place, OpensBlock keyword (mask script) place start ∧ IsBodyEnd (mask script) start stop

theorem OpensBlock.le_length {keyword : String} {masked : List Char} {place start : Nat}
    (h : OpensBlock keyword masked place start) : start ≤ masked.length := by
  obtain ⟨front, blanks, rest, rfl, -, -, rfl, rfl⟩ := h
  simp only [List.length_append, List.length_cons]
  omega

section Found

variable {keyword : String} (hkeyword : IsWord keyword.toList) {script : List Char}
include hkeyword

theorem findBlock_eq_none_iff :
    findBlock keyword script = none ↔ openingPlaces keyword (mask script) = ∅ := by
  rw [findBlock, Option.map_eq_none_iff, Option.or_eq_none_iff, List.head?_eq_none_iff,
    Set.eq_empty_iff_forall_notMem]
  constructor
  · rintro ⟨-, hnone⟩ place ⟨start, hstart⟩
    have hmem := (opensBlock_iff_mem_find hkeyword).1 hstart
    simp [hnone] at hmem
  · intro hnone
    have hempty : find isNameBorder (readOpening keyword) (mask script) = [] :=
      List.eq_nil_iff_forall_not_mem.2 fun opening hopening =>
        hnone opening.start ⟨opening.stop, (opensBlock_iff_mem_find hkeyword).2 hopening⟩
    simp [hempty]

/-- The block that is found is opened at the place that is chosen. -/
theorem exists_isChosen_of_findBlock {start stop : Nat}
    (h : findBlock keyword script = some (start, stop)) :
    ∃ place, IsChosen keyword (mask script) place ∧ OpensBlock keyword (mask script) place start ∧
      stop = start + bodyLength 0 ((mask script).drop start) := by
  obtain ⟨opening, hopening, heq⟩ := Option.map_eq_some_iff.1 h
  obtain ⟨rfl, rfl⟩ := Prod.mk.inj heq
  obtain ⟨hchosen, hopens⟩ := isChosen_of_or hkeyword hopening
  exact ⟨_, hchosen, hopens, rfl⟩

theorem isBodyEnd_of_findBlock {start stop : Nat}
    (h : findBlock keyword script = some (start, stop)) : IsBodyEnd (mask script) start stop := by
  obtain ⟨place, -, hopens, rfl⟩ := exists_isChosen_of_findBlock hkeyword h
  exact isBodyEnd_bodyLength hopens.le_length

/-- A script is cut at the braces of the block that is found.  The second brace may be missing. -/
theorem exists_cut_of_findBlock {start stop : Nat}
    (h : findBlock keyword script = some (start, stop)) :
    ∃ before body after, script = before ++ '{' :: (body ++ after) ∧
      start = before.length + 1 ∧ stop = start + body.length ∧ ∀ c ∈ after.head?, c = '}' := by
  have hend := isBodyEnd_of_findBlock hkeyword h
  obtain ⟨outer, inside, behind, htokens, hstart, hstop⟩ := exists_tokens_of_offsets h
  have hscript : script = outer.flatMap Token.text ++
      '{' :: (inside.flatMap Token.text ++ behind.flatMap Token.text) := by
    rw [← flatMap_text_tokens script, htokens]
    simp [Token.text]
  refine ⟨_, _, _, hscript, hstart, hstop, fun c hc => ?_⟩
  have hafter : script[stop]? = some c := by
    have hlength :
        stop = (outer.flatMap Token.text ++ '{' :: inside.flatMap Token.text).length := by
      rw [hstop, hstart, List.length_append, List.length_cons]
      omega
    rw [hscript, ← List.cons_append, ← List.append_assoc, hlength,
      List.getElem?_append_right (Nat.le_refl _), Nat.sub_self, ← List.head?_eq_getElem?]
    exact hc
  rcases hend with hclosed | ⟨-, hall⟩
  · exact Option.some.inj (hafter.symm.trans (getElem?_of_mask (.inr rfl) hclosed.1.2.1))
  · rw [hall, length_mask, List.getElem?_eq_none (Nat.le_refl _)] at hafter
    simp at hafter

end Found

/-- A block is found if and only if one is opened.  It is the first one outside all braces, or else
the first one; its body starts after its brace and ends where this brace is closed, and up to there
no brace is closed that was not opened in the body. -/
theorem findBlock_chooses_balanced {keyword : String} (hkeyword : IsWord keyword.toList)
    (script : List Char) :
    (findBlock keyword script = none ↔ openingPlaces keyword (mask script) = ∅) ∧
    ∀ start stop, findBlock keyword script = some (start, stop) →
      (∃ place, IsChosen keyword (mask script) place ∧
        OpensBlock keyword (mask script) place start) ∧
      IsBodyEnd (mask script) start stop ∧ start ≤ stop ∧ stop ≤ script.length ∧
      ∀ front, front <+: slice start stop (mask script) → front.count '}' ≤ front.count '{' := by
  refine ⟨findBlock_eq_none_iff hkeyword, fun start stop h => ?_⟩
  obtain ⟨place, hchosen, hopens, rfl⟩ := exists_isChosen_of_findBlock hkeyword h
  have hend := isBodyEnd_bodyLength hopens.le_length
  refine ⟨⟨place, hchosen, hopens⟩, hend, Nat.le_add_right _ _, ?_, ?_⟩
  · rcases hend with hclosed | ⟨-, hall⟩
    · have hinside := (List.getElem?_eq_some_iff.1 hclosed.1.2.1).1
      rw [length_mask] at hinside
      exact Nat.le_of_lt hinside
    · exact Nat.le_of_eq (hall.trans (length_mask script))
  · intro front hfront
    rw [slice_eq_take_drop] at hfront
    have hlength : front.length ≤ bodyLength 0 ((mask script).drop start) :=
      hfront.length_le.trans (List.length_take_le _ _)
    have hcount := count_take_bodyLength_le 0 ((mask script).drop start) _ hlength
    rwa [← List.prefix_iff_eq_take.1 (hfront.trans (List.take_prefix _ _)), Nat.zero_add]
      at hcount

/-- A script in which a block stands inside another one and then outside, with braces in a comment
and in a string. -/
def twoBlocks : List Char :=
  ["a \x7b b \x7b x \x7d \x7d\n", "b /* \x7b */\n",
    "\x7b '\x7d' \x7b \x7d y \x7d"].flatMap String.toList

theorem findBlock_chooses_balanced_twoBlocks :
    IsWord "b".toList ∧ findBlock "b" twoBlocks = some (25, 36) ∧
      (∃ place, IsChosen "b" (mask twoBlocks) place ∧
        OpensBlock "b" (mask twoBlocks) place 25) ∧
      IsBodyEnd (mask twoBlocks) 25 36 := by
  have hkeyword : IsWord "b".toList := ⟨by decide, by decide⟩
  have hfind : findBlock "b" twoBlocks = some (25, 36) := by decide +kernel
  obtain ⟨hopening, hend, -⟩ := (findBlock_chooses_balanced hkeyword twoBlocks).2 25 36 hfind
  exact ⟨hkeyword, hfind, hopening, hend⟩

end GradleWorkspace.Script
