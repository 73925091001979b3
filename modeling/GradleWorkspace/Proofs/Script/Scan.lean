import Mathlib.Data.List.TakeWhile
import GradleWorkspace.Script.Scan

/-!
# What readers find in a text made of pieces

A script is written statement by statement and read place by place.  This file brings the two
together: it says what a reader finds in a piece of text, whatever stands after the piece.

There are five groups.

* Classes of characters.  The characters of words and the blanks are different ones.
* Taking pieces.  One equation for each piece of a statement, on a text that begins with it.
* Pieces of a text.  `Yields` says that a reader finds certain values in a piece.  A piece that
  the reader takes as a whole yields its value, a piece in which it fails everywhere yields
  nothing, and what pieces yield is put together in their order.
* Words.  Most readers need a word at their front, so that nothing is read in a piece without
  words, and where words stand it has to be said only what is read from each of them.
* Signs.  A statement begins with a word, and after the word and blanks a certain sign must
  stand, such as an opening parenthesis.  Where no word has such a sign, a reader finds nothing.
-/

namespace GradleWorkspace.Script

open Text

/-! ## Classes of characters -/

theorem exists_range_of_inRanges {ranges : List (Nat × Nat)} {n : Nat}
    (h : inRanges ranges n = true) : ∃ range ∈ ranges, range.1 ≤ n ∧ n ≤ range.2 := by
  induction ranges with
  | nil => simp [inRanges] at h
  | cons range rest ih =>
      rw [inRanges] at h
      split at h
      · simp at h
      · split at h
        · exact ⟨range, List.mem_cons_self, by omega, by omega⟩
        · obtain ⟨other, hother, hbounds⟩ := ih h
          exact ⟨other, List.mem_cons_of_mem _ hother, hbounds⟩

theorem isWordChar_eq_false_of_isBlank {c : Char} (h : isBlank c = true) :
    isWordChar c = false := by
  unfold isBlank at h
  have hcodes : ∀ range ∈ blankRanges, ∀ code ∈ List.range' range.1 (range.2 + 1 - range.1),
      inRanges wordRanges code = false := by decide +kernel
  obtain ⟨range, hrange, hfirst, hlast⟩ := exists_range_of_inRanges h
  exact hcodes range hrange c.toNat (List.mem_range'_1.2 ⟨hfirst, by omega⟩)

theorem isBlank_eq_false_of_isWordChar {c : Char} (h : isWordChar c = true) :
    isBlank c = false := by
  cases hblank : isBlank c with
  | false => rfl
  | true => simp [isWordChar_eq_false_of_isBlank hblank] at h

/-- A class of ASCII characters has a property if each of its members has it. -/
theorem forall_of_ascii {inClass property : Char → Bool}
    (h : ∀ n < 128, inClass (Char.ofNat n) = true → property (Char.ofNat n) = true) {c : Char}
    (hascii : c.toNat < 128) (hc : inClass c = true) : property c = true := by
  have hcode := h c.toNat hascii
  rw [Char.ofNat_toNat] at hcode
  exact hcode hc

theorem toNat_lt_of_isAlphanum {c : Char} (h : c.isAlphanum = true) : c.toNat < 128 := by
  change ((decide (c.val ≥ 'A'.val ∧ c.val ≤ 'Z'.val) ||
    (decide (c.val ≥ 'a'.val) && decide (c.val ≤ 'z'.val))) ||
      (decide (c.val ≥ '0'.val) && decide (c.val ≤ '9'.val))) = true at h
  simp only [Bool.or_eq_true, Bool.and_eq_true, decide_eq_true_eq, ge_iff_le,
    UInt32.le_iff_toNat_le] at h
  change ((65 ≤ c.toNat ∧ c.toNat ≤ 90) ∨ (97 ≤ c.toNat ∧ c.toNat ≤ 122)) ∨
    (48 ≤ c.toNat ∧ c.toNat ≤ 57) at h
  omega

/-! ## Taking pieces -/

theorem skipBlanks_cons {c : Char} (h : isBlank c = false) (text : List Char) :
    skipBlanks (c :: text) = c :: text := by
  rw [skipBlanks, List.dropWhile_cons, if_neg (by simp [h])]

theorem skipBlanks_of_isBlank {c : Char} (h : isBlank c = true) (text : List Char) :
    skipBlanks (c :: text) = skipBlanks text := by
  rw [skipBlanks, List.dropWhile_cons, if_pos h, skipBlanks]

theorem skipBlanks_append_cons {blanks : List Char} (hblanks : ∀ c ∈ blanks, isBlank c = true)
    {c : Char} (hc : isBlank c = false) (rest : List Char) :
    skipBlanks (blanks ++ c :: rest) = c :: rest := by
  rw [skipBlanks, List.dropWhile_append_of_pos hblanks, ← skipBlanks, skipBlanks_cons hc]

theorem after_append (word : String) (text : List Char) :
    after word (word.toList ++ text) = some text := by
  rw [after, if_pos (List.prefix_append _ _), List.drop_left]

theorem after_eq_none {word : String} {text : List Char} (h : ¬word.toList <+: text) :
    after word text = none := if_neg h

theorem afterSpaced_eq_none_of_skipBlanks {sign : String} {text : List Char}
    (h : ¬sign.toList <+: skipBlanks text) : afterSpaced sign text = none := by
  rw [afterSpaced, next, after_eq_none h, Option.map_none]

/-- A sign that stands between blanks is taken up to the next character that is no blank. -/
theorem afterSpaced_append_cons {word : String} {sign : Char} (hword : word.toList = [sign])
    (hsign : isBlank sign = false) {before inside : List Char}
    (hbefore : ∀ c ∈ before, isBlank c = true) (hinside : ∀ c ∈ inside, isBlank c = true) {c : Char}
    (hc : isBlank c = false) (rest : List Char) :
    afterSpaced word (before ++ sign :: (inside ++ c :: rest)) = some (c :: rest) := by
  have hafter : after word (sign :: (inside ++ c :: rest)) = some (inside ++ c :: rest) := by
    have htext := after_append word (inside ++ c :: rest)
    rwa [hword] at htext
  rw [afterSpaced, next, skipBlanks_append_cons hbefore hsign, hafter, Option.map_some,
    skipBlanks_append_cons hinside hc]

theorem run_append {inClass : Char → Bool} {value : List Char} {c : Char} {text : List Char}
    (hvalue : ∀ d ∈ value, inClass d = true) (hne : value ≠ []) (hc : inClass c = false) :
    run inClass (value ++ c :: text) = some (value, c :: text) := by
  have htake : (value ++ c :: text).takeWhile inClass = value := by
    rw [List.takeWhile_append_of_pos hvalue, List.takeWhile_cons, if_neg (by simp [hc]),
      List.append_nil]
  have hdrop : (value ++ c :: text).dropWhile inClass = c :: text := by
    rw [List.dropWhile_append_of_pos hvalue, List.dropWhile_cons, if_neg (by simp [hc])]
  obtain ⟨first, rest, rfl⟩ := List.exists_cons_of_ne_nil hne
  rw [run, htake, hdrop]

theorem run_cons_eq_none {inClass : Char → Bool} {c : Char} (h : inClass c = false)
    (text : List Char) : run inClass (c :: text) = none := by
  rw [run, List.takeWhile_cons, if_neg (by simp [h])]

/-- A string literal whose content has no quotes is read as it is written. -/
theorem literal_append {quote : Char} {content : List Char} (hquote : isQuote quote = true)
    (hcontent : ∀ c ∈ content, isQuote c = false) (hne : content ≠ []) (text : List Char) :
    literal (quote :: (content ++ quote :: text)) = some (content, text) := by
  have hrun : run (fun c => !isQuote c) (content ++ quote :: text) =
      some (content, quote :: text) :=
    run_append (fun c hc => by simp [hcontent c hc]) hne (by simp [hquote])
  simp [literal, hquote, hrun]

/-! ## Pieces of a text -/

section Yields

variable {α : Type} {starts : Option Char → Bool} {read : Reader α}

/-- In a piece of text that stands after a border, a reader finds certain values, whatever comes
after the piece.  It has then read the piece and nothing more, and stands at a border again. -/
def Yields (starts : Option Char → Bool) (read : Reader α) (piece : List Char)
    (values : List α) : Prop :=
  ∀ (offset : Nat) (previous : Option Char) (rest : List Char), starts previous = true →
    ∃ (found : List (Located α)) (previous' : Option Char), starts previous' = true ∧
      found.map Located.value = values ∧
      findFrom starts read offset 0 previous (piece ++ rest) =
        found ++ findFrom starts read (offset + piece.length) 0 previous' rest

theorem yields_nil : Yields starts read [] [] :=
  fun _ previous _ hprevious => ⟨[], previous, hprevious, rfl, rfl⟩

theorem Yields.append {first second : List Char} {values values' : List α}
    (h : Yields starts read first values) (h' : Yields starts read second values') :
    Yields starts read (first ++ second) (values ++ values') := by
  intro offset previous rest hprevious
  obtain ⟨found, between, hbetween, hfound, heq⟩ := h offset previous (second ++ rest) hprevious
  obtain ⟨found', last, hlast, hfound', heq'⟩ :=
    h' (offset + first.length) between rest hbetween
  refine ⟨found ++ found', last, hlast, by rw [List.map_append, hfound, hfound'], ?_⟩
  rw [List.append_assoc, heq, heq', List.length_append, Nat.add_assoc, List.append_assoc]

theorem Yields.flatMap {β : Type} {items : List β} {piece : β → List Char} {values : β → List α}
    (h : ∀ item ∈ items, Yields starts read (piece item) (values item)) :
    Yields starts read (items.flatMap piece) (items.flatMap values) := by
  induction items with
  | nil => exact yields_nil
  | cons item rest ih =>
      rw [List.flatMap_cons, List.flatMap_cons]
      exact (h item List.mem_cons_self).append
        (ih fun other hother => h other (List.mem_cons_of_mem _ hother))

/-- What a reader finds in a text that is one piece. -/
theorem Yields.findValues_eq {text : List Char} {values : List α}
    (h : Yields starts read text values) (hstart : starts none = true) :
    findValues starts read text = values := by
  obtain ⟨found, _, -, hfound, heq⟩ := h 0 none [] hstart
  rw [List.append_nil] at heq
  rw [findValues, find, heq, findFrom, List.append_nil, hfound]

/-- The characters that belong to the value read last are passed over. -/
theorem findFrom_skip (piece rest : List Char) (offset : Nat) (previous : Option Char) :
    findFrom starts read offset piece.length previous (piece ++ rest) =
      findFrom starts read (offset + piece.length) 0 (piece.getLast?.or previous) rest := by
  induction piece generalizing offset previous with
  | nil => rfl
  | cons c piece ih =>
      rw [List.cons_append, List.length_cons, findFrom, ih, Nat.add_right_comm, Nat.add_assoc]
      congr 1
      cases piece <;> simp [List.getLast?_cons]

/-- A piece is passed over if the reader takes nothing at the places of it where it may start. -/
theorem findFrom_of_forall_place {piece rest : List Char} {previous : Option Char}
    (h : ∀ front suffix, front ++ suffix = piece → suffix ≠ [] →
      starts (front.getLast?.or previous) = true → read (suffix ++ rest) = none)
    (offset : Nat) :
    findFrom starts read offset 0 previous (piece ++ rest) =
      findFrom starts read (offset + piece.length) 0 (piece.getLast?.or previous) rest := by
  induction piece generalizing offset previous with
  | nil => rfl
  | cons c piece ih =>
      have hhere : (if starts previous then read (c :: (piece ++ rest)) else none) = none := by
        split
        · next hstart => exact h [] (c :: piece) rfl (List.cons_ne_nil _ _) hstart
        · rfl
      have hrest := @ih (some c) (fun front suffix heq hne hstart => by
        refine h (c :: front) suffix (by rw [List.cons_append, heq]) hne ?_
        cases front <;> simp_all [List.getLast?_cons]) (offset + 1)
      rw [List.cons_append, findFrom, hhere, List.length_cons]
      simp only [hrest, Nat.add_right_comm, Nat.add_assoc]
      congr 1
      cases piece <;> simp [List.getLast?_cons]

/-- A piece at no place of which the reader takes something is passed over. -/
theorem findFrom_of_forall_suffix {piece rest : List Char}
    (h : ∀ suffix, suffix <:+ piece → suffix ≠ [] → read (suffix ++ rest) = none)
    (offset : Nat) (previous : Option Char) :
    findFrom starts read offset 0 previous (piece ++ rest) =
      findFrom starts read (offset + piece.length) 0 (piece.getLast?.or previous) rest :=
  findFrom_of_forall_place (fun front suffix heq hne _ => h suffix ⟨front, heq⟩ hne) offset

/-- The character before what comes after a piece is a border if the last one of the piece is. -/
theorem starts_getLast?_or {piece : List Char} {previous : Option Char}
    (hlast : ∀ c ∈ piece.getLast?, starts (some c) = true) (hprevious : starts previous = true) :
    starts (piece.getLast?.or previous) = true := by
  cases hpiece : piece.getLast? with
  | none => exact hprevious
  | some c => exact hlast c hpiece

/-- At no place of a piece does the reader take something, whatever comes after the piece. -/
def Silent (read : Reader α) (piece : List Char) : Prop :=
  ∀ suffix rest, suffix <:+ piece → suffix ≠ [] → read (suffix ++ rest) = none

theorem Silent.append_of_forall {first second : List Char} (h' : Silent read second)
    (h : ∀ suffix rest, suffix <:+ first → suffix ≠ [] → read (suffix ++ (second ++ rest)) = none) :
    Silent read (first ++ second) := by
  intro suffix rest hsuffix hne
  obtain ⟨start, hstart⟩ := hsuffix
  rcases List.append_eq_append_iff.1 hstart with ⟨tail, hfirst, rfl⟩ | ⟨middle, -, hsecond⟩
  · cases tail with
    | nil => exact h' second rest List.suffix_rfl hne
    | cons c tail =>
        rw [List.append_assoc]
        exact h (c :: tail) rest ⟨start, hfirst.symm⟩ (List.cons_ne_nil _ _)
  · exact h' suffix rest ⟨middle, hsecond.symm⟩ hne

theorem Silent.append {first second : List Char} (h : Silent read first)
    (h' : Silent read second) : Silent read (first ++ second) :=
  h'.append_of_forall fun suffix rest => h suffix (second ++ rest)

/-- A piece at no place of which the reader takes something yields nothing. -/
theorem Silent.yields {piece : List Char} (h : Silent read piece)
    (hlast : ∀ c ∈ piece.getLast?, starts (some c) = true) : Yields starts read piece [] := by
  intro offset previous rest hprevious
  exact ⟨[], _, starts_getLast?_or hlast hprevious, rfl,
    findFrom_of_forall_suffix (fun suffix => h suffix rest) offset previous⟩

theorem Silent.yields_of_getLast? {piece : List Char} {last : Char} (h : Silent read piece)
    (hlast : piece.getLast? = some last) (hstarts : starts (some last) = true) :
    Yields starts read piece [] := by
  refine h.yields fun c hc => ?_
  obtain rfl : last = c := by simpa [hlast] using hc
  exact hstarts

theorem findFrom_of_read {piece rest : List Char} {value : α}
    (h : read (piece ++ rest) = some (value, rest)) (hne : piece ≠ []) (offset : Nat)
    {previous : Option Char} (hprevious : starts previous = true) :
    findFrom starts read offset 0 previous (piece ++ rest) =
      ⟨offset, offset + piece.length, value⟩ ::
        findFrom starts read (offset + piece.length) 0 (piece.getLast?.or previous) rest := by
  obtain ⟨c, piece, rfl⟩ := List.exists_cons_of_ne_nil hne
  have hlength : (piece ++ rest).length + 1 - rest.length = piece.length + 1 := by
    rw [List.length_append]
    omega
  have hskip := @findFrom_skip α starts read piece rest (offset + 1) (some c)
  rw [List.cons_append] at h ⊢
  rw [findFrom, if_pos hprevious, h]
  simp only [hlength, Nat.add_sub_cancel, hskip, List.length_cons, Nat.add_right_comm,
    Nat.add_assoc]
  congr 2
  cases piece <;> simp [List.getLast?_cons]

/-- A piece that the reader takes as a whole yields its value. -/
theorem yields_singleton {piece : List Char} {value : α}
    (h : ∀ rest, read (piece ++ rest) = some (value, rest)) (hne : piece ≠ [])
    (hlast : ∀ c ∈ piece.getLast?, starts (some c) = true) : Yields starts read piece [value] := by
  intro offset previous rest hprevious
  exact ⟨[⟨offset, offset + piece.length, value⟩], _, starts_getLast?_or hlast hprevious, rfl,
    findFrom_of_read (h rest) hne offset hprevious⟩

end Yields

/-! ## Words -/

/-- A word: not empty, and made of characters of words only. -/
def IsWord (word : List Char) : Prop := word ≠ [] ∧ ∀ c ∈ word, isWordChar c = true

instance (word : List Char) : Decidable (IsWord word) := inferInstanceAs (Decidable (_ ∧ _))

section Words

variable {α : Type} {read : Reader α}

/-- What a reader takes begins with a word. -/
def NeedsWord (read : Reader α) : Prop :=
  ∀ text, (∀ c ∈ text.head?, isWordChar c = false) → read text = none

theorem NeedsWord.silent (hread : NeedsWord read) {piece : List Char}
    (h : ∀ c ∈ piece, isWordChar c = false) : Silent read piece := by
  intro suffix rest hsuffix hne
  obtain ⟨c, suffix, rfl⟩ := List.exists_cons_of_ne_nil hne
  exact hread _ (by simpa using h c (hsuffix.subset List.mem_cons_self))

/-- A piece without words that ends at a border yields nothing. -/
theorem NeedsWord.yields {starts : Option Char → Bool} {piece : List Char} {last : Char}
    (hread : NeedsWord read) (h : ∀ c ∈ piece, isWordChar c = false)
    (hlast : piece.getLast? = some last) (hstarts : starts (some last) = true) :
    Yields starts read piece [] := (hread.silent h).yields_of_getLast? hlast hstarts

/-- In a text that ends in a piece in which nothing is read, nothing is read if nothing is read
from a word before one of its own characters, and from a word before the last piece. -/
theorem Silent.text_append {text last : List Char} (hlast : Silent read last)
    (hread : NeedsWord read)
    (hinner : ∀ word c rest, IsWord word → c ∈ text → isWordChar c = false →
      read (word ++ c :: rest) = none)
    (hend : ∀ word rest, IsWord word → word <:+ text → read (word ++ (last ++ rest)) = none) :
    Silent read (text ++ last) := by
  refine hlast.append_of_forall fun suffix rest hsuffix hne => ?_
  have hsplit : suffix.takeWhile isWordChar ++ suffix.dropWhile isWordChar = suffix :=
    List.takeWhile_append_dropWhile
  have hword : ∀ d ∈ suffix.takeWhile isWordChar, isWordChar d = true :=
    fun d hd => List.mem_takeWhile_imp hd
  by_cases hempty : suffix.takeWhile isWordChar = []
  · obtain ⟨c, suffix, rfl⟩ := List.exists_cons_of_ne_nil hne
    apply hread
    have hc : isWordChar c = false := by
      cases hc : isWordChar c with
      | false => rfl
      | true => simp [hc] at hempty
    simpa using hc
  · cases hrest : suffix.dropWhile isWordChar with
    | nil =>
        rw [hrest, List.append_nil] at hsplit
        rw [hsplit] at hword
        exact hend suffix rest ⟨hne, hword⟩ hsuffix
    | cons c tail =>
        have hc : isWordChar c = false := by
          have hhead := List.head?_dropWhile_not isWordChar suffix
          simpa [hrest] using hhead
        have hmem : c ∈ text :=
          hsuffix.subset ((List.dropWhile_suffix isWordChar).subset (by simp [hrest]))
        rw [← hsplit, hrest, List.append_assoc, List.cons_append]
        exact hinner _ c _ ⟨hempty, hword⟩ hmem hc

/-- The same for a text that is a word. -/
theorem Silent.word_append {text last : List Char} (hlast : Silent read last)
    (hread : NeedsWord read) (htext : IsWord text)
    (hend : ∀ word rest, IsWord word → word <:+ text → read (word ++ (last ++ rest)) = none) :
    Silent read (text ++ last) := by
  refine hlast.text_append hread (fun word c rest _ hc hnot => ?_) hend
  simp [htext.2 c hc] at hnot

/-- Nothing is read in a word and a piece after it if nothing is read from the front of the word. -/
theorem yields_word_append {word tail : List Char} {c : Char}
    (hword : IsWord word) (hc : isNameBorder (some c) = true)
    (htail : Yields isNameBorder read tail [])
    (h : ∀ rest, read (word ++ c :: (tail ++ rest)) = none) :
    Yields isNameBorder read (word ++ c :: tail) [] := by
  intro offset previous rest hprevious
  have hplaces : ∀ front suffix, front ++ suffix = word ++ [c] → suffix ≠ [] →
      isNameBorder (front.getLast?.or previous) = true →
        read (suffix ++ (tail ++ rest)) = none := by
    intro front suffix hsplit hne hstart
    cases hfront : front.getLast? with
    | none =>
        obtain rfl := List.getLast?_eq_none_iff.1 hfront
        rw [List.nil_append] at hsplit
        rw [hsplit, List.append_assoc]
        exact h rest
    | some d =>
        -- The place stands after a character of the word, which is no border.
        rcases List.prefix_concat_iff.1 ⟨suffix, hsplit⟩ with rfl | hinside
        · exact absurd (by simpa using hsplit) hne
        · have hd := hword.2 d (hinside.subset (List.mem_of_getLast? hfront))
          rw [hfront, Option.some_or, isNameBorder, hd] at hstart
          simp at hstart
  obtain ⟨found, last, hlast, hfound, heq⟩ :=
    htail (offset + (word ++ [c]).length) (some c) rest hc
  refine ⟨found, last, hlast, hfound, ?_⟩
  have hshape : word ++ c :: tail ++ rest = (word ++ [c]) ++ (tail ++ rest) := by simp
  have hlength : offset + (word ++ c :: tail).length =
      offset + (word ++ [c]).length + tail.length := by
    simp only [List.length_append, List.length_cons, List.length_nil]
    omega
  rw [hshape, findFrom_of_forall_place hplaces offset, List.getLast?_concat, Option.some_or, heq,
    hlength]

end Words

/-! ## Signs -/

/-- The first character after the word at the front of a text and the blanks after the word. -/
def signOf (text : List Char) : Option Char := (skipBlanks (text.dropWhile isWordChar)).head?

theorem signOf_append {word : List Char} (h : ∀ c ∈ word, isWordChar c = true)
    (text : List Char) : signOf (word ++ text) = signOf text := by
  rw [signOf, List.dropWhile_append_of_pos h, signOf]

/-- The sign after an empty word is the first character that is no blank. -/
theorem signOf_of_skipBlanks {text rest : List Char} {sign : Char}
    (h : skipBlanks text = sign :: rest) (hsign : isWordChar sign = false) :
    signOf text = some sign := by
  have hdrop : text.dropWhile isWordChar = text := by
    cases text with
    | nil => rfl
    | cons c text =>
        have hc : isWordChar c = false := by
          cases hblank : isBlank c with
          | true => exact isWordChar_eq_false_of_isBlank hblank
          | false =>
              rw [skipBlanks_cons hblank] at h
              rwa [(List.cons.inj h).1]
        rw [List.dropWhile_cons, if_neg (by simp [hc])]
  rw [signOf, hdrop, h, List.head?_cons]

/-- A sign that stands in a text is the same if more text comes after it. -/
theorem signOf_append_right {text : List Char} {sign : Char} (h : signOf text = some sign)
    (rest : List Char) : signOf (text ++ rest) = some sign := by
  obtain ⟨tail, htail⟩ : ∃ tail, skipBlanks (text.dropWhile isWordChar) = sign :: tail := by
    cases hskip : skipBlanks (text.dropWhile isWordChar) with
    | nil => simp [signOf, hskip] at h
    | cons c tail =>
        obtain rfl : c = sign := by simpa [signOf, hskip] using h
        exact ⟨tail, rfl⟩
  have hne : text.dropWhile isWordChar ≠ [] := by
    intro hnil
    simp [hnil, skipBlanks] at htail
  rw [signOf, List.dropWhile_append, if_neg (by simpa using hne), skipBlanks,
    List.dropWhile_append]
  rw [skipBlanks] at htail
  rw [if_neg (by simp [htail]), htail]
  rfl

/-- Whether each word in a text, also each end of a word, is followed within the text by a
character that is none of the given signs. -/
def quiet (signs : List Char) : List Char → Bool
  | [] => true
  | c :: rest =>
    (!isWordChar c || (signOf (c :: rest)).any fun sign => sign ∉ signs) && quiet signs rest

theorem quiet_of_suffix {signs text suffix : List Char} (h : quiet signs text = true)
    (hsuffix : suffix <:+ text) : quiet signs suffix = true := by
  induction text with
  | nil => rwa [List.suffix_nil.1 hsuffix]
  | cons c text ih =>
      rcases List.suffix_cons_iff.1 hsuffix with rfl | htail
      · exact h
      · exact ih (by simp_all [quiet]) htail

theorem quiet_append {signs first second : List Char} (h : quiet signs first = true)
    (h' : quiet signs second = true) : quiet signs (first ++ second) = true := by
  induction first with
  | nil => exact h'
  | cons c first ih =>
      simp only [quiet, Bool.and_eq_true, Bool.or_eq_true, Option.any_eq_true] at h
      simp only [List.cons_append, quiet, Bool.and_eq_true, Bool.or_eq_true, Option.any_eq_true]
      refine ⟨h.1.imp_right ?_, ih h.2⟩
      rintro ⟨sign, hsign, hnot⟩
      exact ⟨sign, signOf_append_right hsign second, hnot⟩

/-- A word before a text that has a harmless sign at its front changes nothing. -/
theorem quiet_word_append {signs word text : List Char} {sign : Char}
    (hword : ∀ c ∈ word, isWordChar c = true) (hsign : signOf text = some sign)
    (hnot : sign ∉ signs) (h : quiet signs text = true) : quiet signs (word ++ text) = true := by
  induction word with
  | nil => exact h
  | cons c word ih =>
      have hhere : signOf (c :: (word ++ text)) = some sign :=
        (signOf_append hword text).trans hsign
      have hrest := ih fun d hd => hword d (List.mem_cons_of_mem _ hd)
      simp [quiet, hhere, hnot, hrest]

/-- A text in which no sign occurs, up to a last character that ends all words. -/
theorem quiet_of_forall_notMem {signs text : List Char} {last : Char}
    (h : ∀ c ∈ text, c ∉ signs) (hlast : last ∉ signs) (hword : isWordChar last = false)
    (hblank : isBlank last = false) : quiet signs (text ++ [last]) = true := by
  induction text with
  | nil => simp [quiet, hword]
  | cons c text ih =>
      have hrest := ih fun d hd => h d (List.mem_cons_of_mem _ hd)
      obtain ⟨sign, tail, htail⟩ : ∃ sign tail,
          skipBlanks ((c :: (text ++ [last])).dropWhile isWordChar) = sign :: tail := by
        apply List.exists_cons_of_ne_nil
        intro hnil
        have hall := List.dropWhile_eq_nil_iff.1 hnil
        have hmem : last ∈ (c :: (text ++ [last])).dropWhile isWordChar := by
          rw [← List.cons_append, List.dropWhile_append]
          split <;> simp [hword]
        simp [hall last hmem] at hblank
      have hmem : sign ∈ c :: (text ++ [last]) := by
        apply (List.dropWhile_suffix isWordChar).subset
        apply (List.dropWhile_suffix isBlank).subset
        rw [← skipBlanks, htail]
        exact List.mem_cons_self
      have hnot : sign ∉ signs := by
        rcases List.mem_cons.1 hmem with rfl | hmem
        · exact h sign List.mem_cons_self
        · rcases List.mem_append.1 hmem with hmem | hmem
          · exact h sign (List.mem_cons_of_mem _ hmem)
          · rwa [List.mem_singleton.1 hmem]
      have hsign : signOf (c :: (text ++ [last])) = some sign := by
        rw [signOf, htail, List.head?_cons]
      simp [quiet, hsign, hnot, hrest]

/-- What a reader takes begins with a word, and after the word one of the signs stands. -/
def NeedsSign {α : Type} (signs : List Char) (read : Reader α) : Prop :=
  ∀ text value rest, read text = some (value, rest) →
    (∃ c ∈ text.head?, isWordChar c = true) ∧ ∃ sign ∈ signs, signOf text = some sign

theorem NeedsSign.needsWord {α : Type} {signs : List Char} {read : Reader α}
    (h : NeedsSign signs read) : NeedsWord read := by
  intro text htext
  cases hresult : read text with
  | none => rfl
  | some result =>
      obtain ⟨⟨c, hc, hword⟩, -⟩ := h text result.1 result.2 hresult
      simp [htext c hc] at hword

/-- Two words at the front of a text are the same if both end there. -/
theorem eq_of_append_eq_append {word word' text text' : List Char}
    (hword : ∀ c ∈ word, isWordChar c = true) (hword' : ∀ c ∈ word', isWordChar c = true)
    (htext : ∀ c ∈ text.head?, isWordChar c = false)
    (htext' : ∀ c ∈ text'.head?, isWordChar c = false) (h : word ++ text = word' ++ text') :
    word = word' := by
  have hnone : ∀ tail : List Char, (∀ c ∈ tail.head?, isWordChar c = false) →
      tail.takeWhile isWordChar = [] := by
    intro tail htail
    cases tail with
    | nil => rfl
    | cons c tail => rw [List.takeWhile_cons, if_neg (by simp [htail c rfl])]
  have htake := congrArg (List.takeWhile isWordChar) h
  rwa [List.takeWhile_append_of_pos hword, List.takeWhile_append_of_pos hword', hnone _ htext,
    hnone _ htext', List.append_nil, List.append_nil] at htake

/-- What a reader takes begins with a fixed word, and after the word and blanks one of the signs
stands. -/
def BeginsWith {α : Type} (name : String) (signs : List Char) (read : Reader α) : Prop :=
  ∀ text value rest, read text = some (value, rest) →
    ∃ unread sign tail, text = name.toList ++ unread ∧ sign ∈ signs ∧
      skipBlanks unread = sign :: tail

section BeginsWith

variable {α : Type} {name : String} {signs : List Char} {read : Reader α}

theorem BeginsWith.needsSign (h : BeginsWith name signs read) (hname : IsWord name.toList)
    (hsigns : ∀ sign ∈ signs, isWordChar sign = false) : NeedsSign signs read := by
  intro text value rest hresult
  obtain ⟨unread, sign, tail, rfl, hsign, hskip⟩ := h text value rest hresult
  refine ⟨?_, sign, hsign, ?_⟩
  · obtain ⟨c, letters, hletters⟩ := List.exists_cons_of_ne_nil hname.1
    exact ⟨c, by simp [hletters], hname.2 c (by simp [hletters])⟩
  · rw [signOf_append hname.2]
    exact signOf_of_skipBlanks hskip (hsigns sign hsign)

/-- Nothing is read of another word. -/
theorem BeginsWith.eq_none (h : BeginsWith name signs read) (hname : IsWord name.toList)
    (hsigns : ∀ sign ∈ signs, isWordChar sign = false) {word text : List Char} {c : Char}
    (hword : IsWord word) (hc : isWordChar c = false) (hne : word ≠ name.toList) :
    read (word ++ c :: text) = none := by
  cases hresult : read (word ++ c :: text) with
  | none => rfl
  | some result =>
      obtain ⟨unread, sign, tail, heq, hsign, hskip⟩ := h _ _ _ hresult
      have hhead : ∀ d ∈ unread.head?, isWordChar d = false := by
        intro d hd
        obtain ⟨rest, rfl⟩ : ∃ rest, unread = d :: rest := List.head?_eq_some_iff.1 hd
        cases hblank : isBlank d with
        | true => exact isWordChar_eq_false_of_isBlank hblank
        | false =>
            rw [skipBlanks_cons hblank] at hskip
            rw [(List.cons.inj hskip).1]
            exact hsigns sign hsign
      exact absurd (eq_of_append_eq_append hword.2 hname.2 (by simpa using hc) hhead heq) hne

/-- Nothing is read in a word other than the one that a reader begins with. -/
theorem BeginsWith.yields_word_append {word tail : List Char} (h : BeginsWith name signs read)
    (hname : IsWord name.toList) (hsigns : ∀ sign ∈ signs, isWordChar sign = false)
    (hword : IsWord word) (hne : word ≠ name.toList) (htail : Yields isNameBorder read tail []) :
    Yields isNameBorder read (word ++ ' ' :: tail) [] :=
  Script.yields_word_append hword (by decide) htail fun _ =>
    h.eq_none hname hsigns hword (by decide) hne

end BeginsWith

/-- In a quiet piece nothing is read. -/
theorem silent_of_quiet {α : Type} {read : Reader α} {signs piece : List Char}
    (hread : NeedsSign signs read) (h : quiet signs piece = true) : Silent read piece := by
  intro suffix rest hsuffix hne
  cases hresult : read (suffix ++ rest) with
  | none => rfl
  | some result =>
      obtain ⟨value, unread⟩ := result
      obtain ⟨⟨c, hc, hword⟩, sign, hmem, hsign⟩ := hread _ _ _ hresult
      obtain ⟨d, suffix, rfl⟩ := List.exists_cons_of_ne_nil hne
      obtain rfl : d = c := by simpa using hc
      have hquiet := quiet_of_suffix h hsuffix
      simp only [quiet, Bool.and_eq_true, Bool.or_eq_true, Option.any_eq_true] at hquiet
      rcases hquiet.1 with hnot | ⟨other, hother, hharmless⟩
      · simp [hword] at hnot
      · have heq := hsign.symm.trans (signOf_append_right hother rest)
        obtain rfl := Option.some.inj heq
        simp [hmem] at hharmless

end GradleWorkspace.Script
