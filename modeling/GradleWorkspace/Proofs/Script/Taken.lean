import GradleWorkspace.Proofs.Script.Scan

/-!
# What readers have taken

A reader that succeeds says something about the text that it was given.  This file goes from a
result back to the text.

* `exists_read_of_mem_find` says that what was found in a script was read at its place, and
  `forall_mem_findValues` that what holds of all values of a reader holds of those that it finds.
  What a reader can read, it finds (`mem_find_of_read`), unless it stands in something else.  What
  it finds first stands where it can read something first (`head?_findFrom_eq_some_iff`).
* The theorems from `eq_blanks_append_skipBlanks` on say which text each piece of a statement was
  taken from.  `IsOpening` is the text between a name and its argument.
* `IsLiteralCall` is the text of a call with one string, and `call_literal_eq_some_iff` says that
  these texts are read and no others.
* `literalOffset` is the place of the next string literal, and `wordBefore` the word that a string
  literal is the argument of.
-/

namespace GradleWorkspace.Script

open Text

/-! ## What was found -/

section Found

variable {α : Type} {starts : Option Char → Bool} {read : Reader α}

theorem exists_read_of_mem_findFrom {offset skip : Nat} {previous : Option Char}
    {text : List Char} {found : Located α}
    (h : found ∈ findFrom starts read offset skip previous text) :
    ∃ front place rest, text = front ++ place ∧ found.start = offset + front.length ∧
      found.stop = found.start + (place.length - rest.length) ∧
      starts (front.getLast?.or previous) = true ∧ read place = some (found.value, rest) := by
  induction text generalizing offset skip previous with
  | nil => simp [findFrom] at h
  | cons c text ih =>
      -- The value was found at a later place, one character further from the front.
      have hlater : ∀ skip, found ∈ findFrom starts read (offset + 1) skip (some c) text →
          ∃ front place rest, c :: text = front ++ place ∧ found.start = offset + front.length ∧
            found.stop = found.start + (place.length - rest.length) ∧
            starts (front.getLast?.or previous) = true ∧
              read place = some (found.value, rest) := by
        intro skip hmem
        obtain ⟨front, place, rest, rfl, hstart, hstop, hborder, hread⟩ := ih hmem
        refine ⟨c :: front, place, rest, rfl, ?_, hstop, ?_, hread⟩
        · rw [hstart, List.length_cons]
          omega
        · cases front with
          | nil => exact hborder
          | cons d front => simpa [List.getLast?_cons] using hborder
      cases skip with
      | succ skip =>
          rw [findFrom] at h
          exact hlater skip h
      | zero =>
          rw [findFrom] at h
          split at h
          · exact hlater 0 h
          · next value unread hread =>
            rcases List.mem_cons.1 h with rfl | hmem
            · by_cases hborder : starts previous = true
              · rw [if_pos hborder] at hread
                exact ⟨[], c :: text, unread, rfl, rfl, rfl, hborder, hread⟩
              · rw [if_neg hborder] at hread
                simp at hread
            · exact hlater _ hmem

/-- What was found in a script was read at its place. -/
theorem exists_read_of_mem_find {script : List Char} {found : Located α}
    (h : found ∈ find starts read script) :
    ∃ front place rest, script = front ++ place ∧ found.start = front.length ∧
      starts front.getLast? = true ∧ read place = some (found.value, rest) := by
  obtain ⟨front, place, rest, hscript, hstart, -, hborder, hread⟩ :=
    exists_read_of_mem_findFrom h
  exact ⟨front, place, rest, hscript, by omega, by simpa using hborder, hread⟩

/-- What was found in a script stops where the rest begins that was not read. -/
theorem exists_rest_of_mem_find {script : List Char} {found : Located α}
    (h : found ∈ find starts read script) :
    ∃ front place rest, script = front ++ place ∧
      found.stop = front.length + (place.length - rest.length) ∧
      read place = some (found.value, rest) := by
  obtain ⟨front, place, rest, hscript, hstart, hstop, -, hread⟩ := exists_read_of_mem_findFrom h
  exact ⟨front, place, rest, hscript, by omega, hread⟩

/-- What was read at its place in a script, for each value that is found. -/
theorem exists_read_of_mem_findValues {script : List Char} {value : α}
    (h : value ∈ findValues starts read script) :
    ∃ front place rest, script = front ++ place ∧ starts front.getLast? = true ∧
      read place = some (value, rest) := by
  obtain ⟨found, hfound, rfl⟩ := List.mem_map.1 h
  obtain ⟨front, place, rest, hscript, -, hborder, hread⟩ := exists_read_of_mem_find hfound
  exact ⟨front, place, rest, hscript, hborder, hread⟩

theorem forall_mem_findValues (property : α → Prop)
    (h : ∀ text value rest, read text = some (value, rest) → property value)
    (starts : Option Char → Bool) (script : List Char) :
    ∀ value ∈ findValues starts read script, property value := by
  intro value hvalue
  obtain ⟨_, place, rest, -, -, hread⟩ := exists_read_of_mem_findValues hvalue
  exact h place value rest hread

/-- What is found in a text is found from left to right. -/
theorem pairwise_start_findFrom (offset skip : Nat) (previous : Option Char) (text : List Char) :
    (findFrom starts read offset skip previous text).Pairwise (·.start < ·.start) := by
  induction text generalizing offset skip previous with
  | nil => exact List.Pairwise.nil
  | cons c text ih =>
      cases skip with
      | succ skip => exact ih (offset + 1) skip (some c)
      | zero =>
          rw [findFrom]
          split
          · exact ih (offset + 1) 0 (some c)
          · refine List.pairwise_cons.2 ⟨fun later hlater => ?_, ih (offset + 1) _ (some c)⟩
            obtain ⟨front, -, -, -, hstart, -⟩ := exists_read_of_mem_findFrom hlater
            simp only [hstart]
            omega

/-- The first value that is found is read at the first place where something can be read. -/
theorem head?_findFrom_eq_some_iff (hnil : read [] = none) {offset : Nat} {previous : Option Char}
    {text : List Char} {value : α} :
    (findFrom (fun _ => true) read offset 0 previous text).head?.map Located.value = some value ↔
      ∃ front place rest, text = front ++ place ∧ read place = some (value, rest) ∧
        ∀ before behind, text = before ++ behind → before.length < front.length →
          read behind = none := by
  induction text generalizing offset previous with
  | nil =>
      constructor
      · simp [findFrom]
      · rintro ⟨front, place, rest, htext, hread, -⟩
        obtain ⟨rfl, rfl⟩ := List.append_eq_nil_iff.1 htext.symm
        simp [hnil] at hread
  | cons c text ih =>
      rw [findFrom, if_pos rfl]
      split
      · next hnone =>
        rw [ih]
        constructor
        · rintro ⟨front, place, rest, rfl, hread, hfirst⟩
          refine ⟨c :: front, place, rest, rfl, hread, fun before behind htext hlt => ?_⟩
          cases before with
          | nil =>
              obtain rfl : c :: (front ++ place) = behind := htext
              exact hnone
          | cons d before =>
              exact hfirst before behind (List.cons.inj htext).2 (Nat.lt_of_succ_lt_succ hlt)
        · rintro ⟨front, place, rest, htext, hread, hfirst⟩
          cases front with
          | nil =>
              obtain rfl : c :: text = place := htext
              simp [hnone] at hread
          | cons d front =>
              refine ⟨front, place, rest, (List.cons.inj htext).2, hread,
                fun before behind hbehind hlt => ?_⟩
              exact hfirst (c :: before) behind (congrArg (c :: ·) hbehind)
                (Nat.succ_lt_succ hlt)
      · next found unread hfound =>
        constructor
        · intro hvalue
          obtain rfl : found = value := by simpa using hvalue
          exact ⟨[], c :: text, unread, rfl, hfound, by simp⟩
        · rintro ⟨front, place, rest, htext, hread, hfirst⟩
          cases front with
          | nil =>
              obtain rfl : c :: text = place := htext
              obtain ⟨rfl, -⟩ := by simpa using hfound.symm.trans hread
              rfl
          | cons d front =>
              have hnone := hfirst [] (c :: text) rfl (Nat.succ_pos _)
              simp [hnone] at hfound

/-- Where a reader may start inside of what it takes, it takes nothing. -/
def NeverInside (starts : Option Char → Bool) (read : Reader α) : Prop :=
  ∀ front place value rest, read (front ++ place) = some (value, rest) → front ≠ [] →
    rest.length < place.length → starts front.getLast? = true → read place = none

/-- What can be read at a place is found there, unless the reader stands inside of something else
that it takes. -/
theorem exists_mem_findFrom_of_read (hread : NeverInside starts read) {front place rest : List Char}
    {value : α} {offset skip : Nat} {previous : Option Char} (hskip : skip ≤ front.length)
    (hstarts : starts (front.getLast?.or previous) = true) (hplace : place ≠ [])
    (h : read place = some (value, rest)) :
    ⟨offset + front.length, offset + front.length + (place.length - rest.length), value⟩ ∈
      findFrom starts read offset skip previous (front ++ place) := by
  induction front generalizing offset skip previous with
  | nil =>
      obtain ⟨c, place, rfl⟩ := List.exists_cons_of_ne_nil hplace
      obtain rfl : skip = 0 := Nat.le_zero.1 hskip
      have hstarts : starts previous = true := hstarts
      rw [List.nil_append, findFrom, if_pos hstarts, h]
      exact List.mem_cons_self
  | cons c front ih =>
      have hstarts' : starts (front.getLast?.or (some c)) = true := by
        cases front <;> simpa [List.getLast?_cons] using hstarts
      have hlater : ∀ skip, skip ≤ front.length →
          ⟨offset + (c :: front).length,
            offset + (c :: front).length + (place.length - rest.length), value⟩ ∈
              findFrom starts read (offset + 1) skip (some c) (front ++ place) := by
        intro skip hskip
        have hmem := @ih (offset + 1) skip (some c) hskip hstarts'
        rwa [Nat.add_right_comm, Nat.add_assoc] at hmem
      cases skip with
      | succ skip => exact hlater skip (Nat.le_of_succ_le_succ hskip)
      | zero =>
          rw [List.cons_append, findFrom]
          split
          · exact hlater 0 (Nat.zero_le _)
          · next found unread hfound =>
            refine List.mem_cons_of_mem _ (hlater _ ?_)
            by_contra hlong
            -- Otherwise the place stands inside of what was found.
            have hinside : unread.length < place.length := by
              rw [List.length_append] at hlong
              omega
            split at hfound
            · have hnone := hread (c :: front) place found unread hfound (List.cons_ne_nil _ _)
                hinside (by simpa [List.getLast?_cons] using hstarts)
              simp [h] at hnone
            · simp at hfound

/-- A reader that never reads inside of what it takes finds everything that can be read. -/
theorem mem_find_of_read (hread : NeverInside starts read) {front place rest : List Char}
    {value : α} (hstarts : starts front.getLast? = true) (hplace : place ≠ [])
    (h : read place = some (value, rest)) :
    ⟨front.length, front.length + (place.length - rest.length), value⟩ ∈
      find starts read (front ++ place) := by
  have hmem := @exists_mem_findFrom_of_read α starts read hread front place rest value 0 0 none
    (Nat.zero_le _) (by simpa using hstarts) hplace h
  rwa [Nat.zero_add] at hmem

end Found

/-! ## Pieces of statements -/

section Pieces

variable {text rest : List Char}

theorem eq_blanks_append_skipBlanks (text : List Char) :
    ∃ blanks, (∀ c ∈ blanks, isBlank c = true) ∧ text = blanks ++ skipBlanks text :=
  ⟨text.takeWhile isBlank, fun _ hc => List.mem_takeWhile_imp hc,
    List.takeWhile_append_dropWhile.symm⟩

theorem forall_of_run {inClass : Char → Bool} {value : List Char}
    (h : run inClass text = some (value, rest)) : ∀ c ∈ value, inClass c = true := by
  unfold run at h
  split at h
  · simp at h
  · next c cs heq =>
    obtain ⟨rfl, rfl⟩ := by simpa using h
    intro d hd
    exact List.mem_takeWhile_imp (heq ▸ hd)

/-- A word that was taken is a word. -/
theorem isWord_of_run {word : List Char} (h : run isWordChar text = some (word, rest)) :
    IsWord word := ⟨(eq_append_of_run h).2, forall_of_run h⟩

theorem eq_append_of_afterSpaced {sign : String} (h : afterSpaced sign text = some rest) :
    ∃ before after, (∀ c ∈ before, isBlank c = true) ∧ (∀ c ∈ after, isBlank c = true) ∧
      text = before ++ (sign.toList ++ (after ++ rest)) := by
  obtain ⟨middle, hnext, rfl⟩ := Option.map_eq_some_iff.1 h
  obtain ⟨before, hbefore, htext⟩ := eq_blanks_append_skipBlanks text
  obtain ⟨after, hafter, hmiddle⟩ := eq_blanks_append_skipBlanks middle
  refine ⟨before, after, hbefore, hafter, ?_⟩
  rw [htext, eq_append_of_after hnext, ← hmiddle]

/-- The content of a string literal is not empty and has no quotes. -/
def IsContent (content : List Char) : Prop := content ≠ [] ∧ ∀ c ∈ content, isQuote c = false

theorem of_literal {content : List Char} (h : literal text = some (content, rest)) :
    IsContent content ∧ ∃ opening closing, isQuote opening = true ∧ isQuote closing = true ∧
      text = opening :: (content ++ closing :: rest) := by
  unfold literal at h
  split at h
  · simp at h
  · next opening body =>
    split at h
    · next hopening =>
      obtain ⟨⟨value, tail⟩, hrun, h⟩ := Option.bind_eq_some_iff.1 h
      obtain ⟨hbody, hne⟩ := eq_append_of_run hrun
      have hclass := forall_of_run hrun
      cases tail with
      | nil => simp at h
      | cons closing tail =>
        obtain ⟨rfl, rfl⟩ := by simpa using h
        have hclosing : isQuote closing = true := by
          have hhead := List.head?_dropWhile_not (fun c => !isQuote c) body
          unfold run at hrun
          split at hrun
          · simp at hrun
          · obtain ⟨-, hdrop⟩ := by simpa using hrun
            simpa [hdrop] using hhead
        exact ⟨⟨hne, fun c hc => by simpa using hclass c hc⟩, opening, closing, hopening,
          hclosing, by rw [hbody]⟩
    · simp at h

/-- The text between a name and its argument: blanks, and perhaps a parenthesis among them. -/
inductive IsOpening : List Char → Prop
  | blanks (blanks : List Char) (hblanks : ∀ c ∈ blanks, isBlank c = true) : IsOpening blanks
  | parenthesis (before after : List Char) (hbefore : ∀ c ∈ before, isBlank c = true)
    (hafter : ∀ c ∈ after, isBlank c = true) : IsOpening (before ++ '(' :: after)

theorem eq_append_optionalOpening (text : List Char) :
    ∃ opening, IsOpening opening ∧ text = opening ++ optionalOpening text := by
  obtain ⟨before, hbefore, htext⟩ := eq_blanks_append_skipBlanks text
  unfold optionalOpening optionally
  cases hafter : after "(" (skipBlanks text) with
  | none =>
      obtain ⟨more, hmore, hrest⟩ := eq_blanks_append_skipBlanks (skipBlanks text)
      refine ⟨before ++ more, .blanks _ ?_, ?_⟩
      · exact List.forall_mem_append.2 ⟨hbefore, hmore⟩
      · rw [Option.getD_none, List.append_assoc, ← hrest, ← htext]
  | some rest =>
      obtain ⟨more, hmore, hrest⟩ := eq_blanks_append_skipBlanks rest
      refine ⟨before ++ '(' :: more, .parenthesis before more hbefore hmore, ?_⟩
      have hparenthesis := eq_append_of_after hafter
      rw [Option.getD_some, List.append_assoc, List.cons_append, ← hrest]
      rw [hparenthesis] at htext
      exact htext

theorem exists_argument_of_call {α : Type} {name : String} {argument : Reader α} {value : α}
    (h : call name argument text = some (value, rest)) :
    ∃ unread inside tail, text = name.toList ++ unread ∧ afterSpaced "(" unread = some inside ∧
      argument inside = some (value, tail) := by
  obtain ⟨unread, hname, h⟩ := Option.bind_eq_some_iff.1 h
  obtain ⟨inside, hopen, h⟩ := Option.bind_eq_some_iff.1 h
  obtain ⟨⟨found, tail⟩, hargument, h⟩ := Option.bind_eq_some_iff.1 h
  obtain ⟨last, -, h⟩ := Option.bind_eq_some_iff.1 h
  obtain ⟨rfl, rfl⟩ := by simpa using h
  exact ⟨unread, inside, tail, eq_append_of_after hname, hopen, hargument⟩

theorem of_call {α : Type} {name : String} {argument : Reader α} {value : α}
    (h : call name argument text = some (value, rest)) :
    ∃ opening inside tail, IsOpening opening ∧ text = name.toList ++ (opening ++ inside) ∧
      argument inside = some (value, tail) := by
  obtain ⟨unread, inside, tail, rfl, hopen, hargument⟩ := exists_argument_of_call h
  obtain ⟨before, after, hbefore, hafter, rfl⟩ := eq_append_of_afterSpaced hopen
  exact ⟨before ++ '(' :: after, inside, tail, .parenthesis before after hbefore hafter, by simp,
    hargument⟩

end Pieces

/-! ## Places of string literals -/

section Literals

variable {text : List Char}

/-- The offset of the first quote that stands in a text at an offset or after it. -/
def literalOffset (text : List Char) (start : Nat) : Nat :=
  start + ((text.drop start).takeWhile fun c => !isQuote c).length

theorem literalOffset_append {front before rest : List Char} {quote : Char}
    (hbefore : ∀ c ∈ before, isQuote c = false) (hquote : isQuote quote = true) :
    literalOffset (front ++ (before ++ quote :: rest)) front.length =
      (front ++ before).length := by
  have htake : (before ++ quote :: rest).takeWhile (fun c => !isQuote c) = before := by
    rw [List.takeWhile_append_of_pos (fun c hc => by simp [hbefore c hc]), List.takeWhile_cons,
      if_neg (by simp [hquote]), List.append_nil]
  rw [literalOffset, List.drop_left, htake, List.length_append]

/-- A class of characters without the two quotes has no quote. -/
theorem isQuote_eq_false_of_class {inClass : Char → Bool}
    (hnone : ∀ quote ∈ ['"', '\''], inClass quote = false) {c : Char} (h : inClass c = true) :
    isQuote c = false := by
  cases hquote : isQuote c with
  | false => rfl
  | true =>
      have hmem : c ∈ ['"', '\''] := by simpa [isQuote] using hquote
      simp [hnone c hmem] at h

theorem isQuote_eq_false_of_isBlank {c : Char} (h : isBlank c = true) : isQuote c = false :=
  isQuote_eq_false_of_class (by decide) h

theorem isBlank_eq_false_of_isQuote {c : Char} (h : isQuote c = true) : isBlank c = false := by
  cases hblank : isBlank c with
  | false => rfl
  | true => simp [isQuote_eq_false_of_isBlank hblank] at h

theorem isQuote_eq_false_of_isWordChar {c : Char} (h : isWordChar c = true) :
    isQuote c = false := isQuote_eq_false_of_class (by decide) h

theorem IsOpening.isQuote_eq_false {opening : List Char} (h : IsOpening opening) :
    ∀ c ∈ opening, isQuote c = false := by
  cases h with
  | blanks blanks hblanks => exact fun c hc => isQuote_eq_false_of_isBlank (hblanks c hc)
  | parenthesis before after hbefore hafter =>
      intro c hc
      rcases List.mem_append.1 hc with hc | hc
      · exact isQuote_eq_false_of_isBlank (hbefore c hc)
      · rcases List.mem_cons.1 hc with rfl | hc
        · rfl
        · exact isQuote_eq_false_of_isBlank (hafter c hc)

/-- The word at the end of a text, with blanks and perhaps a parenthesis after it. -/
def wordBefore (text : List Char) : List Char :=
  let front := text.reverse.dropWhile isBlank
  ((optionally (after "(") front).dropWhile isBlank |>.takeWhile isWordChar).reverse

theorem dropWhile_reverse_append {front blanks : List Char}
    (hblanks : ∀ c ∈ blanks, isBlank c = true)
    (hlast : ∀ c ∈ front.getLast?, isBlank c = false) :
    (front ++ blanks).reverse.dropWhile isBlank = front.reverse := by
  rw [List.reverse_append,
    List.dropWhile_append_of_pos fun c hc => hblanks c (List.mem_reverse.1 hc)]
  cases hreverse : front.reverse with
  | nil => rfl
  | cons c rest =>
      have hc : front.getLast? = some c := by
        rw [← List.head?_reverse, hreverse, List.head?_cons]
      rw [List.dropWhile_cons, if_neg (by simp [hlast c hc])]

theorem wordBefore_append {front opening : List Char} (hopening : IsOpening opening)
    (hlast : ∀ c ∈ front.getLast?, isBlank c = false ∧ c ≠ '(') :
    wordBefore (front ++ opening) = (front.reverse.takeWhile isWordChar).reverse := by
  have hblank : ∀ c ∈ front.getLast?, isBlank c = false := fun c hc => (hlast c hc).1
  cases hopening with
  | blanks blanks hblanks =>
      have hnone : after "(" front.reverse = none := by
        refine after_eq_none ?_
        rintro ⟨tail, htail⟩
        have hhead : front.getLast? = some '(' := by
          rw [← List.head?_reverse, ← htail]
          rfl
        exact (hlast _ hhead).2 rfl
      have hdrop := @dropWhile_reverse_append front [] (by simp) hblank
      rw [List.append_nil] at hdrop
      rw [wordBefore, dropWhile_reverse_append hblanks hblank, optionally, hnone,
        Option.getD_none, hdrop]
  | parenthesis before after hbefore hafter =>
      have hshape : front ++ (before ++ '(' :: after) = front ++ before ++ ['('] ++ after := by
        simp
      have hsome : Script.after "(" (front ++ before ++ ['(']).reverse =
          some (front ++ before).reverse := by
        rw [List.reverse_append]
        exact after_append "(" _
      have hparenthesis : isBlank '(' = false := by decide
      rw [wordBefore, hshape, dropWhile_reverse_append hafter (by simp [hparenthesis]),
        optionally, hsome, Option.getD_some, dropWhile_reverse_append hbefore hblank]

/-- Before a sign that belongs to no name, no word stands. -/
theorem wordBefore_sign {front blanks : List Char} {sign : Char}
    (hblanks : ∀ c ∈ blanks, isBlank c = true) (hsign : isWordChar sign = false)
    (hblank : isBlank sign = false) (hne : sign ≠ '(') :
    wordBefore (front ++ (sign :: blanks)) = [] := by
  have hlast : ∀ c ∈ (front ++ [sign]).getLast?, isBlank c = false ∧ c ≠ '(' := by
    simp [hblank, hne]
  have hshape : front ++ (sign :: blanks) = front ++ [sign] ++ blanks := by simp
  rw [hshape, wordBefore_append (.blanks blanks hblanks) hlast]
  simp [hsign]

end Literals

/-! ## Calls with one string -/

section Calls

variable {name : String} {content : List Char}

/-- The text of a call with one string, as in `id("java")`. -/
def IsLiteralCall (name : String) (content written : List Char) : Prop :=
  ∃ before inside behind opening closing, (∀ c ∈ before ++ inside ++ behind, isBlank c = true) ∧
    IsContent content ∧ isQuote opening = true ∧ isQuote closing = true ∧
    written = name.toList ++ (before ++ '(' ::
      (inside ++ opening :: (content ++ closing :: (behind ++ [')']))))

theorem literal_of_isContent {opening closing : Char} (hopening : isQuote opening = true)
    (hcontent : IsContent content) (hclosing : isQuote closing = true) (rest : List Char) :
    literal (opening :: (content ++ closing :: rest)) = some (content, rest) := by
  have hrun : run (fun c => !isQuote c) (content ++ closing :: rest) =
      some (content, closing :: rest) :=
    run_append (fun c hc => by simp [hcontent.2 c hc]) hcontent.1 (by simp [hclosing])
  simp [literal, hopening, hrun]

/-- Calls with one string are read, and nothing else. -/
theorem call_literal_eq_some_iff {text rest : List Char} :
    call name literal text = some (content, rest) ↔
      ∃ written, IsLiteralCall name content written ∧ text = written ++ rest := by
  constructor
  · intro h
    obtain ⟨unread, hname, h⟩ := Option.bind_eq_some_iff.1 h
    obtain ⟨argument, hopen, h⟩ := Option.bind_eq_some_iff.1 h
    obtain ⟨⟨found, tail⟩, hliteral, h⟩ := Option.bind_eq_some_iff.1 h
    obtain ⟨last, hclose, h⟩ := Option.bind_eq_some_iff.1 h
    obtain ⟨rfl, rfl⟩ := by simpa using h
    obtain ⟨hcontent, opening, closing, hopening, hclosing, rfl⟩ := of_literal hliteral
    obtain ⟨before, inside, hbefore, hinside, rfl⟩ := eq_append_of_afterSpaced hopen
    obtain ⟨behind, hbehind, htail⟩ := eq_blanks_append_skipBlanks tail
    refine ⟨_, ⟨before, inside, behind, opening, closing, ?_, hcontent, hopening, hclosing, rfl⟩,
      ?_⟩
    · exact List.forall_mem_append.2 ⟨List.forall_mem_append.2 ⟨hbefore, hinside⟩, hbehind⟩
    · rw [eq_append_of_after hname, htail, eq_append_of_after hclose]
      simp
  · rintro ⟨written, ⟨before, inside, behind, opening, closing, hblanks, hcontent, hopening,
      hclosing, rfl⟩, rfl⟩
    obtain ⟨hfront, hbehind⟩ := List.forall_mem_append.1 hblanks
    obtain ⟨hbefore, hinside⟩ := List.forall_mem_append.1 hfront
    have hopen : ∀ more, afterSpaced "(" (before ++ '(' :: (inside ++ opening :: more)) =
        some (opening :: more) := fun more =>
      afterSpaced_append_cons rfl (by decide) hbefore hinside
        (isBlank_eq_false_of_isQuote hopening) more
    have hclose : next ")" (behind ++ ')' :: rest) = some rest := by
      rw [next, skipBlanks_append_cons hbehind (by decide)]
      exact after_append ")" rest
    simp only [List.append_assoc, List.cons_append, List.nil_append]
    rw [call, after_append]
    simp only [Option.bind_eq_bind, Option.bind_some, hopen, hclose,
      literal_of_isContent hopening hcontent hclosing]
    rfl

end Calls

end GradleWorkspace.Script
