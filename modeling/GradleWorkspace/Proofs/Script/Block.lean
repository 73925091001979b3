import GradleWorkspace.Proofs.Script.Mask
import GradleWorkspace.Proofs.Script.Scan
import GradleWorkspace.Script.Block

/-!
# Finding blocks in a text made of pieces

A block is written as a keyword and a body in braces.

* `Flat` pieces have neither comments nor braces, and `Balanced` pieces close the braces that they
  open; the bodies of blocks are of these kinds.
* `findBlock_append` finds the body of a block in a text in which no other block with the keyword
  stands, and `findBlock_blockText` finds the body of a block at the front of a text whatever it
  holds.
* `Outlines` says what is left of a piece of text when the insides of all braces are blanked, and
  `topLevel_flatMap` puts this together.
-/

namespace GradleWorkspace.Script

open Text

/-! ## The text of a block -/

/-- A block: a keyword and a body in braces. -/
def blockText (keyword : String) (body : List Char) : List Char :=
  keyword.toList ++ [' ', '{'] ++ body ++ ['}', '\n']

theorem isCode_of_isWordChar {c : Char} (h : isWordChar c = true) : isCode c = true := by
  have hnone : ∀ d ∈ ['"', '\'', '/'], isWordChar d = false := by decide
  have hdouble : c ≠ '"' := by rintro rfl; simp [hnone] at h
  have hsingle : c ≠ '\'' := by rintro rfl; simp [hnone] at h
  have hslash : c ≠ '/' := by rintro rfl; simp [hnone] at h
  simp [isCode, isQuote, hdouble, hsingle, hslash]

theorem ne_brace_of_isWordChar {c : Char} (h : isWordChar c = true) : c ≠ '{' ∧ c ≠ '}' := by
  have hnone : ∀ d ∈ ['{', '}'], isWordChar d = false := by decide
  constructor <;> rintro rfl <;> simp [hnone] at h

/-! ## Text without comments and braces -/

/-- A piece of a script that has no comments and no braces and leaves the reading outside
strings. -/
structure Flat (text : List Char) : Prop where
  uncommented : Uncommented text
  ne_brace : ∀ c ∈ text, c ≠ '{' ∧ c ≠ '}'

theorem flat_nil : Flat [] := ⟨uncommented_nil, by simp⟩

theorem Flat.append {first second : List Char} (h : Flat first) (h' : Flat second) :
    Flat (first ++ second) where
  uncommented := h.uncommented.append h'.uncommented
  ne_brace c hc := (List.mem_append.1 hc).elim (h.ne_brace c) (h'.ne_brace c)

theorem flat_flatMap {α : Type} {items : List α} {piece : α → List Char}
    (h : ∀ item ∈ items, Flat (piece item)) : Flat (items.flatMap piece) := by
  induction items with
  | nil => exact flat_nil
  | cons item rest ih =>
      rw [List.flatMap_cons]
      exact (h item List.mem_cons_self).append
        (ih fun other hother => h other (List.mem_cons_of_mem _ hother))

theorem flat_of_forall {text : List Char}
    (h : ∀ c ∈ text, isCode c = true ∧ c ≠ '{' ∧ c ≠ '}') : Flat text where
  uncommented := uncommented_of_isCode fun c hc => (h c hc).1
  ne_brace c hc := (h c hc).2

theorem flat_of_isWordChar {text : List Char} (h : ∀ c ∈ text, isWordChar c = true) :
    Flat text :=
  flat_of_forall fun c hc => ⟨isCode_of_isWordChar (h c hc), ne_brace_of_isWordChar (h c hc)⟩

theorem flat_inQuotes {quote : Char} {content : List Char} (hquote : isQuote quote = true)
    (hcontent : ∀ c ∈ content, isPlain c = true ∧ c ≠ '{' ∧ c ≠ '}') (hne : content ≠ []) :
    Flat (inQuotes quote content) where
  uncommented := uncommented_inQuotes hquote (fun c hc => (hcontent c hc).1) hne
  ne_brace c hc := by
    have hbrace : c = quote → c ≠ '{' ∧ c ≠ '}' := by
      rintro rfl
      constructor <;> rintro rfl <;> simp [isQuote] at hquote
    simp only [inQuotes, List.mem_cons, List.mem_append, List.not_mem_nil, or_false] at hc
    rcases hc with hc | hc | hc
    · exact hbrace hc
    · exact (hcontent c hc).2
    · exact hbrace hc

/-- Masked text has no braces either. -/
theorem Flat.ne_brace_mask {text : List Char} (h : Flat text) :
    ∀ c ∈ mask text, c ≠ '{' ∧ c ≠ '}' := by
  intro c hc
  rcases mem_mask hc with hc | rfl
  · exact h.ne_brace c hc
  · decide

/-! ## Text with braces in pairs -/

/-- A piece of a script that has no comments, closes each brace that it opens, and opens each brace
that it closes. -/
inductive Balanced : List Char → Prop
  | flat {text : List Char} : Flat text → Balanced text
  | append {first second : List Char} :
      Balanced first → Balanced second → Balanced (first ++ second)
  | braces {body : List Char} : Balanced body → Balanced ('{' :: (body ++ ['}']))

theorem balanced_flatMap {α : Type} {items : List α} {piece : α → List Char}
    (h : ∀ item ∈ items, Balanced (piece item)) : Balanced (items.flatMap piece) := by
  induction items with
  | nil => exact .flat flat_nil
  | cons item rest ih =>
      rw [List.flatMap_cons]
      exact .append (h item List.mem_cons_self)
        (ih fun other hother => h other (List.mem_cons_of_mem _ hother))

theorem Balanced.uncommented {text : List Char} (h : Balanced text) : Uncommented text := by
  induction h with
  | flat h => exact h.uncommented
  | append _ _ ih ih' => exact ih.append ih'
  | braces _ ih =>
      have hopen : Uncommented ['{'] := uncommented_of_isCode (by decide)
      have hclose : Uncommented ['}'] := uncommented_of_isCode (by decide)
      exact hopen.append (ih.append hclose)

theorem mask_braces {body : List Char} (h : EndsInCode body) :
    mask ('{' :: (body ++ ['}'])) = '{' :: (mask body ++ ['}']) := by
  rw [mask, maskFrom_code_cons (by decide), h, @maskFrom_code ['}'] (by decide), mask]

/-- Characters other than braces count as they stand. -/
theorem bodyLength_append {body : List Char} (h : ∀ c ∈ body, c ≠ '{' ∧ c ≠ '}') (depth : Nat)
    (rest : List Char) :
    bodyLength depth (body ++ rest) = body.length + bodyLength depth rest := by
  induction body with
  | nil => simp
  | cons c body ih =>
      obtain ⟨hopen, hclose⟩ := h c List.mem_cons_self
      have hstep : bodyLength depth (c :: (body ++ rest)) =
          bodyLength depth (body ++ rest) + 1 := by
        rw [bodyLength.eq_def]
        simp [hopen, hclose]
      rw [List.cons_append, hstep, ih fun d hd => h d (List.mem_cons_of_mem _ hd),
        List.length_cons, Nat.add_right_comm]

/-- A balanced piece belongs to the body in which it stands, however deep. -/
theorem Balanced.bodyLength_append {text : List Char} (h : Balanced text) (depth : Nat)
    (rest : List Char) :
    bodyLength depth (mask text ++ rest) = text.length + bodyLength depth rest := by
  induction h generalizing depth rest with
  | flat h => rw [Script.bodyLength_append h.ne_brace_mask, length_mask]
  | append h _ ih ih' =>
      rw [mask_append h.uncommented.endsInCode, List.append_assoc, ih, ih', List.length_append,
        Nat.add_assoc]
  | @braces body h ih =>
      have hopen : bodyLength depth ('{' :: (mask body ++ '}' :: rest)) =
          bodyLength (depth + 1) (mask body ++ '}' :: rest) + 1 := by simp [bodyLength]
      have hclose : bodyLength (depth + 1) ('}' :: rest) = bodyLength depth rest + 1 := by
        simp [bodyLength]
      rw [mask_braces h.uncommented.endsInCode, List.cons_append, List.append_assoc,
        List.singleton_append, hopen, ih, hclose]
      simp only [List.length_cons, List.length_append, List.length_nil]
      omega

section

variable {keyword : String} {body : List Char}

theorem isCode_opening (hkeyword : IsWord keyword.toList) :
    ∀ c ∈ keyword.toList ++ [' ', '{'], isCode c = true := by
  intro c hc
  rcases List.mem_append.1 hc with hc | hc
  · exact isCode_of_isWordChar (hkeyword.2 c hc)
  · simp only [List.mem_cons, List.not_mem_nil, or_false] at hc
    rcases hc with rfl | rfl <;> decide

theorem uncommented_blockText (hkeyword : IsWord keyword.toList) (hbody : Uncommented body) :
    Uncommented (blockText keyword body) :=
  ((uncommented_of_isCode (isCode_opening hkeyword)).append hbody).append
    (uncommented_of_isCode (by decide))

theorem maskFrom_blockText (hkeyword : IsWord keyword.toList) (hbody : EndsInCode body)
    (inside : Char → Char) :
    maskFrom inside .code (blockText keyword body) =
      blockText keyword (maskFrom inside .code body) := by
  rw [blockText, (endsInCode_of_isCode (isCode_opening hkeyword)).append hbody,
    endsInCode_of_isCode (isCode_opening hkeyword), maskFrom_code (isCode_opening hkeyword),
    @maskFrom_code ['}', '\n'] (by decide), blockText]

theorem mask_blockText (hkeyword : IsWord keyword.toList) (hbody : EndsInCode body) :
    mask (blockText keyword body) = blockText keyword (mask body) :=
  maskFrom_blockText hkeyword hbody blank

/-! ## The body of a block -/

theorem next_brace (rest : List Char) : next "\x7b" (' ' :: '{' :: rest) = some rest := by
  rw [next, skipBlanks_of_isBlank (by decide), skipBlanks_cons (by decide)]
  exact after_append "\x7b" rest

theorem readOpening_append (rest : List Char) :
    readOpening keyword (keyword.toList ++ [' ', '{'] ++ rest) = some ((), rest) := by
  rw [readOpening, List.append_assoc, after_append]
  simp [next_brace]

theorem beginsWith_readOpening (keyword : String) :
    BeginsWith keyword ['{'] (readOpening keyword) := by
  intro text value rest h
  obtain ⟨unread, hafter, h⟩ := Option.bind_eq_some_iff.1 h
  obtain ⟨tail, hnext, -⟩ := Option.bind_eq_some_iff.1 h
  exact ⟨unread, '{', tail, eq_append_of_after hafter, List.mem_singleton_self _,
    eq_append_of_after hnext⟩

theorem isWordChar_brace : ∀ sign ∈ ['{'], isWordChar sign = false := by decide

theorem needsSign_readOpening (hkeyword : IsWord keyword.toList) :
    NeedsSign ['{'] (readOpening keyword) :=
  (beginsWith_readOpening keyword).needsSign hkeyword isWordChar_brace

/-- A reader that takes a piece between texts in which it finds nothing finds this piece only. -/
theorem find_eq_singleton {α : Type} {starts : Option Char → Bool} {read : Reader α}
    {before piece after : List Char} {value : α} (hbefore : Yields starts read before [])
    (hread : read (piece ++ after) = some (value, after)) (hne : piece ≠ [])
    (hlast : ∀ c ∈ piece.getLast?, starts (some c) = true) (hafter : Yields starts read after [])
    (hstart : starts none = true) :
    find starts read (before ++ (piece ++ after)) =
      [⟨before.length, before.length + piece.length, value⟩] := by
  obtain ⟨found, previous, hprevious, hfound, heq⟩ := hbefore 0 none (piece ++ after) hstart
  have hpiece := findFrom_of_read hread hne (0 + before.length) hprevious
  obtain ⟨found', _, -, hfound', heq'⟩ := hafter (0 + before.length + piece.length)
    (piece.getLast?.or previous) [] (starts_getLast?_or hlast hprevious)
  rw [List.append_nil] at heq'
  rw [List.map_eq_nil_iff] at hfound hfound'
  rw [find, heq, hpiece, heq', hfound, hfound', Nat.zero_add]
  rfl

/-- After the opening of a block without braces in its body no block begins. -/
theorem silent_body (hkeyword : IsWord keyword.toList) (hbody : ∀ c ∈ body, c ≠ '{' ∧ c ≠ '}') :
    Silent (readOpening keyword) (body ++ ['}', '\n']) := by
  have hquiet : quiet ['{'] (body ++ ['}'] ++ ['\n']) = true :=
    quiet_append
      (quiet_of_forall_notMem (fun c hc => by simpa using (hbody c hc).1) (by decide)
        (by decide) (by decide))
      (by decide)
  rw [List.append_assoc] at hquiet
  exact silent_of_quiet (needsSign_readOpening hkeyword) hquiet

theorem yields_body (hkeyword : IsWord keyword.toList) (hbody : ∀ c ∈ body, c ≠ '{' ∧ c ≠ '}') :
    Yields isNameBorder (readOpening keyword) (body ++ ['}', '\n']) [] := by
  have hlast : (body ++ ['}', '\n']).getLast? = some '\n' := by simp
  exact (silent_body hkeyword hbody).yields_of_getLast? hlast (by decide)

/-- The body of a block, closed by its brace, in which no block with a keyword begins. -/
structure IsBody (keyword : String) (body : List Char) : Prop where
  balanced : Balanced body
  yields_nil : Yields isNameBorder (readOpening keyword) (mask body ++ ['}', '\n']) []

theorem Flat.isBody (h : Flat body) (hkeyword : IsWord keyword.toList) : IsBody keyword body :=
  ⟨.flat h, yields_body hkeyword h.ne_brace_mask⟩

/-- A block begins with its own keyword only. -/
theorem IsBody.yields_blockText_of_ne {other : String} (hbody : IsBody keyword body)
    (hkeyword : IsWord keyword.toList) (hother : IsWord other.toList)
    (h : ¬keyword.toList <:+ other.toList) :
    Yields isNameBorder (readOpening keyword) (mask (blockText other body)) [] := by
  have hbrace : Yields isNameBorder (readOpening keyword) ['{'] [] :=
    (needsSign_readOpening hkeyword).needsWord.yields (by decide) rfl (by decide)
  have hblock := (beginsWith_readOpening keyword).yields_word_append hkeyword isWordChar_brace
    hother (fun heq => h (heq ▸ List.suffix_rfl)) (hbrace.append hbody.yields_nil)
  rw [mask_blockText hother hbody.balanced.uncommented.endsInCode]
  simpa [blockText] using hblock

theorem yields_blockText_of_ne {other : String} (hkeyword : IsWord keyword.toList)
    (hother : IsWord other.toList) (h : ¬keyword.toList <:+ other.toList) (hbody : Flat body) :
    Yields isNameBorder (readOpening keyword) (mask (blockText other body)) [] :=
  (hbody.isBody hkeyword).yields_blockText_of_ne hkeyword hother h

variable {before after : List Char}

/-- Texts before and after a block in which no block with the same keyword begins. -/
structure Surrounds (keyword : String) (before after : List Char) : Prop where
  endsInCode : EndsInCode before
  yields_before : Yields isNameBorder (readOpening keyword) (mask before) []
  yields_after : Yields isNameBorder (readOpening keyword) (mask after) []

/-- In a text with a single block of a keyword, the body of this block is found. -/
theorem findBlock_append (hkeyword : IsWord keyword.toList) (h : Surrounds keyword before after)
    (hbody : IsBody keyword body) :
    findBlock keyword (before ++ blockText keyword body ++ after) =
      some (before.length + (keyword.toList ++ [' ', '{']).length,
        before.length + (keyword.toList ++ [' ', '{']).length + body.length) := by
  have hmask : mask (before ++ blockText keyword body ++ after) =
      mask before ++ ((keyword.toList ++ [' ', '{']) ++
        (mask body ++ ['}', '\n'] ++ mask after)) := by
    rw [List.append_assoc, mask_append h.endsInCode,
      mask_append (uncommented_blockText hkeyword hbody.balanced.uncommented).endsInCode,
      mask_blockText hkeyword hbody.balanced.uncommented.endsInCode, blockText]
    simp only [List.append_assoc]
  have hfind : find isNameBorder (readOpening keyword)
      (mask (before ++ blockText keyword body ++ after)) =
        [⟨before.length, before.length + (keyword.toList ++ [' ', '{']).length, ()⟩] := by
    rw [hmask, ← length_mask before]
    refine find_eq_singleton h.yields_before (readOpening_append _) (by simp) ?_ ?_ rfl
    · intro c hc
      obtain rfl : '{' = c := by simpa using hc
      decide
    · exact hbody.yields_nil.append h.yields_after
  have hdrop : (mask (before ++ blockText keyword body ++ after)).drop
      (before.length + (keyword.toList ++ [' ', '{']).length) =
        mask body ++ '}' :: ('\n' :: mask after) := by
    rw [hmask, ← length_mask before, ← List.append_assoc, ← List.length_append, List.drop_left]
    simp
  have hbodyLength : bodyLength 0 (mask body ++ '}' :: ('\n' :: mask after)) = body.length := by
    rw [hbody.balanced.bodyLength_append]
    simp [bodyLength]
  unfold findBlock
  simp only [hfind, List.find?_singleton, List.head?_cons]
  split <;>
    simp only [Option.some_or, Option.none_or, Option.map_some, hdrop, hbodyLength]

/-- The body of a block at the front of a script is found, whatever blocks it holds. -/
theorem findBlock_blockText (hkeyword : IsWord keyword.toList) (hbody : Balanced body) :
    findBlock keyword (blockText keyword body) =
      some ((keyword.toList ++ [' ', '{']).length,
        (keyword.toList ++ [' ', '{']).length + body.length) := by
  have hmask : mask (blockText keyword body) =
      (keyword.toList ++ [' ', '{']) ++ (mask body ++ ['}', '\n']) := by
    rw [mask_blockText hkeyword hbody.uncommented.endsInCode, blockText]
    simp only [List.append_assoc]
  obtain ⟨later, hfind⟩ : ∃ later, find isNameBorder (readOpening keyword)
      (mask (blockText keyword body)) =
        ⟨0, (keyword.toList ++ [' ', '{']).length, ()⟩ :: later := by
    rw [hmask, find, findFrom_of_read (readOpening_append _) (by simp) 0 rfl, Nat.zero_add]
    exact ⟨_, rfl⟩
  have hdrop : (mask (blockText keyword body)).drop (keyword.toList ++ [' ', '{']).length =
      mask body ++ '}' :: ['\n'] := by
    rw [hmask, List.drop_left]
  have hlength : bodyLength 0 (mask body ++ '}' :: ['\n']) = body.length := by
    rw [hbody.bodyLength_append]
    simp [bodyLength]
  -- No brace stands before the block.
  have houter : closesBraces ((mask (blockText keyword body)).take 0) = true := by
    simp [closesBraces]
  unfold findBlock
  simp only [hfind, List.find?_cons, houter, Option.some_or, Option.map_some, hdrop, hlength]

theorem findBlock_eq_none {text : List Char}
    (h : Yields isNameBorder (readOpening keyword) (mask text) []) :
    findBlock keyword text = none := by
  have hfind : find isNameBorder (readOpening keyword) (mask text) = [] := by
    have hvalues := h.findValues_eq rfl
    rwa [findValues, List.map_eq_nil_iff] at hvalues
  unfold findBlock
  simp [hfind]

theorem blockBody_append (hkeyword : IsWord keyword.toList) (h : Surrounds keyword before after)
    (hbody : IsBody keyword body) :
    blockBody keyword (before ++ blockText keyword body ++ after) = some body := by
  have hsplit : before ++ blockText keyword body ++ after =
      before ++ (keyword.toList ++ [' ', '{']) ++ body ++ (['}', '\n'] ++ after) := by
    simp [blockText]
  rw [blockBody, findBlock_append hkeyword h hbody]
  simp only [Option.map_some, slice, Option.some.injEq]
  rw [hsplit, ← List.length_append, ← List.length_append, List.take_left, List.drop_left]

theorem blockBody_blockText (hkeyword : IsWord keyword.toList) (hbody : Balanced body) :
    blockBody keyword (blockText keyword body) = some body := by
  rw [blockBody, findBlock_blockText hkeyword hbody, Option.map_some]
  simp only [slice, Option.some.injEq]
  rw [blockText, ← List.length_append, List.take_left, List.drop_left]

theorem withoutBlockBody_append (hkeyword : IsWord keyword.toList)
    (h : Surrounds keyword before after) (hbody : Flat body) :
    withoutBlockBody keyword (before ++ blockText keyword body ++ after) =
      before ++ blockText keyword [] ++ after := by
  have hsplit : before ++ blockText keyword body ++ after =
      before ++ (keyword.toList ++ [' ', '{']) ++ (body ++ (['}', '\n'] ++ after)) := by
    simp [blockText]
  rw [withoutBlockBody, findBlock_append hkeyword h (hbody.isBody hkeyword)]
  simp only
  rw [hsplit, ← List.length_append, List.take_left, ← List.drop_drop, List.drop_left,
    List.drop_left]
  simp [blockText]

end

/-! ## The text outside all braces -/

/-- What is left of a piece of text outside all braces. -/
def Outlines (text shown : List Char) : Prop :=
  ∀ masked rest : List Char,
    outline 0 (mask text ++ masked) (text ++ rest) = shown ++ outline 0 masked rest

theorem topLevel_flatMap {α : Type} {items : List α} {piece shown : α → List Char}
    (hcode : ∀ item ∈ items, EndsInCode (piece item))
    (h : ∀ item ∈ items, Outlines (piece item) (shown item)) :
    topLevel (items.flatMap piece) = items.flatMap shown := by
  rw [topLevel, mask, maskFrom_flatMap blank hcode]
  induction items with
  | nil => rfl
  | cons item rest ih =>
      rw [List.flatMap_cons, List.flatMap_cons, List.flatMap_cons, ← mask,
        h item List.mem_cons_self,
        ih (fun other hother => hcode other (List.mem_cons_of_mem _ hother))
          fun other hother => h other (List.mem_cons_of_mem _ hother)]

theorem outline_append {masked text : List Char} (hlength : masked.length = text.length)
    (h : ∀ c ∈ masked, c ≠ '{' ∧ c ≠ '}') (depth : Nat) (masked' rest : List Char) :
    outline depth (masked ++ masked') (text ++ rest) =
      (if depth = 0 then text else text.map blank) ++ outline depth masked' rest := by
  induction masked generalizing text with
  | nil =>
      obtain rfl := List.length_eq_zero_iff.1 hlength.symm
      simp
  | cons m masked ih =>
      obtain ⟨c, text, rfl⟩ := List.exists_cons_of_length_eq_add_one hlength.symm
      obtain ⟨hopen, hclose⟩ := h m List.mem_cons_self
      rw [List.cons_append, List.cons_append, outline, if_neg hopen, if_neg hclose,
        ih (by simpa using hlength) fun d hd => h d (List.mem_cons_of_mem _ hd)]
      split <;> simp

/-- Text without braces stays as it is. -/
theorem Flat.outlines {text : List Char} (h : Flat text) : Outlines text text := by
  intro masked rest
  rw [outline_append (length_mask _) h.ne_brace_mask, if_pos rfl]

/-- Inside braces, a balanced piece is blanked. -/
theorem Balanced.outline_append {text : List Char} (h : Balanced text) {depth : Nat}
    (hdepth : depth ≠ 0) (masked rest : List Char) :
    outline depth (mask text ++ masked) (text ++ rest) =
      text.map blank ++ outline depth masked rest := by
  induction h generalizing depth masked rest with
  | flat h => rw [Script.outline_append (length_mask _) h.ne_brace_mask, if_neg hdepth]
  | append h _ ih ih' =>
      rw [mask_append h.uncommented.endsInCode, List.append_assoc, List.append_assoc,
        ih hdepth, ih' hdepth, List.map_append, List.append_assoc]
  | @braces body h ih =>
      have hopen : ∀ ms ts, outline depth ('{' :: ms) ('{' :: ts) =
          blank '{' :: outline (depth + 1) ms ts := by simp [outline, hdepth]
      have hclose : ∀ ms ts, outline (depth + 1) ('}' :: ms) ('}' :: ts) =
          blank '}' :: outline depth ms ts := by simp [outline, hdepth]
      rw [mask_braces h.uncommented.endsInCode]
      simp only [List.cons_append, List.append_assoc, List.nil_append, List.map_cons,
        List.map_append, List.map_nil, hopen, hclose, ih (Nat.succ_ne_zero depth)]

/-- The body of a block is blanked. -/
theorem outlines_blockText {keyword : String} {body : List Char}
    (hkeyword : IsWord keyword.toList) (hbody : Balanced body) :
    Outlines (blockText keyword body) (blockText keyword (body.map blank)) := by
  intro masked rest
  have hname : ∀ c ∈ keyword.toList ++ [' '], c ≠ '{' ∧ c ≠ '}' := by
    intro c hc
    rcases List.mem_append.1 hc with hc | hc
    · exact ne_brace_of_isWordChar (hkeyword.2 c hc)
    · obtain rfl := List.mem_singleton.1 hc
      decide
  have hopening : ∀ ms ts, outline 0 (keyword.toList ++ [' '] ++ '{' :: ms)
      (keyword.toList ++ [' '] ++ '{' :: ts) =
        keyword.toList ++ [' '] ++ '{' :: outline 1 ms ts := by
    intro ms ts
    rw [outline_append rfl hname, if_pos rfl, outline]
    simp
  have hinside : ∀ ms ts, outline 1 (mask body ++ '}' :: '\n' :: ms) (body ++ '}' :: '\n' :: ts) =
      body.map blank ++ '}' :: '\n' :: outline 0 ms ts := by
    intro ms ts
    rw [hbody.outline_append Nat.one_ne_zero, outline, outline]
    simp
  have hsplit : ∀ inside tail : List Char, blockText keyword inside ++ tail =
      keyword.toList ++ [' '] ++ '{' :: (inside ++ '}' :: '\n' :: tail) := by
    intro inside tail
    simp [blockText]
  rw [mask_blockText hkeyword hbody.uncommented.endsInCode, hsplit, hsplit, hopening, hinside,
    hsplit]

end GradleWorkspace.Script
