import GradleWorkspace.Proofs.Script.Cut
import GradleWorkspace.Proofs.Script.Block
import GradleWorkspace.Proofs.Script.Taken

/-!
# Braces of a masked script

A brace that is left in a masked script is a character of code, whatever the script is.  So the
body of a block begins and ends between two tokens.

* `Begins.hidesBraces` says that comments and strings show no braces.
* `exists_split_of_brace` cuts a list of tokens at a brace that is shown, which stands in the script
  itself (`getElem?_of_mask`).
* `exists_tokens_of_findBlock` cuts a script at the body of a block, and
  `sublist_tokens_withoutBlockBody` says which tokens are left without the body.
-/

namespace GradleWorkspace.Script

open Text

/-! ## Tokens show no braces -/

/-- A token shows braces only if it is a character of code. -/
def Token.HidesBraces (token : Token) : Prop :=
  ∀ c ∈ token.shown blank, c = '{' ∨ c = '}' → token = .code c

theorem hidesBraces_code (c : Char) : (Token.code c).HidesBraces := by
  intro d hd _
  rw [List.mem_singleton.1 hd]

theorem Token.HidesBraces.ne_brace {token : Token} (h : token.HidesBraces)
    (hcode : ∀ c, token ≠ .code c) : ∀ c ∈ token.shown blank, c ≠ '{' ∧ c ≠ '}' := by
  intro c hc
  constructor <;> rintro rfl
  · exact hcode _ (h _ hc (.inl rfl))
  · exact hcode _ (h _ hc (.inr rfl))

theorem blank_ne_brace {c : Char} (h : c = '{' ∨ c = '}') (d : Char) : blank d ≠ c := by
  unfold blank
  split <;> rcases h with rfl | rfl <;> decide

theorem notMem_blank {c : Char} (h : c = '{' ∨ c = '}') (text : List Char) :
    c ∉ text.map blank := by
  simpa using fun d _ => blank_ne_brace h d

theorem ne_brace_of_isQuote {quote c : Char} (hquote : isQuote quote = true)
    (h : c = '{' ∨ c = '}') : c ≠ quote := by
  rintro rfl
  rcases h with rfl | rfl <;> simp [isQuote] at hquote

theorem closing_upToQuote (quote : Char) (text : List Char) :
    ∀ c ∈ (upToQuote quote text).closing, c = quote ∨ c = '\n' := by
  fun_induction upToQuote quote text with
  | case1 => simp
  | case2 c rest hend => simpa using hend
  | case3 hend => simp
  | case4 escaped rest hend ih => exact ih
  | case5 c rest hend hescape ih => exact ih

/-- Between delimiters without braces, a string shows no braces. -/
theorem hidesBraces_string {opening body closing : List Char}
    (hopening : ∀ c ∈ opening, ¬(c = '{' ∨ c = '}'))
    (hclosing : ∀ c ∈ closing, ¬(c = '{' ∨ c = '}')) :
    (Token.string opening body closing).HidesBraces := by
  intro c hc hbrace
  rcases List.mem_append.1 hc with hc | hc
  · exact absurd hbrace (hopening c hc)
  · rcases List.mem_append.1 hc with hc | hc
    · exact absurd hc (notMem_blank hbrace body)
    · exact absurd hbrace (hclosing c hc)

/-- A token of a script hides braces, unless it is one. -/
theorem Begins.hidesBraces {script rest : List Char} {token : Token}
    (h : Begins script token rest) : token.HidesBraces := by
  cases h with
  | lineComment text => exact fun c hc hbrace => absurd hc (notMem_blank hbrace _)
  | blockComment text => exact fun c hc hbrace => absurd hc (notMem_blank hbrace _)
  | tripleQuoted quote text hquote =>
      have hdelimiter : ∀ c ∈ [quote, quote, quote], ¬(c = '{' ∨ c = '}') := by
        intro c hc hbrace
        exact ne_brace_of_isQuote hquote hbrace (by simpa using hc)
      refine hidesBraces_string hdelimiter ?_
      rcases closing_upTo [quote, quote, quote] text with hclosing | ⟨hclosing, -⟩ <;> rw [hclosing]
      · exact hdelimiter
      · simp
  | quoted quote text hquote hsingle =>
      refine hidesBraces_string (by simpa using fun h => ne_brace_of_isQuote hquote h rfl) ?_
      intro c hc hbrace
      rcases closing_upToQuote quote text c hc with rfl | rfl
      · exact ne_brace_of_isQuote hquote hbrace rfl
      · simp at hbrace
  | code c text hquote hline hblock => exact hidesBraces_code c

theorem exists_begins_of_mem_tokens (script : List Char) :
    ∀ token ∈ tokens script, ∃ text rest, Begins text token rest := by
  intro token htoken
  obtain ⟨before, after, htokens⟩ := List.append_of_mem htoken
  exact ⟨_, _, begins_of_tokens_eq htokens⟩

theorem hidesBraces_of_mem_tokens (script : List Char) :
    ∀ token ∈ tokens script, token.HidesBraces := by
  intro token htoken
  obtain ⟨text, rest, hbegins⟩ := exists_begins_of_mem_tokens script token htoken
  exact hbegins.hidesBraces

/-! ## Cuts at braces -/

/-- A character of a text in two parts stands in the second part or in the first one. -/
theorem append_eq_append_cons_cases {first second front rest : List Char} {c : Char}
    (h : first ++ second = front ++ c :: rest) :
    (∃ front', front = first ++ front' ∧ second = front' ++ c :: rest) ∨
      ∃ inside, first = front ++ c :: inside ∧ rest = inside ++ second := by
  rcases List.append_eq_append_iff.1 h with ⟨front', rfl, hsecond⟩ | ⟨inside, rfl, hrest⟩
  · exact .inl ⟨front', rfl, hsecond⟩
  · cases inside with
    | nil => exact .inl ⟨[], by simp, by simpa using hrest.symm⟩
    | cons d inside =>
        obtain ⟨rfl, rfl⟩ := List.cons.inj hrest
        exact .inr ⟨inside, rfl, rfl⟩

/-- A brace in a masked text is a token of code. -/
theorem exists_split_of_brace {pieces : List Token} (hhides : ∀ p ∈ pieces, p.HidesBraces)
    {c : Char} (hc : c = '{' ∨ c = '}') {front rest : List Char}
    (h : pieces.flatMap (Token.shown blank) = front ++ c :: rest) :
    ∃ before after, pieces = before ++ .code c :: after ∧
      (before.flatMap Token.text).length = front.length ∧
      after.flatMap (Token.shown blank) = rest := by
  induction pieces generalizing front with
  | nil => simp at h
  | cons piece pieces ih =>
      obtain ⟨hpiece, hpieces⟩ := List.forall_mem_cons.1 hhides
      rw [List.flatMap_cons] at h
      rcases append_eq_append_cons_cases h with ⟨front', rfl, hrest⟩ | ⟨inside, hshown, rfl⟩
      · obtain ⟨before, after, rfl, hlength, hafter⟩ := ih hpieces hrest
        refine ⟨piece :: before, after, rfl, ?_, hafter⟩
        rw [List.flatMap_cons, List.length_append, List.length_append, hlength,
          Token.length_shown]
      · obtain rfl : piece = .code c := hpiece c (by simp [hshown]) hc
        obtain ⟨rfl, rfl⟩ : front = [] ∧ inside = [] := by
          simpa [Token.shown, List.append_eq_singleton_iff] using hshown.symm
        exact ⟨[], pieces, rfl, rfl, rfl⟩

/-- A brace in a masked script stands in the script. -/
theorem getElem?_of_mask {script : List Char} {offset : Nat} {c : Char} (hc : c = '{' ∨ c = '}')
    (h : (mask script)[offset]? = some c) : script[offset]? = some c := by
  obtain ⟨hoffset, hget⟩ := List.getElem?_eq_some_iff.1 h
  have hsplit : (tokens script).flatMap (Token.shown blank) =
      (mask script).take offset ++ c :: (mask script).drop (offset + 1) := by
    rw [← maskFrom_code_eq_flatMap, ← mask, ← hget, ← List.drop_eq_getElem_cons hoffset,
      List.take_append_drop]
  obtain ⟨before, after, htokens, hbefore, -⟩ :=
    exists_split_of_brace (hidesBraces_of_mem_tokens script) hc hsplit
  have hscript : script = before.flatMap Token.text ++ c :: after.flatMap Token.text := by
    rw [← flatMap_text_tokens script, htokens]
    simp [Token.text]
  have hlength : (before.flatMap Token.text).length = offset :=
    hbefore.trans (List.length_take_of_le (Nat.le_of_lt hoffset))
  rw [hscript, ← hlength, List.getElem?_append_right (Nat.le_refl _), Nat.sub_self]
  rfl

/-! ## Blocks -/

/-- A body ends at the brace that closes it, or with the text. -/
theorem bodyLength_eq_length_or (depth : Nat) (masked : List Char) :
    bodyLength depth masked = masked.length ∨
      masked[bodyLength depth masked]? = some '}' ∧
        (masked.take (bodyLength depth masked)).count '}' =
          depth + (masked.take (bodyLength depth masked)).count '{' := by
  fun_induction bodyLength depth masked with
  | case1 => exact .inl rfl
  | case2 depth rest ih =>
      refine ih.imp (congrArg (· + 1)) fun ⟨hbrace, hcount⟩ => ⟨by simpa using hbrace, ?_⟩
      simp [hcount]
      omega
  | case3 rest hopen => exact .inr ⟨rfl, by simp⟩
  | case4 rest depth hopen ih =>
      refine ih.imp (congrArg (· + 1)) fun ⟨hbrace, hcount⟩ => ⟨by simpa using hbrace, ?_⟩
      simp [hcount]
      omega
  | case5 depth c rest hopen hclose ih =>
      refine ih.imp (congrArg (· + 1)) fun ⟨hbrace, hcount⟩ => ⟨by simpa using hbrace, ?_⟩
      simpa [List.count_cons, hopen, hclose] using hcount

section Blocks

variable {keyword : String} {script : List Char}

/-- The opening of a block is its keyword, blanks and a brace. -/
theorem readOpening_eq_some_iff {text rest : List Char} :
    readOpening keyword text = some ((), rest) ↔
      ∃ blanks, (∀ c ∈ blanks, isBlank c = true) ∧
        text = keyword.toList ++ (blanks ++ '{' :: rest) := by
  constructor
  · intro h
    obtain ⟨unread, hafter, h⟩ := Option.bind_eq_some_iff.1 h
    obtain ⟨tail, hnext, h⟩ := Option.bind_eq_some_iff.1 h
    obtain rfl : tail = rest := by simpa using h
    obtain ⟨blanks, hblanks, hunread⟩ := eq_blanks_append_skipBlanks unread
    refine ⟨blanks, hblanks, ?_⟩
    rw [eq_append_of_after hafter, hunread, eq_append_of_after hnext]
    rfl
  · rintro ⟨blanks, hblanks, rfl⟩
    have hnext : next "\x7b" (blanks ++ '{' :: rest) = some rest := by
      rw [next, skipBlanks, List.dropWhile_append_of_pos hblanks, ← skipBlanks,
        skipBlanks_cons (by decide)]
      exact after_append "\x7b" rest
    rw [readOpening, after_append]
    simp [hnext]

/-- The brace that opens a block is a token of code. -/
theorem exists_tokens_of_mem_find_readOpening {opening : Located Unit}
    (h : opening ∈ find isNameBorder (readOpening keyword) (mask script)) :
    ∃ before after, tokens script = before ++ .code '{' :: after ∧
      opening.stop = (before.flatMap Token.text).length + 1 ∧
      (mask script).drop opening.stop = after.flatMap (Token.shown blank) := by
  obtain ⟨front, place, rest, hmask, hstop, hread⟩ := exists_rest_of_mem_find h
  obtain ⟨blanks, -, rfl⟩ := readOpening_eq_some_iff.1 hread
  rw [← List.append_assoc, ← List.append_assoc] at hmask
  have hshown : (tokens script).flatMap (Token.shown blank) =
      front ++ keyword.toList ++ blanks ++ '{' :: rest := by
    rw [← maskFrom_code_eq_flatMap]
    exact hmask
  obtain ⟨before, after, htokens, hbefore, rfl⟩ :=
    exists_split_of_brace (hidesBraces_of_mem_tokens script) (.inl rfl) hshown
  have hstart : opening.stop = (front ++ keyword.toList ++ blanks ++ ['{']).length := by
    rw [hstop]
    simp only [List.length_append, List.length_cons, List.length_nil]
    omega
  refine ⟨before, after, htokens, ?_, ?_⟩
  · rw [hstart, hbefore, List.length_append, List.length_singleton]
  · rw [List.append_cons] at hmask
    rw [hstart, hmask, List.drop_left]

/-- The body of a block ends between two tokens. -/
theorem exists_tokens_of_bodyLength {pieces : List Token} (hhides : ∀ p ∈ pieces, p.HidesBraces) :
    ∃ inside behind, pieces = inside ++ behind ∧
      (inside.flatMap Token.text).length = bodyLength 0 (pieces.flatMap (Token.shown blank)) := by
  rcases bodyLength_eq_length_or 0 (pieces.flatMap (Token.shown blank)) with hall | ⟨hbrace, -⟩
  · exact ⟨pieces, [], by rw [List.append_nil], by rw [hall, Token.length_flatMap_shown]⟩
  · obtain ⟨hlength, hclose⟩ := List.getElem?_eq_some_iff.1 hbrace
    have hsplit := List.take_append_drop (bodyLength 0 (pieces.flatMap (Token.shown blank)))
      (pieces.flatMap (Token.shown blank))
    rw [List.drop_eq_getElem_cons hlength, hclose] at hsplit
    obtain ⟨inside, behind, heq, hinside, -⟩ :=
      exists_split_of_brace hhides (.inr rfl) hsplit.symm
    exact ⟨inside, .code '}' :: behind, heq, hinside.trans
      (List.length_take_of_le (Nat.le_of_lt hlength))⟩

/-- The brace that opens the block that is found, and the end of its body. -/
theorem exists_tokens_of_offsets {start stop : Nat}
    (h : findBlock keyword script = some (start, stop)) :
    ∃ before inside after, tokens script = before ++ .code '{' :: (inside ++ after) ∧
      start = (before.flatMap Token.text).length + 1 ∧
      stop = start + (inside.flatMap Token.text).length := by
  obtain ⟨opening, hopening, heq⟩ := Option.map_eq_some_iff.1 h
  have hmem : opening ∈ find isNameBorder (readOpening keyword) (mask script) := by
    rcases Option.or_eq_some_iff.1 hopening with houter | ⟨-, hfirst⟩
    · exact List.mem_of_find?_eq_some houter
    · exact List.mem_of_mem_head? hfirst
  obtain ⟨before, after, htokens, hstop, hdrop⟩ := exists_tokens_of_mem_find_readOpening hmem
  have hafter : ∀ token ∈ after, token.HidesBraces := fun token htoken =>
    hidesBraces_of_mem_tokens script token (by simp [htokens, htoken])
  obtain ⟨inside, behind, rfl, hlength⟩ := exists_tokens_of_bodyLength hafter
  obtain ⟨rfl, rfl⟩ := Prod.mk.inj heq
  rw [hdrop]
  exact ⟨before, inside, behind, htokens, hstop, by rw [hlength]⟩

/-- The body of a block is cut out of a script between tokens. -/
theorem exists_tokens_of_findBlock {start stop : Nat}
    (h : findBlock keyword script = some (start, stop)) :
    ∃ before inside after, tokens script = before ++ .code '{' :: (inside ++ after) ∧
      script.take start = before.flatMap Token.text ++ ['{'] ∧
      slice start stop script = inside.flatMap Token.text ∧
      script.drop stop = after.flatMap Token.text := by
  obtain ⟨before, inside, after, htokens, rfl, rfl⟩ := exists_tokens_of_offsets h
  have hscript : script = before.flatMap Token.text ++ ['{'] ++ inside.flatMap Token.text ++
      after.flatMap Token.text := by
    rw [← flatMap_text_tokens script, htokens]
    simp [Token.text]
  have hstart : (before.flatMap Token.text).length + 1 =
      (before.flatMap Token.text ++ ['{']).length := by simp
  refine ⟨before, inside, after, htokens, ?_, ?_, ?_⟩ <;> rw [hstart, hscript]
  · rw [List.append_assoc _ (inside.flatMap Token.text), List.take_left]
  · rw [slice, ← List.length_append, List.take_left, List.drop_left]
  · rw [← List.length_append, List.drop_left]

/-- The body of a block consists of tokens of the script. -/
theorem exists_tokens_of_blockBody {body : List Char} (h : blockBody keyword script = some body) :
    ∃ before inside after, tokens script = before ++ (inside ++ after) ∧
      body = inside.flatMap Token.text := by
  obtain ⟨⟨start, stop⟩, hfind, rfl⟩ := Option.map_eq_some_iff.1 h
  obtain ⟨before, inside, after, htokens, -, hbody, -⟩ := exists_tokens_of_findBlock hfind
  exact ⟨before ++ [.code '{'], inside, after, by rw [htokens]; simp, hbody⟩

/-- Without the body of a block, a script has the tokens that do not stand in the body. -/
theorem sublist_tokens_withoutBlockBody (keyword : String) (script : List Char) :
    (tokens (withoutBlockBody keyword script)).Sublist (tokens script) := by
  unfold withoutBlockBody
  split
  · exact List.Sublist.refl _
  · next start stop hfind =>
    obtain ⟨before, inside, after, htokens, htake, -, hdrop⟩ := exists_tokens_of_findBlock hfind
    have hafter : tokens (after.flatMap Token.text) = after := by
      refine @tokens_of_suffix script (before ++ .code '{' :: inside) after ?_
      rw [htokens]
      simp
    have hrest := tokens_append htokens (by decide) (after.flatMap Token.text)
    rw [htake, hdrop, List.append_assoc, List.singleton_append, hrest, hafter, htokens]
    exact ((List.sublist_append_right inside after).cons_cons _).append_left before

end Blocks

end GradleWorkspace.Script
