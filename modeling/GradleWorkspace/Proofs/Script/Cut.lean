import GradleWorkspace.Proofs.Script.Token

/-!
# Scripts cut between tokens

The first token of a script depends on what comes after it by one character at most.  So a script
can be cut between two tokens, and the pieces have the tokens that they had in the script.

* `Begins.of_isClosed` and `Begins.of_rest` exchange what comes after the first token.
* `tokens_stripComments` are the tokens of a script without comments, as `stripComments` makes it.
  Masked, it is the same as the script with its comments (`maskFrom_stripComments`).
* `tokens_of_suffix`, `tokens_append_of_begins` and `tokens_append` are about the tokens behind a
  cut and before it, and `maskFrom_eq_of_tokens_eq` and `endsInCode_of_tokens_eq` say the same of
  masked texts.
-/

namespace GradleWorkspace.Script

/-! ## Ends of comments and strings -/

section Cuts

variable {delimiter : List Char} {quote : Char} {text : List Char}

theorem closing_upTo (delimiter text : List Char) :
    (upTo delimiter text).closing = delimiter ∨
      (upTo delimiter text).closing = [] ∧ (upTo delimiter text).rest = [] := by
  induction text with
  | nil => exact .inr ⟨rfl, rfl⟩
  | cons c text ih =>
      rw [upTo]
      split
      · exact .inl rfl
      · exact ih

/-- A delimiter that was found is found whatever comes after it. -/
theorem upTo_append (h : (upTo delimiter text).closing = delimiter) (hne : delimiter ≠ [])
    (rest : List Char) :
    upTo delimiter ((upTo delimiter text).body ++ (delimiter ++ rest)) =
      ⟨(upTo delimiter text).body, delimiter, rest⟩ := by
  induction text with
  | nil => exact absurd h.symm hne
  | cons c text ih =>
      rw [upTo] at h ⊢
      split
      · obtain ⟨d, tail, rfl⟩ := List.exists_cons_of_ne_nil hne
        rw [List.nil_append, List.cons_append, upTo, if_pos ⟨rest, rfl⟩]
        simp
      · next hother =>
        rw [if_neg hother] at h
        change (upTo delimiter text).closing = delimiter at h
        have hnot : ¬delimiter <+: c :: ((upTo delimiter text).body ++ (delimiter ++ rest)) := by
          intro hprefix
          have htext := text_upTo delimiter text
          rw [h] at htext
          have hshort : delimiter <+: c :: ((upTo delimiter text).body ++ delimiter) :=
            List.prefix_of_prefix_length_le hprefix ⟨rest, by simp⟩ (by simp; omega)
          have hlong : c :: ((upTo delimiter text).body ++ delimiter) <+: c :: text :=
            ⟨(upTo delimiter text).rest, by
              rw [List.cons_append, List.append_assoc, htext]⟩
          exact hother (hshort.trans hlong)
        change upTo delimiter (c :: ((upTo delimiter text).body ++ (delimiter ++ rest))) = _
        rw [upTo, if_neg hnot, ih h]
        rfl

theorem rest_upToQuote (h : (upToQuote quote text).closing = []) :
    (upToQuote quote text).rest = [] := by
  fun_induction upToQuote quote text with
  | case1 => rfl
  | case2 c rest hend => simp at h
  | case3 hend => rfl
  | case4 escaped rest hend ih => exact ih h
  | case5 c rest hend hescape ih => exact ih h

theorem body_upToQuote (h : (upToQuote quote text).closing = []) :
    (upToQuote quote text).body = text := by
  simpa [h, rest_upToQuote h] using text_upToQuote quote text

/-- The end of a string that was found is found whatever comes after it. -/
theorem upToQuote_append (h : (upToQuote quote text).closing ≠ []) (rest : List Char) :
    upToQuote quote
        ((upToQuote quote text).body ++ ((upToQuote quote text).closing ++ rest)) =
      ⟨(upToQuote quote text).body, (upToQuote quote text).closing, rest⟩ := by
  fun_induction upToQuote quote text with
  | case1 => simp at h
  | case2 c tail hend =>
      change upToQuote quote (c :: rest) = _
      rw [upToQuote.eq_def]
      simp [hend]
  | case3 hend => simp at h
  | case4 escaped tail hend ih =>
      have hrest := ih h
      simp only [Cut.cons, List.cons_append]
      rw [upToQuote.eq_def]
      simp only [if_neg hend, if_true]
      rw [hrest]
      rfl
  | case5 c tail hend hescape ih =>
      have hrest := ih h
      simp only [Cut.cons, List.cons_append]
      rw [upToQuote.eq_def]
      simp only [if_neg hend, if_neg hescape]
      rw [hrest]
      rfl

/-- Either a string is empty, or its content begins with a character that is not its quote. -/
theorem upToQuote_cases (h : (upToQuote quote text).closing ≠ []) :
    (∃ c rest, text = c :: rest ∧ upToQuote quote text = ⟨[], [c], rest⟩) ∨
      ∃ c body, (upToQuote quote text).body = c :: body ∧ c ≠ quote := by
  fun_cases upToQuote quote text with
  | case1 => simp [upToQuote] at h
  | case2 c rest hend => exact .inl ⟨c, rest, rfl, rfl⟩
  | case3 hend => exact .inr ⟨_, _, rfl, fun heq => hend (.inl heq)⟩
  | case4 escaped rest hend => exact .inr ⟨_, _, rfl, fun heq => hend (.inl heq)⟩
  | case5 c rest hend hescape => exact .inr ⟨_, _, rfl, fun heq => hend (.inl heq)⟩

end Cuts

/-! ## The first token and what comes after it -/

theorem eq_or_eq_of_isQuote {c : Char} (h : isQuote c = true) : c = '"' ∨ c = '\'' := by
  simpa [isQuote] using h

theorem readToken_cons {c : Char} {text : List Char}
    (hline : ∀ rest, c :: text ≠ '/' :: '/' :: rest)
    (hblock : ∀ rest, c :: text ≠ '/' :: '*' :: rest) :
    readToken (c :: text) =
      if isQuote c then
        if [c, c] <+: text then
          let cut := upTo [c, c, c] (text.drop 2)
          some (.string [c, c, c] cut.body cut.closing, cut.rest)
        else
          let cut := upToQuote c text
          some (.string [c] cut.body cut.closing, cut.rest)
      else some (.code c, text) := by
  rw [readToken.eq_def]
  split
  · next h => simp at h
  · next rest h => exact absurd h (hline rest)
  · next rest h => exact absurd h (hblock rest)
  · next d rest _ _ h =>
    obtain ⟨rfl, rfl⟩ := List.cons.inj h
    rfl

theorem readToken_of_begins {script rest : List Char} {token : Token}
    (h : Begins script token rest) : readToken script = some (token, rest) := by
  cases h with
  | lineComment text => rfl
  | blockComment text => rfl
  | tripleQuoted quote text hquote =>
      have hslash : quote ≠ '/' := by rintro rfl; simp [isQuote] at hquote
      have htriple : [quote, quote] <+: quote :: quote :: text :=
        List.prefix_append [quote, quote] text
      rw [readToken_cons (by simp [hslash]) (by simp [hslash]), if_pos hquote, if_pos htriple]
      rfl
  | quoted quote text hquote hsingle =>
      have hslash : quote ≠ '/' := by rintro rfl; simp [isQuote] at hquote
      rw [readToken_cons (by simp [hslash]) (by simp [hslash]), if_pos hquote, if_neg hsingle]
  | code c text hquote hline hblock =>
      rw [readToken_cons hline hblock, if_neg (by simp [hquote])]

/-- A string in single quotes does not turn into one in three quotes, unless a quote comes after it
that was not there. -/
theorem not_prefix_upToQuote_append {quote : Char} {text rest : List Char}
    (hquote : isQuote quote = true) (hsingle : ¬[quote, quote] <+: text)
    (hclosing : (upToQuote quote text).closing ≠ [])
    (hhead : ∀ c ∈ rest.head?, (upToQuote quote text).rest.head? = some c ∨ isQuote c = false) :
    ¬[quote, quote] <+:
      (upToQuote quote text).body ++ ((upToQuote quote text).closing ++ rest) := by
  rintro ⟨tail, heq⟩
  obtain ⟨c, unread, rfl, hcut⟩ | ⟨c, body, hbody, hc⟩ := upToQuote_cases hclosing
  · rw [hcut] at heq hhead
    change quote :: quote :: tail = c :: rest at heq
    obtain ⟨rfl, rfl⟩ := List.cons.inj heq
    have hsame := (hhead quote rfl).resolve_right (by simp [hquote])
    obtain ⟨more, rfl⟩ := List.head?_eq_some_iff.1 hsame
    exact hsingle ⟨more, rfl⟩
  · rw [hbody] at heq
    exact hc (List.cons.inj heq).1.symm

/-- Whether a token has an end of its own.  A comment up to the end of the line has none, nor has
what is cut off by the end of the script. -/
def Token.isClosed : Token → Bool
  | code _ => true
  | lineComment _ => false
  | blockComment _ closing => !closing.isEmpty
  | string _ _ closing => !closing.isEmpty

/-- A token that is followed by something is closed, unless it is a comment up to the end of the
line. -/
theorem Begins.isClosed_or {script rest : List Char} {token : Token} (h : Begins script token rest)
    (hrest : rest ≠ []) :
    token.isClosed = true ∨ ∃ body tail, token = .lineComment body ∧ rest = '\n' :: tail ∧
      ∀ c ∈ body, c ≠ '\n' := by
  cases h with
  | lineComment text =>
      have hnot := List.head?_dropWhile_not (· ≠ '\n') text
      cases hdrop : text.dropWhile (· ≠ '\n') with
      | nil => exact absurd hdrop hrest
      | cons c tail =>
          rw [hdrop] at hnot
          obtain rfl : c = '\n' := by simpa using hnot
          exact .inr ⟨_, tail, rfl, rfl, fun c hc => by simpa using List.mem_takeWhile_imp hc⟩
  | blockComment text =>
      have hclosing : (upTo ['*', '/'] text).closing = ['*', '/'] :=
        (closing_upTo ['*', '/'] text).resolve_right fun hnone => hrest hnone.2
      exact .inl (by simp [Token.isClosed, hclosing])
  | tripleQuoted quote text hquote =>
      have hclosing : (upTo [quote, quote, quote] text).closing = [quote, quote, quote] :=
        (closing_upTo [quote, quote, quote] text).resolve_right fun hnone => hrest hnone.2
      exact .inl (by simp [Token.isClosed, hclosing])
  | quoted quote text hquote hsingle =>
      have hclosing : (upToQuote quote text).closing ≠ [] := fun hnone =>
        hrest (rest_upToQuote hnone)
      exact .inl (by simpa [Token.isClosed] using hclosing)
  | code c text hquote hline hblock => exact .inl rfl

/-- A closed token stays if what comes after it is exchanged, provided that the same character comes
next, or one that is no quote and does not make a comment of a slash. -/
theorem Begins.of_isClosed {script rest rest' : List Char} {token : Token}
    (h : Begins script token rest) (hclosed : token.isClosed = true)
    (hhead : ∀ c ∈ rest'.head?, rest.head? = some c ∨
      isQuote c = false ∧ (token = .code '/' → c ≠ '/' ∧ c ≠ '*')) :
    Begins (token.text ++ rest') token rest' := by
  cases h with
  | lineComment text => simp [Token.isClosed] at hclosed
  | blockComment text =>
      have hclosing : (upTo ['*', '/'] text).closing = ['*', '/'] :=
        (closing_upTo ['*', '/'] text).resolve_right fun hnone => by
          simp [Token.isClosed, hnone.1] at hclosed
      have hbegins := Begins.blockComment
        ((upTo ['*', '/'] text).body ++ (['*', '/'] ++ rest'))
      rw [upTo_append hclosing (by simp)] at hbegins
      rw [hclosing]
      simpa [Token.text] using hbegins
  | tripleQuoted quote text hquote =>
      have hclosing : (upTo [quote, quote, quote] text).closing = [quote, quote, quote] :=
        (closing_upTo [quote, quote, quote] text).resolve_right fun hnone => by
          simp [Token.isClosed, hnone.1] at hclosed
      have hbegins := Begins.tripleQuoted quote
        ((upTo [quote, quote, quote] text).body ++ ([quote, quote, quote] ++ rest')) hquote
      rw [upTo_append hclosing (by simp)] at hbegins
      rw [hclosing]
      simpa [Token.text] using hbegins
  | quoted quote text hquote hsingle =>
      have hclosing : (upToQuote quote text).closing ≠ [] := by
        simpa [Token.isClosed] using hclosed
      have hsingle' := not_prefix_upToQuote_append hquote hsingle hclosing
        fun c hc => (hhead c hc).imp_right And.left
      have hbegins := Begins.quoted quote
        ((upToQuote quote text).body ++ ((upToQuote quote text).closing ++ rest')) hquote hsingle'
      rw [upToQuote_append hclosing] at hbegins
      simpa [Token.text] using hbegins
  | code c text hquote hline hblock =>
      have hnext : ∀ d, (c = '/' → ∀ e ∈ rest'.head?, rest.head? = some e ∨ e ≠ d) →
          (∀ tail, c :: rest ≠ '/' :: d :: tail) → ∀ tail, c :: rest' ≠ '/' :: d :: tail := by
        rintro d hd hnone tail heq
        obtain ⟨rfl, rfl⟩ := List.cons.inj heq
        have hsame := (hd rfl d rfl).resolve_right (by simp)
        obtain ⟨tail, rfl⟩ := List.head?_eq_some_iff.1 hsame
        exact hnone tail rfl
      refine .code c rest' hquote (hnext '/' ?_ hline) (hnext '*' ?_ hblock)
      · rintro rfl e he
        exact (hhead e he).imp_right fun hother => (hother.2 rfl).1
      · rintro rfl e he
        exact (hhead e he).imp_right fun hother => (hother.2 rfl).2

/-- The first token stays if what comes after it is exchanged, provided that a blank or the same
character comes next, or nothing.  After a comment it has to be the same character, because a
comment may go up to the end of the line. -/
theorem Begins.of_rest {script rest rest' : List Char} {token : Token}
    (h : Begins script token rest) (hcomment : token.isComment = true → rest'.head? = rest.head?)
    (hend : rest = [] → rest' = [])
    (hhead : ∀ c ∈ rest'.head?, rest.head? = some c ∨ c = ' ') :
    Begins (token.text ++ rest') token rest' := by
  by_cases hrest : rest = []
  · rw [hend hrest, ← hrest, ← h.text_append]
    exact h
  rcases h.isClosed_or hrest with hclosed | ⟨body, tail, rfl, rfl, hbody⟩
  · refine h.of_isClosed hclosed fun c hc => (hhead c hc).imp_right ?_
    rintro rfl
    exact ⟨rfl, fun _ => by decide⟩
  · have hline : ∀ c ∈ body, decide (c ≠ '\n') = true := by simpa using hbody
    obtain ⟨more, rfl⟩ := List.head?_eq_some_iff.1 ((hcomment rfl).trans List.head?_cons)
    have hbegins := Begins.lineComment (body ++ '\n' :: more)
    rw [List.takeWhile_append_of_pos hline, List.dropWhile_append_of_pos hline] at hbegins
    simpa [Token.text] using hbegins

theorem begins_code {c : Char} (h : isCode c = true) (rest : List Char) :
    Begins (c :: rest) (.code c) rest := by
  have hquote : isQuote c = false := by simp_all [isCode]
  have hslash : c ≠ '/' := by rintro rfl; simp [isCode] at h
  exact .code c rest hquote (by simp [hslash]) (by simp [hslash])

theorem Begins.tokens_eq {script rest : List Char} {token : Token} (h : Begins script token rest) :
    tokens script = token :: tokens rest := tokens_eq_cons (readToken_of_begins h)

/-! ## Scripts without comments -/

/-- A script whose comments are stripped begins as before, or with a blank. -/
theorem head?_stripComments (script : List Char) :
    ∀ c ∈ (stripComments script).head?, script.head? = some c ∨ c = ' ' := by
  by_cases hempty : script = []
  · subst hempty
    simp [stripComments, maskFrom]
  · obtain ⟨token, rest, hread⟩ := exists_readToken hempty
    have hbegins := begins_of_readToken hread
    intro c hc
    rw [stripComments, hbegins.maskFrom_eq] at hc
    cases hbegins with
    | lineComment text => exact .inr (by simpa [Token.shown, Token.text, blank] using hc.symm)
    | blockComment text => exact .inr (by simpa [Token.shown, Token.text, blank] using hc.symm)
    | tripleQuoted quote text => exact .inl (by simpa [Token.shown] using hc)
    | quoted quote text => exact .inl (by simpa [Token.shown] using hc)
    | code d text => exact .inl (by simpa [Token.shown] using hc)

theorem isCode_blank (c : Char) : isCode (blank c) = true := by
  unfold blank
  split <;> decide

/-- Blanks are tokens of code. -/
theorem tokens_blank_append (text rest : List Char) :
    tokens (text.map blank ++ rest) = text.map (fun c => .code (blank c)) ++ tokens rest := by
  induction text with
  | nil => rfl
  | cons c text ih =>
      rw [List.map_cons, List.cons_append, (begins_code (isCode_blank c) _).tokens_eq, ih,
        List.map_cons, List.cons_append]

/-- What a token leaves when comments are stripped: blanks if it is a comment, or else itself. -/
def Token.stripped (token : Token) : List Token :=
  if token.isComment then token.text.map fun c => .code (blank c) else [token]

/-- The tokens of a script stay when its comments are stripped, up to the comments. -/
theorem tokens_stripComments (script : List Char) :
    tokens (stripComments script) = (tokens script).flatMap Token.stripped := by
  refine tokens_induction (motive := fun script found =>
    tokens (stripComments script) = found.flatMap Token.stripped) rfl ?_ script
  intro script token rest hbegins ih
  rw [stripComments, hbegins.maskFrom_eq, ← stripComments, List.flatMap_cons, ← ih, Token.stripped]
  cases hcomment : token.isComment with
  | true =>
      have hshown : token.shown id = token.text.map blank := by
        cases token <;> simp_all [Token.isComment, Token.shown]
      rw [hshown, if_pos rfl, tokens_blank_append]
  | false =>
      have hshown : token.shown id = token.text := by
        cases token <;> simp_all [Token.isComment, Token.shown, Token.text]
      have hstripped := hbegins.of_rest (by simp [hcomment])
        (by rintro rfl; simp [stripComments, maskFrom]) (head?_stripComments rest)
      rw [hshown, hstripped.tokens_eq, if_neg (by simp), List.singleton_append]

/-- A script whose comments are stripped has no comments. -/
theorem isComment_eq_false_of_mem_tokens (script : List Char) :
    ∀ token ∈ tokens (stripComments script), token.isComment = false := by
  intro token htoken
  rw [tokens_stripComments] at htoken
  obtain ⟨original, -, hstripped⟩ := List.mem_flatMap.1 htoken
  unfold Token.stripped at hstripped
  split at hstripped
  · obtain ⟨c, -, rfl⟩ := List.mem_map.1 hstripped
    rfl
  · next hcomment =>
    obtain rfl := List.mem_singleton.1 hstripped
    simpa using hcomment

theorem Token.flatMap_shown_stripped (inside : Char → Char) (token : Token) :
    token.stripped.flatMap (Token.shown inside) = token.shown inside := by
  unfold Token.stripped
  cases hcomment : token.isComment with
  | true =>
      have hshown : token.shown inside = token.text.map blank := by
        cases token <;> simp_all [Token.isComment, Token.shown]
      rw [if_pos rfl, hshown, List.flatMap_map]
      exact (List.map_eq_flatMap).symm
  | false => simp

/-- Stripping the comments first makes no difference to a masked script. -/
theorem maskFrom_stripComments (inside : Char → Char) (script : List Char) :
    maskFrom inside .code (stripComments script) = maskFrom inside .code script := by
  rw [maskFrom_code_eq_flatMap, maskFrom_code_eq_flatMap, tokens_stripComments,
    List.flatMap_assoc]
  exact congrArg (List.flatMap · _) (funext (Token.flatMap_shown_stripped inside))

/-- A script without comments has no comments to strip. -/
theorem stripComments_stripComments (script : List Char) :
    stripComments (stripComments script) = stripComments script :=
  maskFrom_stripComments id script

theorem mask_stripComments (script : List Char) : mask (stripComments script) = mask script :=
  maskFrom_stripComments blank script

/-! ## Tokens on both sides of a cut -/

theorem exists_begins_of_tokens_eq_cons {script : List Char} {token : Token}
    {others : List Token} (h : tokens script = token :: others) :
    ∃ rest, Begins script token rest ∧ tokens rest = others := by
  by_cases hempty : script = []
  · subst hempty
    simp [tokens, findValues, find, findFrom] at h
  · obtain ⟨first, rest, hread⟩ := exists_readToken hempty
    rw [tokens_eq_cons hread] at h
    obtain ⟨rfl, rfl⟩ := List.cons.inj h
    exact ⟨rest, begins_of_readToken hread, rfl⟩

/-- The tokens behind a cut are tokens of the text behind the cut. -/
theorem tokens_of_suffix {script : List Char} {before after : List Token}
    (h : tokens script = before ++ after) : tokens (after.flatMap Token.text) = after := by
  induction before generalizing script with
  | nil =>
      rw [List.nil_append] at h
      rw [← h, flatMap_text_tokens]
  | cons token before ih =>
      obtain ⟨rest, -, hrest⟩ := exists_begins_of_tokens_eq_cons h
      exact ih hrest

/-- A token at a cut is the first one of what is left of the script there. -/
theorem begins_of_tokens_eq {script : List Char} {token : Token} {before after : List Token}
    (h : tokens script = before ++ token :: after) :
    Begins (token.text ++ after.flatMap Token.text) token (after.flatMap Token.text) := by
  obtain ⟨rest, hbegins, hrest⟩ := exists_begins_of_tokens_eq_cons (tokens_of_suffix h)
  obtain rfl : rest = after.flatMap Token.text := by rw [← hrest, flatMap_text_tokens]
  exact hbegins

/-- The text behind a cut can be exchanged, if the last token before the cut stays. -/
theorem tokens_append_of_begins {script rest : List Char} {token : Token}
    {before after : List Token} (h : tokens script = before ++ token :: after)
    (hlast : Begins (token.text ++ rest) token rest) :
    tokens (before.flatMap Token.text ++ (token.text ++ rest)) =
      before ++ token :: tokens rest := by
  induction before generalizing script with
  | nil => exact hlast.tokens_eq
  | cons first before ih =>
      rw [List.cons_append] at h
      obtain ⟨unread, hbegins, hunread⟩ := exists_begins_of_tokens_eq_cons h
      have hsplit : unread =
          before.flatMap Token.text ++ (token.text ++ after.flatMap Token.text) := by
        rw [← flatMap_text_tokens unread, hunread, List.flatMap_append, List.flatMap_cons]
      obtain ⟨c, text, htext⟩ := List.exists_cons_of_ne_nil hlast.text_ne_nil
      have hhead : (before.flatMap Token.text ++ (token.text ++ rest)).head? = unread.head? := by
        rw [hsplit, htext, List.cons_append, List.cons_append, List.head?_append,
          List.head?_append, List.head?_cons, List.head?_cons]
      have hstart := hbegins.of_rest (fun _ => hhead) (by simp [hsplit, htext])
        fun d hd => .inl (hhead.symm.trans hd)
      rw [List.flatMap_cons, List.append_assoc, hstart.tokens_eq, ih hunread, List.cons_append]

/-- If the last token before a cut is a character that can begin neither a comment nor a string,
the text behind the cut can be exchanged. -/
theorem tokens_append {script : List Char} {before after : List Token} {c : Char}
    (h : tokens script = before ++ .code c :: after) (hc : isCode c = true) (rest : List Char) :
    tokens (before.flatMap Token.text ++ c :: rest) = before ++ .code c :: tokens rest :=
  tokens_append_of_begins h (begins_code hc rest)

/-- After such a character, the reading is outside comments and strings. -/
theorem endsInCode_of_tokens_eq {script : List Char} {before after : List Token} {c : Char}
    (h : tokens script = before ++ .code c :: after) (hc : isCode c = true) :
    EndsInCode (before.flatMap Token.text ++ [c]) := by
  intro inside rest
  have hfront := tokens_append h hc []
  have hall := tokens_append h hc rest
  rw [List.append_assoc, List.singleton_append]
  simp only [maskFrom_code_eq_flatMap, hfront, hall, List.flatMap_append, List.flatMap_cons,
    List.append_assoc]
  rfl

/-- The text behind a cut is masked for itself. -/
theorem maskFrom_eq_of_tokens_eq {script : List Char} {before after : List Token}
    (h : tokens script = before ++ after) (inside : Char → Char) :
    maskFrom inside .code script = before.flatMap (Token.shown inside) ++
      maskFrom inside .code (after.flatMap Token.text) := by
  rw [maskFrom_code_eq_flatMap, maskFrom_code_eq_flatMap, tokens_of_suffix h, h,
    List.flatMap_append]

end GradleWorkspace.Script
