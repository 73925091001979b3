import GradleWorkspace.Proofs.Script.Mask
import GradleWorkspace.Proofs.Script.Scan

/-!
# Tokens of a script

From left to right, a script is made of comments, strings, and single characters of code.  This
file cuts a script into these tokens, each with the place where it ends, and says what masking
makes of them.

* `upTo` and `upToQuote` find where a comment or a string ends.  An end may be missing; then the
  token takes all of the script that is left.
* `readToken` takes the first token of a script, and `tokens` are all of them.
* `maskFrom_code_eq_flatMap` says that a script is masked token by token, and `mask_tokens` what
  stands at each offset of a masked script.
-/

namespace GradleWorkspace.Script

/-! ## Ends of comments and strings -/

/-- A text that is cut where a comment or a string ends: the text before the end, the characters
that mark the end, and the text after them.  No characters mark the end of the script. -/
structure Cut where
  body : List Char
  closing : List Char
  rest : List Char
  deriving DecidableEq, Repr

/-- A cut of a text with one more character at its front. -/
def Cut.cons (c : Char) (cut : Cut) : Cut := { cut with body := c :: cut.body }

/-- A text that is cut where a delimiter stands for the first time. -/
def upTo (delimiter : List Char) : List Char → Cut
  | [] => ⟨[], [], []⟩
  | c :: rest =>
    if delimiter <+: c :: rest then ⟨[], delimiter, (c :: rest).drop delimiter.length⟩
    else (upTo delimiter rest).cons c

/-- A text that is cut at the first quote or end of a line.  A backslash takes the character
after it along, whatever it is. -/
def upToQuote (quote : Char) : List Char → Cut
  | [] => ⟨[], [], []⟩
  | c :: rest =>
    if c = quote ∨ c = '\n' then ⟨[], [c], rest⟩
    else if c = '\\' then
      match rest with
      | [] => ⟨[c], [], []⟩
      | escaped :: rest => ((upToQuote quote rest).cons escaped).cons c
    else (upToQuote quote rest).cons c

theorem text_upTo (delimiter text : List Char) :
    (upTo delimiter text).body ++ ((upTo delimiter text).closing ++ (upTo delimiter text).rest) =
      text := by
  induction text with
  | nil => rfl
  | cons c rest ih =>
      rw [upTo]
      split
      · next h => exact (List.prefix_iff_eq_append.1 h)
      · exact congrArg (c :: ·) ih

theorem text_upToQuote (quote : Char) (text : List Char) :
    (upToQuote quote text).body ++
      ((upToQuote quote text).closing ++ (upToQuote quote text).rest) = text := by
  fun_induction upToQuote quote text with
  | case1 => rfl
  | case2 c rest h => rfl
  | case3 h => rfl
  | case4 escaped rest h ih => exact congrArg (fun text => '\\' :: escaped :: text) ih
  | case5 c rest h hescape ih => exact congrArg (c :: ·) ih

/-! ## Tokens -/

/-- A piece of a script. -/
inductive Token
  /-- A character outside comments and strings. -/
  | code (c : Char)
  /-- A comment after `//`, without the end of the line. -/
  | lineComment (body : List Char)
  /-- A comment after `/*`, with the `*/` that closes it. -/
  | blockComment (body closing : List Char)
  /-- A string with its quotes.  An end of the line may stand in place of the last quote. -/
  | string (opening body closing : List Char)
  deriving DecidableEq, Repr

namespace Token

/-- The characters of a token. -/
def text : Token → List Char
  | code c => [c]
  | lineComment body => '/' :: '/' :: body
  | blockComment body closing => '/' :: '*' :: (body ++ closing)
  | string opening body closing => opening ++ (body ++ closing)

/-- Whether a token is a comment. -/
def isComment : Token → Bool
  | code _ => false
  | lineComment _ => true
  | blockComment _ _ => true
  | string _ _ _ => false

/-- Whether an offset of a token lies strictly between the quotes of a string. -/
def isContent : Token → Nat → Bool
  | string opening body _, offset =>
    opening.length ≤ offset && offset < opening.length + body.length
  | _, _ => false

/-- A token with comments blanked and the content of a string shown through `inside`. -/
def shown (inside : Char → Char) : Token → List Char
  | code c => [c]
  | lineComment body => (lineComment body).text.map blank
  | blockComment body closing => (blockComment body closing).text.map blank
  | string opening body closing => opening ++ (body.map inside ++ closing)

end Token

/-- Takes the first token of a script.  Three equal quotes begin a string that knows no
backslashes and may hold line ends. -/
def readToken : Reader Token
  | [] => none
  | '/' :: '/' :: rest =>
    some (.lineComment (rest.takeWhile (· ≠ '\n')), rest.dropWhile (· ≠ '\n'))
  | '/' :: '*' :: rest =>
    let cut := upTo ['*', '/'] rest
    some (.blockComment cut.body cut.closing, cut.rest)
  | c :: rest =>
    if isQuote c then
      if [c, c] <+: rest then
        let cut := upTo [c, c, c] (rest.drop 2)
        some (.string [c, c, c] cut.body cut.closing, cut.rest)
      else
        let cut := upToQuote c rest
        some (.string [c] cut.body cut.closing, cut.rest)
    else some (.code c, rest)

/-- The tokens of a script, from left to right. -/
def tokens (script : List Char) : List Token := findValues (fun _ => true) readToken script

/-! ## The first token -/

/-- The ways in which a script consists of a token and a rest. -/
inductive Begins : List Char → Token → List Char → Prop
  | lineComment (text : List Char) :
    Begins ('/' :: '/' :: text) (.lineComment (text.takeWhile (· ≠ '\n')))
      (text.dropWhile (· ≠ '\n'))
  | blockComment (text : List Char) :
    Begins ('/' :: '*' :: text)
      (.blockComment (upTo ['*', '/'] text).body (upTo ['*', '/'] text).closing)
      (upTo ['*', '/'] text).rest
  | tripleQuoted (quote : Char) (text : List Char) (hquote : isQuote quote = true) :
    Begins (quote :: quote :: quote :: text)
      (.string [quote, quote, quote] (upTo [quote, quote, quote] text).body
        (upTo [quote, quote, quote] text).closing)
      (upTo [quote, quote, quote] text).rest
  | quoted (quote : Char) (text : List Char) (hquote : isQuote quote = true)
    (hsingle : ¬[quote, quote] <+: text) :
    Begins (quote :: text)
      (.string [quote] (upToQuote quote text).body (upToQuote quote text).closing)
      (upToQuote quote text).rest
  | code (c : Char) (text : List Char) (hquote : isQuote c = false)
    (hline : ∀ rest, c :: text ≠ '/' :: '/' :: rest)
    (hblock : ∀ rest, c :: text ≠ '/' :: '*' :: rest) : Begins (c :: text) (.code c) text

theorem begins_of_readToken {script rest : List Char} {token : Token}
    (h : readToken script = some (token, rest)) : Begins script token rest := by
  unfold readToken at h
  split at h
  · simp at h
  · next text =>
    obtain ⟨rfl, rfl⟩ := by simpa only [Option.some.injEq, Prod.mk.injEq] using h
    exact .lineComment text
  · next text =>
    obtain ⟨rfl, rfl⟩ := by simpa only [Option.some.injEq, Prod.mk.injEq] using h
    exact .blockComment text
  · next c text hline hblock =>
    by_cases hquote : isQuote c = true
    · rw [if_pos hquote] at h
      by_cases htriple : [c, c] <+: text
      · obtain ⟨tail, rfl⟩ := htriple
        rw [if_pos (List.prefix_append _ _)] at h
        obtain ⟨rfl, rfl⟩ := by simpa only [Option.some.injEq, Prod.mk.injEq] using h
        exact .tripleQuoted c tail hquote
      · rw [if_neg htriple] at h
        obtain ⟨rfl, rfl⟩ := by simpa only [Option.some.injEq, Prod.mk.injEq] using h
        exact .quoted c text hquote htriple
    · rw [if_neg hquote] at h
      obtain ⟨rfl, rfl⟩ := by simpa only [Option.some.injEq, Prod.mk.injEq] using h
      exact .code c text (by simpa using hquote) (by simpa using hline) (by simpa using hblock)

theorem exists_readToken {script : List Char} (h : script ≠ []) :
    ∃ token rest, readToken script = some (token, rest) := by
  unfold readToken
  split
  · exact absurd rfl h
  · exact ⟨_, _, rfl⟩
  · exact ⟨_, _, rfl⟩
  · split
    · split
      · exact ⟨_, _, rfl⟩
      · exact ⟨_, _, rfl⟩
    · exact ⟨_, _, rfl⟩

namespace Begins

variable {script rest : List Char} {token : Token}

theorem text_append (h : Begins script token rest) : script = token.text ++ rest := by
  cases h with
  | lineComment text => simp [Token.text, List.takeWhile_append_dropWhile]
  | blockComment text => simpa [Token.text] using (text_upTo ['*', '/'] text).symm
  | tripleQuoted quote text hquote =>
      simpa [Token.text] using (text_upTo [quote, quote, quote] text).symm
  | quoted quote text hquote hsingle =>
      simpa [Token.text] using (text_upToQuote quote text).symm
  | code c text hquote hline hblock => rfl

theorem text_ne_nil (h : Begins script token rest) : token.text ≠ [] := by
  cases h <;> simp [Token.text]

end Begins

/-! ## Masking a token -/

section Masking

variable (inside : Char → Char) (text : List Char)

theorem maskFrom_code_lineEnd (rest : List Char) :
    maskFrom inside .code ('\n' :: rest) = '\n' :: maskFrom inside .code rest :=
  maskFrom_code_cons (by decide) inside rest

theorem maskFrom_lineComment :
    maskFrom inside .lineComment text =
      (text.takeWhile (· ≠ '\n')).map blank ++
        maskFrom inside .code (text.dropWhile (· ≠ '\n')) := by
  induction text with
  | nil => simp [maskFrom]
  | cons c rest ih =>
      by_cases hend : c = '\n'
      · subst hend
        simp [maskFrom, maskFrom_code_lineEnd]
      · simp [maskFrom, hend, ih, blank]

theorem maskFrom_blockComment :
    maskFrom inside .blockComment text =
      ((upTo ['*', '/'] text).body ++ (upTo ['*', '/'] text).closing).map blank ++
        maskFrom inside .code (upTo ['*', '/'] text).rest := by
  induction text with
  | nil => simp [maskFrom, upTo]
  | cons c rest ih =>
      by_cases hend : ['*', '/'] <+: c :: rest
      · obtain ⟨tail, htail⟩ := hend
        rw [← htail]
        simp [maskFrom, upTo, blank]
      · have hopen : ∀ tail, c = '*' → rest ≠ '/' :: tail := by
          rintro tail rfl rfl
          exact hend ⟨tail, rfl⟩
        rw [maskFrom, upTo, if_neg hend, ih]
        · simp [Cut.cons]
        · exact hopen

theorem maskFrom_tripleQuoted (quote : Char) :
    maskFrom inside (.tripleQuoted quote) text =
      (upTo [quote, quote, quote] text).body.map inside ++
        ((upTo [quote, quote, quote] text).closing ++
          maskFrom inside .code (upTo [quote, quote, quote] text).rest) := by
  induction text with
  | nil => simp [maskFrom, upTo]
  | cons a text ih =>
      by_cases hend : [quote, quote, quote] <+: a :: text
      · obtain ⟨tail, htail⟩ := hend
        rw [← htail]
        simp [maskFrom, upTo]
      · rw [upTo, if_neg hend]
        rcases text with _ | ⟨b, _ | ⟨c, rest⟩⟩
        · rw [maskFrom, ih]
          · simp [Cut.cons]
          · simp
        · rw [maskFrom, ih]
          · simp [Cut.cons]
          · simp
        · have hother : ¬(a = quote ∧ b = quote ∧ c = quote) := by
            rintro ⟨rfl, rfl, rfl⟩
            exact hend ⟨rest, rfl⟩
          rw [maskFrom, if_neg hother, ih]
          simp [Cut.cons]

theorem maskFrom_quoted (quote : Char) :
    maskFrom inside (.quoted quote) text =
      (upToQuote quote text).body.map inside ++
        ((upToQuote quote text).closing ++ maskFrom inside .code (upToQuote quote text).rest) := by
  fun_induction upToQuote quote text with
  | case1 => simp [maskFrom]
  | case2 c rest hend =>
      rw [maskFrom.eq_def]
      simp [hend]
  | case3 hend =>
      rw [maskFrom.eq_def]
      simp only [if_neg hend]
      simp [maskFrom]
  | case4 escaped rest hend ih =>
      rw [maskFrom.eq_def]
      simp only [if_neg hend, ih]
      simp [Cut.cons]
  | case5 c rest hend hescape ih =>
      rw [maskFrom.eq_def]
      simp only [if_neg hend, if_neg hescape, ih]
      simp [Cut.cons]

/-- A quote that does not stand with two more of its kind begins an ordinary string. -/
theorem maskFrom_code_quote {quote : Char} (hquote : isQuote quote = true)
    (hsingle : ¬[quote, quote] <+: text) :
    maskFrom inside .code (quote :: text) = quote :: maskFrom inside (.quoted quote) text := by
  have hcases : quote = '"' ∨ quote = '\'' := by simpa [isQuote] using hquote
  have hnot : ∀ tail, text ≠ quote :: quote :: tail := by
    rintro tail rfl
    exact hsingle ⟨tail, rfl⟩
  rcases hcases with rfl | rfl <;> rw [maskFrom] <;> simp_all

end Masking

/-- A token at the front of a script is masked for itself. -/
theorem Begins.maskFrom_eq {script rest : List Char} {token : Token}
    (h : Begins script token rest) (inside : Char → Char) :
    maskFrom inside .code script = token.shown inside ++ maskFrom inside .code rest := by
  cases h with
  | lineComment text =>
      rw [maskFrom, maskFrom_lineComment]
      simp [Token.shown, Token.text, blank]
  | blockComment text =>
      rw [maskFrom, maskFrom_blockComment]
      simp [Token.shown, Token.text, blank]
  | tripleQuoted quote text hquote =>
      have hopen : maskFrom inside .code (quote :: quote :: quote :: text) =
          quote :: quote :: quote :: maskFrom inside (.tripleQuoted quote) text := by
        have hcases : quote = '"' ∨ quote = '\'' := by simpa [isQuote] using hquote
        rcases hcases with rfl | rfl <;> rw [maskFrom]
      rw [hopen, maskFrom_tripleQuoted]
      simp [Token.shown]
  | quoted quote text hquote hsingle =>
      rw [maskFrom_code_quote inside text hquote hsingle, maskFrom_quoted]
      simp [Token.shown]
  | code c text hquote hline hblock =>
      have hdouble : c ≠ '"' := by rintro rfl; simp [isQuote] at hquote
      have hsingle : c ≠ '\'' := by rintro rfl; simp [isQuote] at hquote
      rw [maskFrom, if_neg (by simp [hquote])] <;> simp_all [Token.shown]

/-! ## All tokens -/

theorem map_value_findFrom {α : Type} (read : Reader α) (offset skip : Nat)
    (previous : Option Char) (text : List Char) :
    (findFrom (fun _ => true) read offset skip previous text).map (·.value) =
      (findFrom (fun _ => true) read 0 skip none text).map (·.value) := by
  induction text generalizing offset skip previous with
  | nil => rfl
  | cons c rest ih =>
      cases skip with
      | succ skip =>
          rw [findFrom, findFrom, ih, ih (0 + 1)]
      | zero =>
          rw [findFrom, findFrom]
          split
          · rw [ih, ih (0 + 1)]
          · rw [List.map_cons, List.map_cons, ih, ih (0 + 1)]

theorem tokens_eq_cons {script rest : List Char} {token : Token}
    (h : readToken script = some (token, rest)) : tokens script = token :: tokens rest := by
  have hbegins := begins_of_readToken h
  rw [hbegins.text_append] at h ⊢
  rw [tokens, findValues, find, findFrom_of_read h hbegins.text_ne_nil 0 rfl, List.map_cons,
    map_value_findFrom]
  rfl

/-- What holds of a script without characters, and of a token with a rest if it holds of the rest,
holds of every script. -/
theorem tokens_induction {motive : List Char → List Token → Prop} (nil : motive [] [])
    (cons : ∀ script token rest, Begins script token rest → motive rest (tokens rest) →
      motive script (token :: tokens rest)) (script : List Char) :
    motive script (tokens script) := by
  induction hlength : script.length using Nat.strong_induction_on generalizing script with
  | _ length ih =>
      by_cases hempty : script = []
      · subst hempty
        exact nil
      · obtain ⟨token, rest, hread⟩ := exists_readToken hempty
        have hbegins := begins_of_readToken hread
        have hshorter : rest.length < length := by
          have htext := List.length_pos_iff.2 hbegins.text_ne_nil
          have hsplit := congrArg List.length hbegins.text_append
          rw [List.length_append] at hsplit
          omega
        rw [tokens_eq_cons hread]
        exact cons script token rest hbegins (ih rest.length hshorter rest rfl)

/-- The tokens of a script make up the script. -/
theorem flatMap_text_tokens (script : List Char) :
    (tokens script).flatMap Token.text = script := by
  refine tokens_induction (motive := fun script found => found.flatMap Token.text = script) rfl
    (fun script token rest hbegins ih => ?_) script
  rw [List.flatMap_cons, ih, ← hbegins.text_append]

theorem text_ne_nil_of_mem_tokens (script : List Char) :
    ∀ token ∈ tokens script, token.text ≠ [] := by
  refine tokens_induction (motive := fun _ found => ∀ token ∈ found, token.text ≠ [])
    (by simp) (fun script token rest hbegins ih => ?_) script
  exact List.forall_mem_cons.2 ⟨hbegins.text_ne_nil, ih⟩

/-- A script is masked token by token. -/
theorem maskFrom_code_eq_flatMap (inside : Char → Char) (script : List Char) :
    maskFrom inside .code script = (tokens script).flatMap (Token.shown inside) := by
  refine tokens_induction
    (motive := fun script found =>
      maskFrom inside .code script = found.flatMap (Token.shown inside))
    (by simp [maskFrom]) (fun script token rest hbegins ih => ?_) script
  rw [hbegins.maskFrom_eq, ih, List.flatMap_cons]

/-! ## The characters of a masked script -/

section Characters

variable {inside : Char → Char} {token : Token} {offset : Nat} {c : Char}

theorem Token.length_shown (inside : Char → Char) (token : Token) :
    (token.shown inside).length = token.text.length := by
  cases token <;> simp [Token.shown, Token.text]

theorem Token.length_flatMap_shown (inside : Char → Char) (found : List Token) :
    (found.flatMap (Token.shown inside)).length = (found.flatMap Token.text).length := by
  induction found with
  | nil => rfl
  | cons token rest ih =>
      rw [List.flatMap_cons, List.flatMap_cons, List.length_append, List.length_append, ih,
        Token.length_shown]

/-- The character of a shown string is that between its quotes or one of the quotes. -/
theorem getElem?_shown_string {opening body closing : List Char}
    (h : (opening ++ (body ++ closing))[offset]? = some c) :
    (opening ++ (body.map inside ++ closing))[offset]? =
      some (if opening.length ≤ offset ∧ offset < opening.length + body.length then inside c
        else c) := by
  by_cases hopening : offset < opening.length
  · rw [List.getElem?_append_left hopening] at h ⊢
    rw [if_neg (by omega), h]
  · rw [List.getElem?_append_right (by omega)] at h ⊢
    by_cases hbody : offset < opening.length + body.length
    · rw [List.getElem?_append_left (by omega)] at h
      rw [List.getElem?_append_left (by simp; omega), if_pos (by omega), List.getElem?_map, h,
        Option.map_some]
    · rw [List.getElem?_append_right (by omega)] at h
      rw [List.getElem?_append_right (by simp; omega), if_neg (by omega), List.length_map, h]

/-- A character of a token as it is shown. -/
theorem Token.getElem?_shown (h : token.text[offset]? = some c) :
    (token.shown inside)[offset]? =
      some (if token.isComment then blank c else if token.isContent offset then inside c
        else c) := by
  cases token with
  | code d => simpa [Token.shown, Token.text, Token.isComment, Token.isContent] using h
  | lineComment body =>
      rw [Token.shown, List.getElem?_map, h]
      rfl
  | blockComment body closing =>
      rw [Token.shown, List.getElem?_map, h]
      rfl
  | string opening body closing =>
      rw [Token.shown, getElem?_shown_string h]
      simp [Token.isComment, Token.isContent]

/-- The character that stands at an offset of a token in the shown script. -/
theorem getElem?_maskFrom_code (inside : Char → Char) {script : List Char}
    {before after : List Token}
    (hsplit : tokens script = before ++ token :: after) (h : token.text[offset]? = some c) :
    (maskFrom inside .code script)[(before.flatMap Token.text).length + offset]? =
      some (if token.isComment then blank c else if token.isContent offset then inside c
        else c) := by
  have hoffset : offset < (token.shown inside).length := by
    rw [Token.length_shown]
    exact (List.getElem?_eq_some_iff.1 h).1
  rw [maskFrom_code_eq_flatMap, hsplit, List.flatMap_append, List.flatMap_cons,
    ← Token.length_flatMap_shown inside, List.getElem?_append_right (by omega),
    Nat.add_sub_cancel_left, List.getElem?_append_left hoffset, Token.getElem?_shown h]

theorem blank_eq (c : Char) : blank c = if c = '\n' then c else ' ' := by
  unfold blank
  split
  · next h => exact h.symm
  · rfl

end Characters

/-- The tokens of a script stand one after the other in the script, each with at least one
character.  Masking keeps the length of the script and all ends of lines; of the other characters,
those in comments and those between the quotes of strings become blanks, and the rest stays.
Stripping comments does the same but leaves strings as they are. -/
theorem mask_tokens (script : List Char) :
    (tokens script).flatMap Token.text = script ∧
    (mask script).length = script.length ∧ (stripComments script).length = script.length ∧
    ∀ before token after, tokens script = before ++ token :: after →
      0 < token.text.length ∧
      (before.flatMap Token.text).length + token.text.length ≤ script.length ∧
      ∀ offset c, token.text[offset]? = some c →
        (mask script)[(before.flatMap Token.text).length + offset]? =
          some (if c = '\n' then c else if token.isComment || token.isContent offset then ' '
            else c) ∧
        (stripComments script)[(before.flatMap Token.text).length + offset]? =
          some (if c = '\n' then c else if token.isComment then ' ' else c) := by
  have htext := flatMap_text_tokens script
  refine ⟨htext, length_mask script, length_maskFrom _ _ _, fun before token after hsplit => ?_⟩
  have hmem : token ∈ tokens script := by simp [hsplit]
  refine ⟨List.length_pos_iff.2 (text_ne_nil_of_mem_tokens script token hmem), ?_, ?_⟩
  · have hlength := congrArg List.length htext
    rw [hsplit, List.flatMap_append, List.flatMap_cons, List.length_append,
      List.length_append] at hlength
    omega
  · intro offset c h
    have hmask := getElem?_maskFrom_code blank hsplit h
    have hstrip := getElem?_maskFrom_code id hsplit h
    constructor
    · rw [mask, hmask, blank_eq]
      split_ifs <;> simp_all
    · rw [stripComments, hstrip, blank_eq]
      split_ifs <;> simp_all

/-- A string that holds an escaped quote and the mark of a comment, and a comment that holds a
quote and an end of a line. -/
theorem mask_tokens_quotes :
    (tokens "'\\'/*'/*'\n*/".toList =
        [.string ['\''] ['\\', '\'', '/', '*'] ['\'']] ++
          .blockComment ['\'', '\n'] ['*', '/'] :: [] ∧
      (Token.blockComment ['\'', '\n'] ['*', '/']).text[2]? = some '\'') ∧
    (mask "'\\'/*'/*'\n*/".toList)[8]? = some ' ' ∧
    mask "'\\'/*'/*'\n*/".toList = "'    '   \n  ".toList := by
  have htokens : tokens "'\\'/*'/*'\n*/".toList =
      [.string ['\''] ['\\', '\'', '/', '*'] ['\'']] ++
        .blockComment ['\'', '\n'] ['*', '/'] :: [] := by decide +kernel
  have hmask := (mask_tokens "'\\'/*'/*'\n*/".toList).2.2.2 _ _ _ htokens
  exact ⟨⟨htokens, rfl⟩, (hmask.2.2 2 '\'' rfl).1, by decide +kernel⟩

end GradleWorkspace.Script
