import GradleWorkspace.Proofs.Script.Cut

/-!
# Comments put into a script

A comment can be put into a script between two tokens.  The tokens before it and behind it stay, and
for both ways of masking it is the same as the blanks that could stand in its place.

* `AdmitsComment` says at which offsets this is so.  A line comment and a token that is cut off by
  the end of the script would take the comment in, and a slash would make another comment of it.
* `upTo_commentEnd` says that a comment ends where it is closed, whatever else stands in it.
* `AdmitsComment.maskFrom_insertAt_commentText` and `AdmitsComment.maskFrom_insertAt_blank` mask a
  script with a comment and a script with blanks.
-/

namespace GradleWorkspace.Script

/-! ## Places for a comment -/

/-- Whether a comment after `/*` can be put in behind a token. -/
def Token.admitsComment (token : Token) : Bool := token.isClosed && token != .code '/'

/-- Whether a comment after `/*` can be put into a script at an offset: at its start, or behind a
token that allows it. -/
def AdmitsComment (script : List Char) (offset : Nat) : Prop :=
  ∃ before after, tokens script = before ++ after ∧ (before.flatMap Token.text).length = offset ∧
    ∀ token ∈ before.getLast?, token.admitsComment = true

/-- A script with a piece put in at an offset. -/
def insertAt (offset : Nat) (piece script : List Char) : List Char :=
  script.take offset ++ (piece ++ script.drop offset)

/-- The text of a comment after `/*` that is closed. -/
def commentText (body : List Char) : List Char := (Token.blockComment body ['*', '/']).text

section Places

variable {script : List Char} {offset : Nat}

theorem Begins.of_admitsComment {rest rest' : List Char} {token : Token}
    (h : Begins script token rest) (hadmits : token.admitsComment = true)
    (hhead : ∀ c ∈ rest'.head?, isQuote c = false) : Begins (token.text ++ rest') token rest' := by
  obtain ⟨hclosed, hslash⟩ : token.isClosed = true ∧ token ≠ .code '/' := by
    simpa [Token.admitsComment] using hadmits
  exact h.of_isClosed hclosed fun c hc => .inr ⟨hhead c hc, fun heq => absurd heq hslash⟩

/-- Behind a token that allows a comment, the text can be exchanged for one that does not begin with
a quote. -/
theorem tokens_append_of_admitsComment {rest : List Char} {before after : List Token}
    (h : tokens script = before ++ after)
    (hlast : ∀ token ∈ before.getLast?, token.admitsComment = true)
    (hhead : ∀ c ∈ rest.head?, isQuote c = false) :
    tokens (before.flatMap Token.text ++ rest) = before ++ tokens rest := by
  rcases List.eq_nil_or_concat before with rfl | ⟨front, token, rfl⟩
  · rfl
  · rw [List.concat_eq_append] at *
    rw [List.append_assoc, List.singleton_append] at h
    have hadmits := hlast token (by simp)
    have hbegins := (begins_of_tokens_eq h).of_admitsComment hadmits hhead
    simpa using tokens_append_of_begins h hbegins

/-- The text before a place for a comment is masked for itself, and so is what is put in there
together with the text behind. -/
theorem AdmitsComment.maskFrom_insertAt (h : AdmitsComment script offset) {c : Char}
    (hc : isQuote c = false) (piece : List Char) (inside : Char → Char) :
    maskFrom inside .code (insertAt offset (c :: piece) script) =
      maskFrom inside .code (script.take offset) ++
        maskFrom inside .code (c :: (piece ++ script.drop offset)) := by
  obtain ⟨before, after, htokens, hlength, hlast⟩ := h
  have htake : script.take offset = before.flatMap Token.text := by
    rw [← flatMap_text_tokens script, htokens, List.flatMap_append, ← hlength, List.take_left]
  have hfront : tokens (before.flatMap Token.text ++ []) = before ++ [] :=
    tokens_append_of_admitsComment htokens hlast (by simp)
  rw [List.append_nil, List.append_nil] at hfront
  have hwhole : tokens (before.flatMap Token.text ++ c :: (piece ++ script.drop offset)) =
      before ++ tokens (c :: (piece ++ script.drop offset)) :=
    tokens_append_of_admitsComment htokens hlast (by simpa using hc)
  rw [insertAt, htake, List.cons_append]
  simp only [maskFrom_code_eq_flatMap, hwhole, hfront, List.flatMap_append]

end Places

/-! ## Comments and blanks -/

/-- A comment ends where it is closed. -/
theorem upTo_commentEnd {body : List Char} (h : ¬['*', '/'] <:+: body) (rest : List Char) :
    upTo ['*', '/'] (body ++ '*' :: '/' :: rest) = ⟨body, ['*', '/'], rest⟩ := by
  induction body with
  | nil => simp [upTo]
  | cons c body ih =>
      have hbody : ¬['*', '/'] <:+: body := fun hin =>
        h (hin.trans (List.suffix_cons c body).isInfix)
      -- A star that ends the body is followed by the star of the end, and not by a slash.
      have hnot : ¬['*', '/'] <+: c :: (body ++ '*' :: '/' :: rest) := by
        intro hprefix
        obtain ⟨rfl, hnext⟩ := List.cons_prefix_cons.1 hprefix
        cases body with
        | nil => simp at hnext
        | cons d body =>
            obtain ⟨rfl, -⟩ := List.cons_prefix_cons.1 hnext
            exact h ⟨[], body, rfl⟩
      rw [List.cons_append, upTo, if_neg hnot, ih hbody]
      rfl

theorem begins_commentText {body : List Char} (h : ¬['*', '/'] <:+: body) (rest : List Char) :
    Begins (commentText body ++ rest) (.blockComment body ['*', '/']) rest := by
  have hbegins := Begins.blockComment (body ++ '*' :: '/' :: rest)
  rw [upTo_commentEnd h] at hbegins
  simpa [commentText, Token.text] using hbegins

variable {script : List Char} {offset : Nat} {body : List Char}

/-- A comment that is put into a script is blanked, and the texts before it and behind it are masked
for themselves. -/
theorem AdmitsComment.maskFrom_insertAt_commentText (h : AdmitsComment script offset)
    (hbody : ¬['*', '/'] <:+: body) (inside : Char → Char) :
    maskFrom inside .code (insertAt offset (commentText body) script) =
      maskFrom inside .code (script.take offset) ++
        ((commentText body).map blank ++ maskFrom inside .code (script.drop offset)) := by
  have hcomment := (begins_commentText hbody (script.drop offset)).maskFrom_eq inside
  have hwhole := h.maskFrom_insertAt (c := '/') rfl ('*' :: (body ++ ['*', '/'])) inside
  exact hwhole.trans (congrArg (_ ++ ·) hcomment)

/-- Blanks that are put into a script stay. -/
theorem AdmitsComment.maskFrom_insertAt_blank (h : AdmitsComment script offset)
    (inside : Char → Char) :
    maskFrom inside .code (insertAt offset ((commentText body).map blank) script) =
      maskFrom inside .code (script.take offset) ++
        ((commentText body).map blank ++ maskFrom inside .code (script.drop offset)) := by
  have hcode : ∀ c ∈ (commentText body).map blank, isCode c = true := by
    simpa using fun c _ => isCode_blank c
  have hblanks := maskFrom_code_append hcode inside (script.drop offset)
  have hwhole := h.maskFrom_insertAt (c := ' ') rfl
    (('*' :: (body ++ ['*', '/'])).map blank) inside
  exact hwhole.trans (congrArg (_ ++ ·) hblanks)

end GradleWorkspace.Script
