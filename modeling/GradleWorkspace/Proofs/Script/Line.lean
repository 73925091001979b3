import GradleWorkspace.Proofs.Script.Cut

/-!
# Scripts masked line by line

A string that is not closed ends at the end of its line, so that it hides nothing of the next lines.
There is one exception: a backslash takes the end of the line along, as it takes any character, and
then the string goes on in the next line.

* `carriedQuote?` is the quote of a string that goes on in this way behind a line.
* `maskFrom_append_lineEnd` says what a line leaves to the next one, by going through its tokens: a
  closed token leaves what the rest of the line leaves (`Begins.of_lineEnd`), and
  `Begins.maskFrom_append_lineEnd` is about the others.
* `mask_append_lineEnd_iff` says which lines are masked apart from what comes after them.
-/

namespace GradleWorkspace.Script

/-! ## Lines -/

/-- A text within one line in which nothing begins that is meant to go on in the next line: neither
a comment after `/*` nor a string in three quotes. -/
structure IsSingleLine (line : List Char) : Prop where
  no_lineEnd : '\n' ∉ line
  no_tripleQuote : ∀ quote ∈ ['"', '\''], ¬[quote, quote, quote] <:+: line
  no_comment : ¬['/', '*'] <:+: line

theorem IsSingleLine.of_suffix {line rest : List Char} (h : IsSingleLine line)
    (hrest : rest <:+ line) : IsSingleLine rest where
  no_lineEnd := fun hmem => h.no_lineEnd (hrest.subset hmem)
  no_tripleQuote := fun quote hquote hin =>
    h.no_tripleQuote quote hquote (hin.trans hrest.isInfix)
  no_comment := fun hin => h.no_comment (hin.trans hrest.isInfix)

/-- Whether the content of a string ends with a backslash that has no character to take along. -/
def endsInEscape : List Char → Bool
  | [] => false
  | c :: rest =>
    if c = '\\' then
      match rest with
      | [] => true
      | _ :: rest => endsInEscape rest
    else endsInEscape rest

/-- The quote of a string that is not closed and takes the end of its line along. -/
def Token.carriedQuote? : Token → Option Char
  | string [quote] body [] => if endsInEscape body then some quote else none
  | _ => none

/-- The quote of the string that goes on behind a line, if there is one. -/
def carriedQuote? (line : List Char) : Option Char :=
  (tokens line).getLast?.bind Token.carriedQuote?

/-- Where a reading stands behind the end of a line. -/
def regionBehind (carried : Option Char) : Region := carried.elim .code .quoted

/-! ## What a line leaves to the next one -/

section Lines

variable {inside : Char → Char} {quote : Char} {text : List Char}

/-- A string that is not closed ends at the end of the line, unless a backslash takes the end of the
line along. -/
theorem maskFrom_quoted_append_lineEnd (hinside : inside '\n' = '\n')
    (hopen : (upToQuote quote text).closing = []) (next : List Char) :
    maskFrom inside (.quoted quote) (text ++ '\n' :: next) =
      text.map inside ++ '\n' ::
        maskFrom inside (if endsInEscape text then .quoted quote else .code) next := by
  fun_induction upToQuote quote text with
  | case1 => simp [maskFrom.eq_def inside (.quoted quote), endsInEscape]
  | case2 c rest hend => simp at hopen
  | case3 hend =>
      rw [List.singleton_append, maskFrom.eq_def]
      simp only [if_neg hend]
      simp [hinside, endsInEscape]
  | case4 escaped rest hend ih =>
      rw [List.cons_append, List.cons_append, maskFrom.eq_def]
      simp only [if_neg hend, ih hopen]
      simp [endsInEscape]
  | case5 c rest hend hescape ih =>
      rw [List.cons_append, maskFrom.eq_def, endsInEscape.eq_def (c :: rest)]
      simp only [if_neg hend, if_neg hescape, ih hopen]
      rfl

theorem not_prefix_append_lineEnd (hquote : isQuote quote = true)
    (hsingle : ¬[quote, quote] <+: text) (next : List Char) :
    ¬[quote, quote] <+: text ++ '\n' :: next := by
  intro hprefix
  have hlineEnd : quote ≠ '\n' := by rintro rfl; simp [isQuote] at hquote
  rcases text with _ | ⟨c, _ | ⟨d, text⟩⟩
  · simp [hlineEnd] at hprefix
  · simp [hlineEnd] at hprefix
  · exact hsingle (List.prefix_of_prefix_length_le hprefix (List.prefix_append _ _) (by simp))

/-- A token that is not closed leaves the next line to be masked for itself, unless it is a string
that takes the end of the line along. -/
theorem Begins.maskFrom_append_lineEnd {script rest : List Char} {token : Token}
    (h : Begins script token rest) (hline : IsSingleLine script) (hopen : token.isClosed = false)
    (hinside : inside '\n' = '\n') (next : List Char) :
    rest = [] ∧ maskFrom inside .code (script ++ '\n' :: next) =
      token.shown inside ++ '\n' :: maskFrom inside (regionBehind token.carriedQuote?) next := by
  cases h with
  | lineComment text =>
      have htext : ∀ c ∈ text, decide (c ≠ '\n') = true := fun c hc => by
        simpa using ne_of_mem_of_not_mem (List.mem_cons_of_mem _ (List.mem_cons_of_mem _ hc))
          hline.no_lineEnd
      have hnone : text.dropWhile (· ≠ '\n') = [] := List.dropWhile_eq_nil_iff.2 htext
      have hall : text.takeWhile (· ≠ '\n') = text := List.takeWhile_eq_self_iff.2 htext
      refine ⟨hnone, ?_⟩
      rw [hall, List.cons_append, List.cons_append, maskFrom, maskFrom_lineComment,
        List.takeWhile_append_of_pos htext, List.dropWhile_append_of_pos htext]
      simp [maskFrom_code_lineEnd, Token.shown, Token.text, Token.carriedQuote?, regionBehind,
        blank]
  | blockComment text => exact absurd ⟨[], text, rfl⟩ hline.no_comment
  | tripleQuoted quote text hquote =>
      have hkind : quote ∈ ['"', '\''] := by simpa [isQuote] using hquote
      exact absurd ⟨[], text, rfl⟩ (hline.no_tripleQuote quote hkind)
  | quoted quote text hquote hsingle =>
      have hnone : (upToQuote quote text).closing = [] := by simpa [Token.isClosed] using hopen
      refine ⟨rest_upToQuote hnone, ?_⟩
      rw [List.cons_append, maskFrom_code_quote inside _ hquote
          (not_prefix_append_lineEnd hquote hsingle next),
        maskFrom_quoted_append_lineEnd hinside hnone]
      simp only [hnone, body_upToQuote hnone, Token.shown, Token.carriedQuote?, List.append_nil,
        List.cons_append, List.nil_append]
      split <;> rfl
  | code c text hquote hline hblock => simp [Token.isClosed] at hopen

/-- Behind a closed token, the end of a line is as good as the end of the script. -/
theorem Begins.of_lineEnd {script rest : List Char} {token : Token} (h : Begins script token rest)
    (hclosed : token.isClosed = true) (next : List Char) :
    Begins (token.text ++ (rest ++ '\n' :: next)) token (rest ++ '\n' :: next) := by
  refine h.of_isClosed hclosed fun c hc => ?_
  cases rest with
  | nil =>
      obtain rfl : '\n' = c := by simpa using hc
      exact .inr ⟨rfl, fun _ => by decide⟩
  | cons d rest => exact .inl hc

theorem Token.carriedQuote?_eq_none {token : Token} (hclosed : token.isClosed = true) :
    token.carriedQuote? = none := by
  unfold Token.carriedQuote?
  split
  · simp [Token.isClosed] at hclosed
  · rfl

theorem bind_carriedQuote?_cons {token : Token} (hclosed : token.isClosed = true)
    (others : List Token) :
    (token :: others).getLast?.bind Token.carriedQuote? =
      others.getLast?.bind Token.carriedQuote? := by
  cases others with
  | nil => exact Token.carriedQuote?_eq_none hclosed
  | cons other others => rw [List.getLast?_cons_cons]

end Lines

/-- What a line leaves to the next one: after its end, the reading is outside comments and strings,
or in the string that goes on behind the line. -/
theorem maskFrom_append_lineEnd (inside : Char → Char) {line : List Char}
    (hline : IsSingleLine line) (hinside : inside '\n' = '\n') (next : List Char) :
    maskFrom inside .code (line ++ '\n' :: next) =
      maskFrom inside .code line ++
        '\n' :: maskFrom inside (regionBehind (carriedQuote? line)) next := by
  refine tokens_induction (motive := fun script found => IsSingleLine script →
    maskFrom inside .code (script ++ '\n' :: next) = maskFrom inside .code script ++
      '\n' :: maskFrom inside (regionBehind (found.getLast?.bind Token.carriedQuote?)) next)
    (fun _ => maskFrom_code_lineEnd inside next) ?_ line hline
  intro script token rest hbegins ih hscript
  cases hclosed : token.isClosed with
  | true =>
      have hrest := ih (hscript.of_suffix ⟨token.text, hbegins.text_append.symm⟩)
      rw [bind_carriedQuote?_cons hclosed, hbegins.maskFrom_eq, hbegins.text_append,
        List.append_assoc, (hbegins.of_lineEnd hclosed next).maskFrom_eq, hrest,
        List.append_assoc]
  | false =>
      obtain ⟨rfl, hmask⟩ := hbegins.maskFrom_append_lineEnd hscript hclosed hinside next
      rw [hmask, hbegins.maskFrom_eq]
      simp [maskFrom, tokens, findValues, find, findFrom]

/-! ## Lines that are masked apart -/

/-- A line and what comes after it are masked apart, so that nothing in the line hides a brace or a
quote of the next lines, just if no string goes on behind the line. -/
theorem mask_append_lineEnd_iff {line : List Char} (hline : IsSingleLine line) :
    (∀ next, mask (line ++ '\n' :: next) = mask line ++ '\n' :: mask next) ↔
      carriedQuote? line = none := by
  constructor
  · intro hall
    cases hcarried : carriedQuote? line with
    | none => rfl
    | some quote =>
        -- The string that goes on would have to show both braces, but it shows its own quote only.
        have hshown : ∀ brace ∈ ['{', '}'], brace = quote := by
          intro brace hbrace
          have hmask := hall [brace]
          simp only [mask, maskFrom_append_lineEnd blank hline rfl, hcarried,
            List.append_cancel_left_eq, List.cons.injEq, true_and] at hmask
          by_contra hne
          rcases List.mem_pair.1 hbrace with rfl | rfl <;>
            simp [maskFrom, regionBehind, hne, blank] at hmask
        exact absurd ((hshown '{' (by simp)).trans (hshown '}' (by simp)).symm) (by decide)
  · intro hnone next
    rw [mask, maskFrom_append_lineEnd blank hline rfl, hnone]
    rfl

/-- A line with a string that is not closed.  It holds an escaped quote and ends with a backslash
that is escaped itself, and the brace of the next line stays. -/
theorem mask_append_lineEnd_unclosed :
    IsSingleLine "a = 'b\\'\x7b\\\\".toList ∧
    mask "a = 'b\\'\x7b\\\\\n\x7d".toList = "a = '      \n\x7d".toList := by
  have hline : IsSingleLine "a = 'b\\'\x7b\\\\".toList :=
    ⟨by decide +kernel, by decide +kernel, by decide +kernel⟩
  have hnone : carriedQuote? "a = 'b\\'\x7b\\\\".toList = none := by decide +kernel
  exact ⟨hline, ((mask_append_lineEnd_iff hline).2 hnone ['}']).trans (by decide +kernel)⟩

/-- A backslash at the end of a line takes the end of the line along, and the string hides the brace
of the next line. -/
theorem escaped_lineEnd_hides_brace :
    IsSingleLine "a = \"b\\".toList ∧
    mask ("a = \"b\\".toList ++ '\n' :: ['}']) ≠ mask "a = \"b\\".toList ++ '\n' :: mask ['}'] :=
  ⟨⟨by decide +kernel, by decide +kernel, by decide +kernel⟩, by decide +kernel⟩

end GradleWorkspace.Script
