import Mathlib.Data.List.Basic
import GradleWorkspace.Script.Mask

/-!
# Masking a script piece by piece

A script that is put together from code without quotes and slashes, and from string literals
whose contents have no quotes, backslashes and line ends, is masked piece by piece.

* `EndsInCode` says that a piece leaves the reading outside comments and strings.  Pieces of this
  kind are masked one by one.
* `maskFrom_code` and `maskFrom_string` are the two kinds of pieces.
* `Uncommented` pieces have no comments, so that stripping comments leaves them as they are.
* `mem_mask` says that masking brings no new characters into a script but blanks.
-/

namespace GradleWorkspace.Script

/-- What holds of all characters of a text is decided by looking at these only.  Without this
instance, all characters there are may be tried. -/
instance (priority := high) decidableForallMem (p : Char → Prop) [DecidablePred p]
    (text : List Char) : Decidable (∀ c ∈ text, p c) :=
  List.decidableBAll p text

/-! ## Pieces -/

/-- After the text, a reading that began outside comments and strings is there again. -/
def EndsInCode (text : List Char) : Prop :=
  ∀ (inside : Char → Char) (rest : List Char),
    maskFrom inside .code (text ++ rest) = maskFrom inside .code text ++ maskFrom inside .code rest

theorem endsInCode_nil : EndsInCode [] := fun _ _ => rfl

theorem EndsInCode.append {first second : List Char} (h : EndsInCode first)
    (h' : EndsInCode second) : EndsInCode (first ++ second) := by
  intro inside rest
  rw [List.append_assoc, h, h', h inside second, List.append_assoc]

theorem maskFrom_flatMap {α : Type} {items : List α} {piece : α → List Char}
    (inside : Char → Char) (h : ∀ item ∈ items, EndsInCode (piece item)) :
    maskFrom inside .code (items.flatMap piece) =
      items.flatMap fun item => maskFrom inside .code (piece item) := by
  induction items with
  | nil => rfl
  | cons item rest ih =>
      rw [List.flatMap_cons, h item List.mem_cons_self, List.flatMap_cons,
        ih fun other hother => h other (List.mem_cons_of_mem _ hother)]

theorem mask_append {first : List Char} (h : EndsInCode first) (second : List Char) :
    mask (first ++ second) = mask first ++ mask second := h blank second

theorem length_mask (text : List Char) : (mask text).length = text.length := length_maskFrom _ _ _

/-! ## Code -/

/-- Whether a character can begin neither a comment nor a string. -/
def isCode (c : Char) : Bool := !(isQuote c || c == '/')

theorem maskFrom_code_cons {c : Char} (h : isCode c = true) (inside : Char → Char)
    (rest : List Char) :
    maskFrom inside .code (c :: rest) = c :: maskFrom inside .code rest := by
  have hquote : isQuote c = false := by simp_all [isCode]
  have hslash : c ≠ '/' := by rintro rfl; simp [isCode] at h
  have hdouble : c ≠ '"' := by rintro rfl; simp [isCode, isQuote] at h
  have hsingle : c ≠ '\'' := by rintro rfl; simp [isCode, isQuote] at h
  rw [maskFrom, if_neg (by simp [hquote])] <;> simp [hslash, hdouble, hsingle]

theorem maskFrom_code_append {text : List Char} (h : ∀ c ∈ text, isCode c = true)
    (inside : Char → Char) (rest : List Char) :
    maskFrom inside .code (text ++ rest) = text ++ maskFrom inside .code rest := by
  induction text with
  | nil => rfl
  | cons c text ih =>
      rw [List.cons_append, maskFrom_code_cons (h c List.mem_cons_self), List.cons_append,
        ih fun d hd => h d (List.mem_cons_of_mem _ hd)]

/-- Code is shown as it is. -/
theorem maskFrom_code {text : List Char} (h : ∀ c ∈ text, isCode c = true)
    (inside : Char → Char) : maskFrom inside .code text = text := by
  simpa [maskFrom] using maskFrom_code_append h inside []

theorem endsInCode_of_isCode {text : List Char} (h : ∀ c ∈ text, isCode c = true) :
    EndsInCode text := fun inside rest => by
  rw [maskFrom_code_append h, maskFrom_code h]

/-! ## Strings -/

/-- A string literal in quotes of one kind. -/
def inQuotes (quote : Char) (content : List Char) : List Char := quote :: (content ++ [quote])

/-- Whether a character stands for itself inside a string, whatever the quotes are. -/
def isPlain (c : Char) : Bool := !(isQuote c || c == '\n' || c == '\\')

theorem maskFrom_quoted_close (quote : Char) (inside : Char → Char) (rest : List Char) :
    maskFrom inside (.quoted quote) (quote :: rest) = quote :: maskFrom inside .code rest := by
  simp [maskFrom.eq_def inside (.quoted quote)]

theorem maskFrom_quoted_cons {quote c : Char} (hquote : isQuote quote = true)
    (hc : isPlain c = true) (inside : Char → Char) (rest : List Char) :
    maskFrom inside (.quoted quote) (c :: rest) =
      inside c :: maskFrom inside (.quoted quote) rest := by
  have hother : c ≠ quote := by rintro rfl; simp [isPlain, hquote] at hc
  have hend : c ≠ '\n' := by rintro rfl; simp [isPlain] at hc
  have hescape : c ≠ '\\' := by rintro rfl; simp [isPlain] at hc
  simp [maskFrom.eq_def inside (.quoted quote) (c :: rest), hother, hend, hescape]

theorem maskFrom_quoted_append {quote : Char} {content : List Char}
    (hquote : isQuote quote = true) (hcontent : ∀ c ∈ content, isPlain c = true)
    (inside : Char → Char) (rest : List Char) :
    maskFrom inside (.quoted quote) (content ++ quote :: rest) =
      content.map inside ++ quote :: maskFrom inside .code rest := by
  induction content with
  | nil => exact maskFrom_quoted_close quote inside rest
  | cons c content ih =>
      rw [List.cons_append, maskFrom_quoted_cons hquote (hcontent c List.mem_cons_self),
        ih fun d hd => hcontent d (List.mem_cons_of_mem _ hd), List.map_cons, List.cons_append]

theorem maskFrom_string_append {quote : Char} {content : List Char}
    (hquote : isQuote quote = true) (hcontent : ∀ c ∈ content, isPlain c = true)
    (hne : content ≠ []) (inside : Char → Char) (rest : List Char) :
    maskFrom inside .code (inQuotes quote content ++ rest) =
      inQuotes quote (content.map inside) ++ maskFrom inside .code rest := by
  obtain ⟨first, tail, rfl⟩ := List.exists_cons_of_ne_nil hne
  have hfirst : first ≠ quote := by
    have := hcontent first List.mem_cons_self
    rintro rfl
    simp [isPlain, hquote] at this
  -- The content is not empty, so that the quote does not begin a string in triple quotes.
  have hopen : ∀ text, maskFrom inside .code (quote :: first :: text) =
      quote :: maskFrom inside (.quoted quote) (first :: text) := by
    intro text
    have hcases : quote = '"' ∨ quote = '\'' := by simpa [isQuote] using hquote
    rcases hcases with rfl | rfl <;> rw [maskFrom] <;> simp_all [isQuote]
  have hquoted := maskFrom_quoted_append hquote hcontent inside rest
  simp only [List.cons_append] at hquoted
  simp only [inQuotes, List.cons_append, List.append_assoc, List.nil_append, hopen, hquoted,
    List.map_cons]

/-- A string keeps its quotes, and its content is shown through `inside`. -/
theorem maskFrom_string {quote : Char} {content : List Char}
    (hquote : isQuote quote = true) (hcontent : ∀ c ∈ content, isPlain c = true)
    (hne : content ≠ []) (inside : Char → Char) :
    maskFrom inside .code (inQuotes quote content) = inQuotes quote (content.map inside) := by
  simpa [maskFrom] using maskFrom_string_append hquote hcontent hne inside []

theorem endsInCode_inQuotes {quote : Char} {content : List Char} (hquote : isQuote quote = true)
    (hcontent : ∀ c ∈ content, isPlain c = true) (hne : content ≠ []) :
    EndsInCode (inQuotes quote content) := fun inside rest => by
  rw [maskFrom_string_append hquote hcontent hne, maskFrom_string hquote hcontent hne]

/-! ## Scripts without comments -/

/-- A piece of a script that has no comments and leaves the reading outside strings. -/
structure Uncommented (text : List Char) : Prop where
  endsInCode : EndsInCode text
  stripComments_eq : stripComments text = text

theorem uncommented_nil : Uncommented [] := ⟨endsInCode_nil, rfl⟩

theorem Uncommented.append {first second : List Char} (h : Uncommented first)
    (h' : Uncommented second) : Uncommented (first ++ second) where
  endsInCode := h.endsInCode.append h'.endsInCode
  stripComments_eq := by
    have hfirst := h.stripComments_eq
    have hsecond := h'.stripComments_eq
    rw [stripComments] at hfirst hsecond
    rw [stripComments, h.endsInCode, hfirst, hsecond]

theorem uncommented_flatMap {α : Type} {items : List α} {piece : α → List Char}
    (h : ∀ item ∈ items, Uncommented (piece item)) : Uncommented (items.flatMap piece) := by
  induction items with
  | nil => exact uncommented_nil
  | cons item rest ih =>
      rw [List.flatMap_cons]
      exact (h item List.mem_cons_self).append
        (ih fun other hother => h other (List.mem_cons_of_mem _ hother))

theorem uncommented_of_isCode {text : List Char} (h : ∀ c ∈ text, isCode c = true) :
    Uncommented text := ⟨endsInCode_of_isCode h, maskFrom_code h id⟩

theorem uncommented_inQuotes {quote : Char} {content : List Char} (hquote : isQuote quote = true)
    (hcontent : ∀ c ∈ content, isPlain c = true) (hne : content ≠ []) :
    Uncommented (inQuotes quote content) where
  endsInCode := endsInCode_inQuotes hquote hcontent hne
  stripComments_eq := by rw [stripComments, maskFrom_string hquote hcontent hne, List.map_id]

/-! ## Characters of a masked script -/

theorem mem_maskFrom_blank {region : Region} {text : List Char} {c : Char}
    (h : c ∈ maskFrom blank region text) : c ∈ text ∨ c = ' ' := by
  have hblank : ∀ d, c = blank d → c = d ∨ c = ' ' := by
    intro d hd
    unfold blank at hd
    split at hd
    · next heq => exact Or.inl (hd.trans heq.symm)
    · exact Or.inr hd
  fun_induction maskFrom blank region text <;> grind

/-- A character of a masked script stands in the script, or it is a blank. -/
theorem mem_mask {text : List Char} {c : Char} (h : c ∈ mask text) : c ∈ text ∨ c = ' ' :=
  mem_maskFrom_blank h

end GradleWorkspace.Script
