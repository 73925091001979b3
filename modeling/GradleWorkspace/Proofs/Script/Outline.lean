import GradleWorkspace.BuildFile.Properties
import GradleWorkspace.Proofs.Script.Depth

/-!
# The text outside all braces

`topLevel` blanks what stands inside braces.  Whole tokens disappear with it, but those that are
left are the tokens that they were: masking the blanked script is the same as blanking the masked
one.

* `getElem?_outline` says which character stands at each offset.
* `mask_outline` says that the tokens outside all braces stay, and `topLevel_topLevel` that blanking
  twice makes no difference.
* `topLevel_shows_outside` puts this together and says what it means for properties.
-/

namespace GradleWorkspace.Script

/-! ## Characters outside all braces -/

/-- An offset of a masked text outside all braces, or at one of the two braces of an outermost
block. -/
def IsOutside (masked : List Char) (offset : Nat) : Prop :=
  braceDepth (masked.take offset) = 0 ∨
    masked[offset]? = some '}' ∧ braceDepth (masked.take offset) = 1

instance (masked : List Char) (offset : Nat) : Decidable (IsOutside masked offset) :=
  inferInstanceAs (Decidable (_ ∨ _))

section Characters

variable {depth : Nat} {masked script : List Char}

theorem outline_nil_right (depth : Nat) (masked : List Char) : outline depth masked [] = [] := by
  cases masked <;> rfl

/-- One character of a text is shown or blanked, and changes the depth. -/
theorem outline_cons (depth : Nat) (m c : Char) (masked script : List Char) :
    outline depth (m :: masked) (c :: script) =
      (if depth = 0 ∨ m = '}' ∧ depth = 1 then c else blank c) ::
        outline (nest depth m) masked script := by
  rw [outline]
  by_cases hclose : m = '}'
  · subst hclose
    have hinside : depth - 1 = 0 ↔ depth = 0 ∨ depth = 1 := by omega
    simp [nest, hinside]
  · simp [nest, hclose]

theorem length_outline (depth : Nat) (hlength : masked.length = script.length) :
    (outline depth masked script).length = script.length := by
  induction script generalizing depth masked with
  | nil => rw [outline_nil_right]
  | cons c script ih =>
      obtain ⟨m, masked, rfl⟩ := List.exists_cons_of_length_eq_add_one hlength
      rw [outline_cons, List.length_cons, ih _ (by simpa using hlength), List.length_cons]

/-- The character at an offset is shown or blanked, as the depth before it says. -/
theorem getElem?_outline (depth : Nat) (hlength : masked.length = script.length) {offset : Nat}
    {c : Char} (h : script[offset]? = some c) :
    (outline depth masked script)[offset]? =
      some (if (masked.take offset).foldl nest depth = 0 ∨
        masked[offset]? = some '}' ∧ (masked.take offset).foldl nest depth = 1 then c
          else blank c) := by
  induction script generalizing depth masked offset with
  | nil => simp at h
  | cons d script ih =>
      obtain ⟨m, masked, rfl⟩ := List.exists_cons_of_length_eq_add_one hlength
      rw [outline_cons]
      cases offset with
      | zero =>
          obtain rfl : d = c := by simpa using h
          simp
      | succ offset =>
          rw [List.getElem?_cons_succ] at h ⊢
          exact ih (nest depth m) (by simpa using hlength) h

theorem getElem?_topLevel {offset : Nat} {c : Char} (h : script[offset]? = some c) :
    (topLevel script)[offset]? =
      some (if IsOutside (mask script) offset then c else blank c) :=
  getElem?_outline 0 (length_mask script) h

end Characters

/-! ## Masking what is left -/

theorem blank_blank (c : Char) : blank (blank c) = blank c := by
  unfold blank
  split <;> decide

theorem Token.map_blank_shown (token : Token) :
    (token.shown blank).map blank = token.text.map blank := by
  cases token <;> simp [Token.shown, Token.text, Function.comp_def, blank_blank]

/-- Blanks are left when a script is masked. -/
theorem mask_blank_append (text rest : List Char) :
    mask (text.map blank ++ rest) = text.map blank ++ mask rest :=
  maskFrom_code_append (List.forall_mem_map.2 fun c _ => isCode_blank c) blank rest

/-- The rest of a script begins as before, or with a blank. -/
theorem head?_outline (depth : Nat) (masked script : List Char) :
    ∀ c ∈ (outline depth masked script).head?, script.head? = some c ∨ c = ' ' := by
  cases script with
  | nil => simp [outline_nil_right]
  | cons d script =>
      cases masked with
      | nil => simp [outline]
      | cons m masked =>
          intro c hc
          rw [outline_cons, List.head?_cons, Option.mem_some_iff, blank_eq] at hc
          subst hc
          split_ifs <;> simp

/-- Outside all braces it begins as before. -/
theorem head?_outline_zero {masked script : List Char} (hlength : masked.length = script.length) :
    (outline 0 masked script).head? = script.head? := by
  cases script with
  | nil => rw [outline_nil_right]
  | cons c script =>
      obtain ⟨m, masked, rfl⟩ := List.exists_cons_of_length_eq_add_one hlength
      rw [outline_cons, if_pos (.inl rfl), List.head?_cons, List.head?_cons]

/-- A token stays if what comes after it is blanked inside braces. -/
theorem Begins.of_outline {script rest : List Char} {token : Token} (h : Begins script token rest)
    (depth : Nat) (hcomment : token.isComment = true → depth = 0) :
    Begins (token.text ++ outline depth (mask rest) rest) token
      (outline depth (mask rest) rest) := by
  refine h.of_rest (fun hc => ?_) (by rintro rfl; exact outline_nil_right _ _)
    (head?_outline depth (mask rest) rest)
  rw [hcomment hc]
  exact head?_outline_zero (length_mask rest)

/-- Masking a script that is blanked inside braces is the same as blanking the masked script. -/
theorem mask_outline (script : List Char) (depth : Nat) :
    mask (outline depth (mask script) script) = outline depth (mask script) (mask script) := by
  refine tokens_induction (motive := fun script _ => ∀ depth,
    mask (outline depth (mask script) script) = outline depth (mask script) (mask script))
    (fun _ => rfl) ?_ script depth
  intro script token rest hbegins ih depth
  have hmask : mask script = token.shown blank ++ mask rest := hbegins.maskFrom_eq blank
  have hscript : script = token.text ++ rest := hbegins.text_append
  by_cases hcode : ∃ c, token = .code c
  · -- A character is shown or blanked and may change the depth.
    obtain ⟨c, rfl⟩ := hcode
    change mask script = c :: mask rest at hmask
    change script = c :: rest at hscript
    rw [hmask, hscript, outline_cons, outline_cons]
    split
    · have hshown := hbegins.of_outline (nest depth c) (by simp [Token.isComment])
      exact (hshown.maskFrom_eq blank).trans (congrArg (c :: ·) (ih _))
    · rw [← ih]
      exact maskFrom_code_cons (isCode_blank c) blank _
  · -- A comment or a string has no braces, so that it is shown or blanked as a whole.
    have hbrace := hbegins.hidesBraces.ne_brace (not_exists.1 hcode)
    rw [hmask, outline_append rfl hbrace, hscript,
      outline_append (Token.length_shown blank token) hbrace]
    split
    · next hdepth =>
      have hshown := hbegins.of_outline depth fun _ => hdepth
      exact (hshown.maskFrom_eq blank).trans (congrArg (token.shown blank ++ ·) (ih _))
    · rw [mask_blank_append, ih, Token.map_blank_shown]

/-- Inside an outermost block no braces are left, so that the depth is at most one there. -/
theorem nest_min_of_shown {depth : Nat} {m : Char} (h : depth = 0 ∨ m = '}' ∧ depth = 1) :
    nest (min depth 1) m = min (nest depth m) 1 := by
  rcases h with rfl | ⟨rfl, rfl⟩
  · unfold nest
    split_ifs <;> rfl
  · rfl

theorem nest_min_blank {depth : Nat} {m : Char} (h : ¬(depth = 0 ∨ m = '}' ∧ depth = 1)) :
    nest (min depth 1) (blank m) = min (nest depth m) 1 := by
  obtain ⟨hdepth, hclose⟩ := not_or.1 h
  simp only [nest, if_neg (blank_ne_brace (.inl rfl) m), if_neg (blank_ne_brace (.inr rfl) m)]
  split_ifs with hopen hend
  · omega
  · have : depth ≠ 1 := fun hone => hclose ⟨hend, hone⟩
    omega
  · rfl

/-- What is blanked stays blank, and what is shown stays. -/
theorem outline_outline (depth : Nat) {masked script : List Char}
    (hlength : masked.length = script.length) :
    outline (min depth 1) (outline depth masked masked) (outline depth masked script) =
      outline depth masked script := by
  induction script generalizing depth masked with
  | nil => rw [outline_nil_right, outline_nil_right]
  | cons c script ih =>
      obtain ⟨m, masked, rfl⟩ := List.exists_cons_of_length_eq_add_one hlength
      have hrest := ih (nest depth m) (by simpa using hlength)
      rw [outline_cons, outline_cons, outline_cons]
      by_cases hshown : depth = 0 ∨ m = '}' ∧ depth = 1
      · have hstill : min depth 1 = 0 ∨ m = '}' ∧ min depth 1 = 1 :=
          hshown.imp (fun h => by rw [h]; rfl) fun ⟨hm, h⟩ => ⟨hm, by rw [h]; rfl⟩
        rw [if_pos hshown, if_pos hshown, if_pos hstill, nest_min_of_shown hshown, hrest]
      · rw [if_neg hshown, if_neg hshown, nest_min_blank hshown, hrest, blank_blank, ite_self]

/-- Blanking what stands inside braces twice makes no difference. -/
theorem topLevel_topLevel (script : List Char) : topLevel (topLevel script) = topLevel script := by
  change outline 0 (mask (outline 0 (mask script) script)) (outline 0 (mask script) script) = _
  rw [mask_outline]
  exact outline_outline 0 (length_mask script)

/-! ## Properties outside all braces -/

/-- Outside all braces and at the braces of the outermost blocks, all characters stay, and so do all
ends of lines; the others become blanks.  Doing this twice makes no difference.  A property that is
found in what is left has the same value in the script. -/
theorem topLevel_shows_outside (script : List Char) :
    (topLevel script).length = script.length ∧
    (∀ offset c, script[offset]? = some c → (topLevel script)[offset]? =
      some (if c = '\n' ∨ IsOutside (mask script) offset then c else ' ')) ∧
    topLevel (topLevel script) = topLevel script ∧
    ∀ name value, BuildFile.property? name (topLevel script) = some value →
      BuildFile.property? name script = some value := by
  refine ⟨length_outline 0 (length_mask script), fun offset c h => ?_, topLevel_topLevel script,
    fun name value h => ?_⟩
  · rw [getElem?_topLevel h, blank_eq]
    split_ifs <;> simp_all
  · rw [BuildFile.property?, topLevel_topLevel, Option.or_self] at h
    obtain ⟨content, hcontent, rfl⟩ := Option.map_eq_some_iff.1 h
    rw [BuildFile.property?, hcontent, Option.some_or, Option.map_some]

/-- A script that assigns a version in a block and then outside all blocks, with a brace in a
comment and a stray one. -/
def versionInBlock : List Char :=
  ["/* \x7b */ next \x7b version = '2' \x7d\n", "\x7d version = '1'\n"].flatMap String.toList

theorem topLevel_shows_outside_versionInBlock :
    versionInBlock[15]? = some 'v' ∧ (topLevel versionInBlock)[15]? = some ' ' ∧
      BuildFile.property? "version" (topLevel versionInBlock) = some "1" ∧
      BuildFile.property? "version" versionInBlock = some "1" := by
  obtain ⟨-, hshown, -, hproperty⟩ := topLevel_shows_outside versionInBlock
  have hinside : versionInBlock[15]? = some 'v' := by decide
  have hhidden : ¬IsOutside (mask versionInBlock) 15 := by decide +kernel
  have hfound : BuildFile.property? "version" (topLevel versionInBlock) = some "1" := by
    decide +kernel
  refine ⟨hinside, ?_, hfound, hproperty "version" "1" hfound⟩
  rw [hshown 15 'v' hinside, if_neg (by simp [hhidden])]

end GradleWorkspace.Script
