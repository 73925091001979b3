import GradleWorkspace.BuildFile.Dependencies
import GradleWorkspace.Proofs.Script.Block

/-!
# Surface forms

A statement of a build file gives a string to a function, as in `implementation("a:b:1")`.  This
file says in which forms such a statement is written.

* `isLiteralChar` is the class of characters that the strings are made of.  Characters of this
  class neither end a string nor mean anything to the readers of statements.
* `Form` is a surface form: in Groovy, the parentheses around the argument may be missing.
* `optionalOpening_append` and `afterSpaced_append` pass over what stands before an argument.
* `yields_line` and `yields_nil_line` say what is read of a line with one statement.
-/

namespace GradleWorkspace.BuildFile

open Script Text

/-! ## Characters of strings -/

/-- Whether a character can be part of the name of a configuration. -/
def isConfigurationChar (c : Char) : Bool := c.isAlphanum || c == '_'

/-- Whether a character can be part of a string: of a name, a coordinate, a path or an address. -/
def isLiteralChar (c : Char) : Bool := c.isAlphanum || ['.', '-', '_', ':', '/'].contains c

theorem of_isLiteralChar (property : Char → Bool)
    (h : ∀ n < 128, isLiteralChar (Char.ofNat n) = true → property (Char.ofNat n) = true)
    {c : Char} (hc : isLiteralChar c = true) : property c = true := by
  refine forall_of_ascii h ?_ hc
  rcases Bool.or_eq_true_iff.1 hc with halnum | hother
  · exact toNat_lt_of_isAlphanum halnum
  · have hall : ∀ d ∈ ['.', '-', '_', ':', '/'], d.toNat < 128 := by decide
    exact hall c (List.contains_iff_mem.1 hother)

theorem isLiteralChar_of_isConfigurationChar {c : Char} (h : isConfigurationChar c = true) :
    isLiteralChar c = true := by
  rcases Bool.or_eq_true_iff.1 h with halnum | hother
  · simp [isLiteralChar, halnum]
  · obtain rfl : c = '_' := by simpa using hother
    decide

theorem isWordChar_of_isConfigurationChar {c : Char} (h : isConfigurationChar c = true) :
    isWordChar c = true := by
  have hc := of_isLiteralChar (fun c => !isConfigurationChar c || isWordChar c)
    (by decide) (isLiteralChar_of_isConfigurationChar h)
  simpa [h] using hc

theorem isPlain_of_isLiteralChar {c : Char} (h : isLiteralChar c = true) : isPlain c = true :=
  of_isLiteralChar isPlain (by decide) h

theorem isQuote_of_isLiteralChar {c : Char} (h : isLiteralChar c = true) : isQuote c = false := by
  have hplain := isPlain_of_isLiteralChar h
  cases hquote : isQuote c with
  | false => rfl
  | true => simp [isPlain, hquote] at hplain

theorem isBlank_of_isLiteralChar {c : Char} (h : isLiteralChar c = true) : isBlank c = false := by
  simpa using of_isLiteralChar (fun c => !isBlank c) (by decide) h

/-- The characters with a meaning in a statement are none of strings. -/
theorem ne_of_isLiteralChar {c d : Char} (h : isLiteralChar c = true)
    (hd : isLiteralChar d = false) : c ≠ d := by
  rintro rfl
  simp [h] at hd

/-! ## Forms -/

/-- A form in which a statement gives a string to a function. -/
inductive Form
  /-- As in `implementation 'a:b:1'`. -/
  | groovyCommand
  /-- As in `implementation('a:b:1')`. -/
  | groovyCall
  /-- As in `implementation("a:b:1")`. -/
  | kotlinCall
  deriving DecidableEq, Repr

namespace Form

/-- The dialect to which a form belongs. -/
def dialect : Form → Dialect
  | groovyCommand => .groovy
  | groovyCall => .groovy
  | kotlinCall => .kotlin

/-- The quotes around the string. -/
def quote : Form → Char
  | groovyCommand => '\''
  | groovyCall => '\''
  | kotlinCall => '"'

/-- What stands between the function and its argument. -/
def opening : Form → Char
  | groovyCommand => ' '
  | groovyCall => '('
  | kotlinCall => '('

/-- What stands after the argument. -/
def closing : Form → List Char
  | groovyCommand => []
  | groovyCall => [')']
  | kotlinCall => [')']

@[simp] theorem isQuote_quote (form : Form) : isQuote form.quote = true := by
  cases form <;> rfl

@[simp] theorem isWordChar_quote (form : Form) : isWordChar form.quote = false := by
  cases form <;> decide

@[simp] theorem isWordChar_opening (form : Form) : isWordChar form.opening = false := by
  cases form <;> decide

theorem quote_ne_parenthesis (form : Form) : form.quote ≠ '(' := by
  cases form <;> decide

theorem eq_of_mem_closing (form : Form) {c : Char} (h : c ∈ form.closing) : c = ')' := by
  cases form <;> simp_all [closing]

@[simp] theorem isNameBorder_quote (form : Form) : isNameBorder (some form.quote) = true := by
  cases form <;> decide

@[simp] theorem isBlank_quote (form : Form) : isBlank form.quote = false := by
  cases form <;> decide

end Form

/-! ## Names and strings -/

/-- The name of a configuration. -/
def IsConfiguration (name : String) : Prop :=
  name.toList ≠ [] ∧ ∀ c ∈ name.toList, isConfigurationChar c = true

/-- A string that may stand in quotes. -/
def IsLiteral (text : String) : Prop :=
  text.toList ≠ [] ∧ ∀ c ∈ text.toList, isLiteralChar c = true

instance (name : String) : Decidable (IsConfiguration name) :=
  inferInstanceAs (Decidable (_ ∧ _))

instance (text : String) : Decidable (IsLiteral text) :=
  inferInstanceAs (Decidable (_ ∧ _))

theorem IsConfiguration.isWord {name : String} (h : IsConfiguration name) :
    IsWord name.toList :=
  ⟨h.1, fun c hc => isWordChar_of_isConfigurationChar (h.2 c hc)⟩

theorem IsConfiguration.flat {name : String} (h : IsConfiguration name) : Flat name.toList :=
  flat_of_isWordChar h.isWord.2

theorem IsLiteral.flat {text : String} (h : IsLiteral text) (form : Form) :
    Flat (inQuotes form.quote text.toList) := by
  refine flat_inQuotes form.isQuote_quote (fun c hc => ?_) h.1
  have hc := h.2 c hc
  exact ⟨isPlain_of_isLiteralChar hc, ne_of_isLiteralChar hc (by decide),
    ne_of_isLiteralChar hc (by decide)⟩

/-- A string in quotes is read as it is written. -/
theorem IsLiteral.literal_eq {text : String} (h : IsLiteral text) (form : Form)
    (rest : List Char) :
    literal (inQuotes form.quote text.toList ++ rest) = some (text.toList, rest) := by
  have hshape : inQuotes form.quote text.toList ++ rest =
      form.quote :: (text.toList ++ form.quote :: rest) := by simp [inQuotes]
  rw [hshape]
  exact literal_append form.isQuote_quote (fun c hc => isQuote_of_isLiteralChar (h.2 c hc)) h.1 rest

/-! ## Before an argument -/

theorem optionalOpening_eq_self {c : Char} (hblank : isBlank c = false) (hc : c ≠ '(')
    (text : List Char) : optionalOpening (c :: text) = c :: text := by
  have hnone : after "(" (c :: text) = none := after_eq_none (by simp [Ne.symm hc])
  rw [optionalOpening, skipBlanks_cons hblank, optionally, hnone, Option.getD_none,
    skipBlanks_cons hblank]

theorem afterSpaced_eq_none {c : Char} (hblank : isBlank c = false) (hc : c ≠ '(')
    (text : List Char) : afterSpaced "(" (c :: text) = none := by
  rw [afterSpaced, next, skipBlanks_cons hblank, after_eq_none (by simp [Ne.symm hc]),
    Option.map_none]

theorem afterSpaced_append {c : Char} (hblank : isBlank c = false) (text : List Char) :
    afterSpaced "(" ('(' :: c :: text) = some (c :: text) :=
  afterSpaced_append_cons rfl (by decide) (List.forall_mem_nil _) (List.forall_mem_nil _) hblank
    text

theorem optionalOpening_append (form : Form) {c : Char} (hblank : isBlank c = false)
    (hc : c ≠ '(') (text : List Char) :
    optionalOpening (form.opening :: c :: text) = c :: text := by
  have hcommand : optionalOpening (' ' :: c :: text) = c :: text := by
    rw [optionalOpening, skipBlanks_of_isBlank (by decide)]
    exact optionalOpening_eq_self hblank hc text
  have hcall : optionalOpening ('(' :: c :: text) = c :: text := by
    have hafter : after "(" ('(' :: c :: text) = some (c :: text) := after_append "(" (c :: text)
    rw [optionalOpening, skipBlanks_cons (by decide), optionally, hafter,
      Option.getD_some, skipBlanks_cons hblank]
  cases form with
  | groovyCommand => exact hcommand
  | groovyCall => exact hcall
  | kotlinCall => exact hcall

/-! ## Calls -/

section Call

variable {α : Type} {name : String} {argument : Reader α}

/-- A call is read if its argument is read up to the closing parenthesis. -/
theorem call_append (name : String) {text inside rest : List Char} {value : α}
    (hopen : afterSpaced "(" text = some inside)
    (h : argument inside = some (value, ')' :: rest)) :
    call name argument (name.toList ++ text) = some (value, rest) := by
  have hclose : next ")" (')' :: rest) = some rest := by
    rw [next, skipBlanks_cons (by decide)]
    exact after_append ")" rest
  rw [call, after_append]
  simp only [Option.bind_eq_bind, Option.bind_some, hopen, h, hclose]
  rfl

theorem call_eq_none {text : List Char}
    (h : ∀ inside, afterSpaced "(" text = some inside → argument inside = none) :
    call name argument (name.toList ++ text) = none := by
  rw [call, after_append]
  cases hopen : afterSpaced "(" text with
  | none => simp [hopen]
  | some inside => simp [hopen, h inside hopen]

/-- Arguments after a name that is read already. -/
theorem arguments_append {text inside rest : List Char} {value : α}
    (hopen : afterSpaced "(" text = some inside)
    (h : argument inside = some (value, ')' :: rest)) :
    call "" argument text = some (value, rest) := call_append "" hopen h

theorem arguments_eq_none {text : List Char}
    (h : ∀ inside, afterSpaced "(" text = some inside → argument inside = none) :
    call "" argument text = none := @call_eq_none α "" _ _ h

end Call

/-! ## Lines -/

section Line

variable {α : Type} {read : Reader α}

theorem isNameBorder_lineEnd : isNameBorder (some '\n') = true := by decide

theorem silent_indentation (hread : NeedsWord read) (indent : Nat) :
    Silent read (List.replicate indent ' ') := by
  refine hread.silent fun c hc => ?_
  rw [List.eq_of_mem_replicate hc]
  decide

theorem yields_indentation {starts : Option Char → Bool} (hread : NeedsWord read)
    (hstarts : starts (some ' ') = true) (indent : Nat) :
    Yields starts read (List.replicate indent ' ') [] := by
  refine (silent_indentation hread indent).yields fun c hc => ?_
  rwa [List.eq_of_mem_replicate (List.mem_of_getLast? hc)]

theorem flat_replicate (indent : Nat) : Flat (List.replicate indent ' ') := by
  refine flat_of_forall fun c hc => ?_
  rw [List.eq_of_mem_replicate hc]
  decide

theorem forall_getLast?_append {property : Char → Prop} {front last : List Char}
    (hne : last ≠ []) (h : ∀ c ∈ last, property c) :
    ∀ c ∈ (front ++ last).getLast?, property c := by
  intro c hc
  rw [List.getLast?_append_of_ne_nil front hne] at hc
  exact h c (List.mem_of_getLast? hc)

/-- A line on which a statement is read, perhaps without the parenthesis at its end. -/
theorem yields_line (hread : NeedsWord read) (form : Form) (indent : Nat) (taken : List Char)
    {front left : List Char} {last : Char} {value : α}
    (hlast : isNameBorder (some last) = true) (hclosing : form.closing = taken ++ left)
    (h : ∀ rest, read (front ++ (last :: (taken ++ rest))) = some (value, rest)) :
    Yields isNameBorder read
      (List.replicate indent ' ' ++ (front ++ (last :: (form.closing ++ ['\n'])))) [value] := by
  have hparenthesis : ∀ c ∈ taken ++ left, c = ')' := by
    rw [← hclosing]
    exact fun _ => form.eq_of_mem_closing
  have hindent : Yields isNameBorder read (List.replicate indent ' ') [] :=
    yields_indentation hread (by decide) indent
  have hstatement : Yields isNameBorder read (front ++ (last :: taken)) [value] := by
    refine yields_singleton (fun rest => ?_) (by simp) (forall_getLast?_append (by simp) ?_)
    · rw [List.append_assoc, List.cons_append, h]
    · intro c hc
      rcases List.mem_cons.1 hc with rfl | hc
      · exact hlast
      · rw [hparenthesis c (List.mem_append_left _ hc)]
        decide
  have hend : Yields isNameBorder read (left ++ ['\n']) [] := by
    refine Silent.yields (hread.silent fun c hc => ?_) ?_
    · rcases List.mem_append.1 hc with hc | hc
      · rw [hparenthesis c (List.mem_append_right _ hc)]
        decide
      · rw [List.mem_singleton.1 hc]
        decide
    · exact forall_getLast?_append (by simp) (by simp [isNameBorder_lineEnd])
  have hshape : front ++ (last :: (form.closing ++ ['\n'])) =
      front ++ (last :: taken) ++ (left ++ ['\n']) := by
    rw [hclosing]
    simp
  rw [hshape]
  exact hindent.append (hstatement.append hend)

/-- A line on which nothing is read. -/
theorem yields_nil_line (hread : NeedsWord read) (indent : Nat) {name tail : List Char}
    (hname : IsWord name) (htail : Silent read tail) (hlast : tail.getLast? = some '\n')
    (hend : ∀ word rest, IsWord word → word <:+ name → read (word ++ (tail ++ rest)) = none) :
    Yields isNameBorder read (List.replicate indent ' ' ++ (name ++ tail)) [] := by
  have hline := (silent_indentation hread indent).append (htail.word_append hread hname hend)
  exact hline.yields_of_getLast? (by simp [hlast]) isNameBorder_lineEnd

theorem flat_lines {β : Type} {items : List β} {line : β → List Char}
    (h : ∀ item ∈ items, Flat (line item)) : Flat ('\n' :: items.flatMap line) :=
  have hlineEnd : Flat ['\n'] := flat_of_forall (by decide)
  hlineEnd.append (flat_flatMap h)

/-- In lines, a reader finds what it finds in each of them. -/
theorem yields_lines {β : Type} {starts : Option Char → Bool} {items : List β}
    {line : β → List Char} {values : β → List α}
    (hread : NeedsWord read) (hstarts : starts (some '\n') = true)
    (h : ∀ item ∈ items, Yields starts read (line item) (values item)) :
    Yields starts read ('\n' :: items.flatMap line) (items.flatMap values) := by
  have hfirst : Yields starts read ['\n'] [] := hread.yields (by decide) rfl hstarts
  exact hfirst.append (Yields.flatMap h)

/-- In lines in which a reader finds nothing, it finds nothing. -/
theorem yields_nil_lines {β : Type} {starts : Option Char → Bool} {items : List β}
    {line : β → List Char} (hread : NeedsWord read) (hstarts : starts (some '\n') = true)
    (h : ∀ item ∈ items, Yields starts read (line item) []) :
    Yields starts read ('\n' :: items.flatMap line) [] := by
  have hlines : Yields starts read ('\n' :: items.flatMap line) (items.flatMap fun _ => []) :=
    yields_lines hread hstarts h
  rwa [List.flatMap_eq_nil_iff.2 fun _ _ => rfl] at hlines

end Line

end GradleWorkspace.BuildFile
