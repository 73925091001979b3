import GradleWorkspace.BuildFile.Parser
import GradleWorkspace.Proofs.BuildFile.Coordinate

/-!
# Reading the block of dependencies

A statement of the block `dependencies` names a configuration and gives it a coordinate or a
reference to a module.  Written one per line, in whatever form, statements are read as they are.

* `Statement.line` is the text of a statement.  `Statement.yields_external` and
  `Statement.yields_project` say what is read of it, whatever comes after: neither the name of the
  configuration nor the string nor `project` is mistaken for the beginning of a further statement.
* `dependencies_append` is about the block as a part of a script, and `parse_statementLines` about
  a build file that has this block only.
-/

namespace GradleWorkspace.BuildFile

open Script Text

/-! ## Statements -/

/-- A statement of the block `dependencies`: a configuration with a coordinate or with a reference
to a module. -/
inductive Statement
  | artifact (configuration coordinate : String)
  | reference (configuration path : String)
  deriving DecidableEq, Repr

namespace Statement

/-- The configuration that a statement begins with. -/
def configuration : Statement → String
  | artifact configuration _ => configuration
  | reference configuration _ => configuration

/-- The argument of the configuration in a form. -/
def argument (form : Form) : Statement → List Char
  | artifact _ coordinate => inQuotes form.quote coordinate.toList
  | reference _ path =>
    "project".toList ++ ('(' :: inQuotes form.quote path.toList ++ [')'])

/-- A statement in a form, on a line of its own that is indented. -/
def line (form : Form) (indent : Nat) (statement : Statement) : List Char :=
  List.replicate indent ' ' ++ (statement.configuration.toList ++
    (form.opening :: (statement.argument form ++ form.closing ++ ['\n'])))

/-- The names and strings of a statement are of the right characters, and the path of a module
begins with a colon. -/
def Writable : Statement → Prop
  | artifact configuration coordinate => IsConfiguration configuration ∧ IsLiteral coordinate
  | reference configuration path =>
    IsConfiguration configuration ∧ IsLiteral path ∧ path.toList.head? = some ':'

instance (statement : Statement) : Decidable statement.Writable :=
  match statement with
  | artifact _ _ => inferInstanceAs (Decidable (_ ∧ _))
  | reference _ _ => inferInstanceAs (Decidable (_ ∧ _))

/-- The published artifact that a statement declares, if its string is a coordinate. -/
def external? : Statement → Option Dependency
  | artifact configuration coordinate =>
    (coordinateIn? coordinate.toList).map fun (group, name, version) =>
      .external configuration group name version
  | reference _ _ => none

/-- The module that a statement refers to. -/
def project? : Statement → Option Dependency
  | artifact _ _ => none
  | reference configuration path => some (.project configuration path)

end Statement

/-! ## Readers -/

section Readers

variable {dialect : Dialect} {word text : List Char} {c : Char}

/-- The text from the argument on, after a configuration. -/
def argumentAfter : Dialect → List Char → Option (List Char)
  | .groovy, text => some (optionalOpening text)
  | .kotlin, text => afterSpaced "(" text

theorem argumentAfter_opening (form : Form) (hblank : isBlank c = false) (hc : c ≠ '(')
    (text : List Char) :
    argumentAfter form.dialect (form.opening :: c :: text) = some (c :: text) := by
  cases form with
  | groovyCommand => exact congrArg some (optionalOpening_append .groovyCommand hblank hc text)
  | groovyCall => exact congrArg some (optionalOpening_append .groovyCall hblank hc text)
  | kotlinCall => exact afterSpaced_append hblank text

theorem argumentAfter_parenthesis (dialect : Dialect) (hblank : isBlank c = false) (hc : c ≠ '(')
    (text : List Char) : argumentAfter dialect ('(' :: c :: text) = some (c :: text) := by
  cases dialect with
  | groovy => exact argumentAfter_opening .groovyCall hblank hc text
  | kotlin => exact argumentAfter_opening .kotlinCall hblank hc text

theorem eq_of_argumentAfter (hblank : isBlank c = false) (hc : c ≠ '(') {inside : List Char}
    (h : argumentAfter dialect (c :: text) = some inside) : inside = c :: text := by
  cases dialect with
  | groovy =>
      rw [argumentAfter, optionalOpening_eq_self hblank hc] at h
      exact (Option.some.inj h).symm
  | kotlin => simp [argumentAfter, afterSpaced_eq_none hblank hc] at h

theorem needsWord_readExternal (dialect : Dialect) : NeedsWord (readExternal dialect) := by
  intro text htext
  have hrun : run isWordChar text = none := by
    cases text with
    | nil => rfl
    | cons c text => exact run_cons_eq_none (htext c rfl) text
  cases dialect <;> rw [readExternal, hrun] <;> rfl

theorem needsWord_readProject (dialect : Dialect) : NeedsWord (readProject dialect) := by
  intro text htext
  have hrun : run isWordChar text = none := by
    cases text with
    | nil => rfl
    | cons c text => exact run_cons_eq_none (htext c rfl) text
  cases dialect with
  | groovy =>
      rw [readProject, readProjectCommand, hrun]
      rfl
  | kotlin =>
      rw [readProject, hrun]
      rfl

/-- Without a coordinate after the configuration, no artifact is read. -/
theorem readExternal_eq_none (hword : IsWord word) (hc : isWordChar c = false)
    (h : ∀ inside, argumentAfter dialect (c :: text) = some inside → readCoordinate inside = none) :
    readExternal dialect (word ++ c :: text) = none := by
  cases dialect with
  | groovy =>
      have hargument := h _ rfl
      rw [readExternal, run_append hword.2 hword.1 hc]
      simp only [Option.bind_eq_bind, Option.bind_some, hargument, Option.bind_none]
      split <;> rfl
  | kotlin =>
      have hcall : call "" readCoordinate (c :: text) = none := arguments_eq_none h
      rw [readExternal, run_append hword.2 hword.1 hc]
      simp only [Option.bind_eq_bind, Option.bind_some, hcall, Option.bind_none]

/-- Without a reference after the configuration, no module is read.  In Groovy the configuration
may also end in `project`. -/
theorem readProject_eq_none (hword : IsWord word) (hc : isWordChar c = false)
    (h : ∀ inside, argumentAfter dialect (c :: text) = some inside →
      readProjectCall dialect inside = none)
    (hglued : dialect = .groovy → beforeProject? word = none ∨
      readProjectArguments .groovy (c :: text) = none) :
    readProject dialect (word ++ c :: text) = none := by
  cases dialect with
  | groovy =>
      have hargument := h _ rfl
      rw [readProject, readProjectCommand, run_append hword.2 hword.1 hc]
      simp only [Option.bind_eq_bind, Option.bind_some, hargument]
      rcases hglued rfl with hnone | hnone
      · simp only [hnone, Option.bind_none]
      · simp only [hnone, Option.bind_none, Option.bind_fun_none]
  | kotlin =>
      have hcall : call "" (readProjectCall .kotlin) (c :: text) = none := arguments_eq_none h
      rw [readProject, run_append hword.2 hword.1 hc]
      simp only [Option.bind_eq_bind, Option.bind_some, hcall, Option.bind_none]

theorem readCoordinate_cons_eq_none (hc : isQuote c = false) :
    readCoordinate (c :: text) = none := by
  rw [readCoordinate, if_neg (by simp [hc])]

/-- After the end of a string, up to the end of the line, no coordinate begins. -/
theorem readCoordinate_closing_eq_none {quote : Char} (hquote : isQuote quote = true)
    {closing : List Char} (hclosing : ∀ c ∈ closing, c = ')') (rest : List Char) :
    readCoordinate (quote :: (closing ++ '\n' :: rest)) = none := by
  have hend : isSegmentChar '\n' = false := by decide
  have hafter : after ":" ('\n' :: rest) = none := after_eq_none (by simp)
  rw [readCoordinate_cons hquote]
  by_cases hempty : closing = []
  · rw [hempty, List.nil_append, run_cons_eq_none hend]
    rfl
  · have hsegment : ∀ c ∈ closing, isSegmentChar c = true := by
      intro c hc
      rw [hclosing c hc]
      decide
    rw [run_append hsegment hempty hend, Option.bind_some, hafter]
    rfl

/-- A word is no configuration of a module if it is followed by a character that is neither part
of a word, nor blank, nor an opening parenthesis. -/
theorem readProject_sign_eq_none (hword : IsWord word) (hc : isWordChar c = false)
    (hblank : isBlank c = false) (hopen : c ≠ '(') :
    readProject dialect (word ++ c :: text) = none := by
  have hletter : c ≠ 'p' := by
    have hp : isWordChar 'p' = true := by decide
    rintro rfl
    simp [hp] at hc
  refine readProject_eq_none hword hc (fun inside hinside => ?_) fun _ => Or.inr ?_
  · rw [eq_of_argumentAfter hblank hopen hinside, readProjectCall,
      after_eq_none (by simp [Ne.symm hletter])]
    rfl
  · exact arguments_eq_none (by simp [afterSpaced_eq_none hblank hopen])

end Readers

/-! ## Places without statements -/

section Silent

variable (form : Form) {content : String} {closing : List Char}

theorem silent_ending {α : Type} {read : Reader α} (hread : NeedsWord read)
    (hcontent : IsLiteral content) (hclosing : ∀ c ∈ closing, c = ')')
    (hinner : ∀ word c rest, IsWord word → isLiteralChar c = true → isWordChar c = false →
      read (word ++ c :: rest) = none)
    (hend : ∀ word rest, IsWord word →
      read (word ++ form.quote :: (closing ++ '\n' :: rest)) = none) :
    Silent read (inQuotes form.quote content.toList ++ closing ++ ['\n']) := by
  have hshape : inQuotes form.quote content.toList ++ closing ++ ['\n'] =
      [form.quote] ++ (content.toList ++ (form.quote :: (closing ++ ['\n']))) := by
    simp [inQuotes]
  have hparenthesis : isWordChar ')' = false := by decide
  have hlast : Silent read (form.quote :: (closing ++ ['\n'])) := by
    refine hread.silent fun c hc => ?_
    simp only [List.mem_cons, List.mem_append, List.not_mem_nil, or_false] at hc
    rcases hc with rfl | hc | rfl
    · exact form.isWordChar_quote
    · rw [hclosing c hc]
      exact hparenthesis
    · decide
  rw [hshape]
  refine (hread.silent (by simp)).append (hlast.text_append hread ?_ ?_)
  · intro word c rest hword hc
    exact hinner word c rest hword (hcontent.2 c hc)
  · intro word rest hword _
    simpa using hend word rest hword

theorem silent_ending_external (hcontent : IsLiteral content) (hclosing : ∀ c ∈ closing, c = ')') :
    Silent (readExternal form.dialect)
      (inQuotes form.quote content.toList ++ closing ++ ['\n']) := by
  refine silent_ending form (needsWord_readExternal _) hcontent hclosing ?_ ?_
  · intro word c rest hword hliteral hc
    refine readExternal_eq_none hword hc fun inside hinside => ?_
    rw [eq_of_argumentAfter (isBlank_of_isLiteralChar hliteral)
      (ne_of_isLiteralChar hliteral (by decide)) hinside]
    exact readCoordinate_cons_eq_none (isQuote_of_isLiteralChar hliteral)
  · intro word rest hword
    refine readExternal_eq_none hword form.isWordChar_quote fun inside hinside => ?_
    rw [eq_of_argumentAfter form.isBlank_quote form.quote_ne_parenthesis hinside]
    exact readCoordinate_closing_eq_none form.isQuote_quote hclosing rest

theorem silent_ending_project (hcontent : IsLiteral content) (hclosing : ∀ c ∈ closing, c = ')') :
    Silent (readProject form.dialect)
      (inQuotes form.quote content.toList ++ closing ++ ['\n']) := by
  refine silent_ending form (needsWord_readProject _) hcontent hclosing ?_ ?_
  · intro word c rest hword hliteral hc
    exact readProject_sign_eq_none hword hc (isBlank_of_isLiteralChar hliteral)
      (ne_of_isLiteralChar hliteral (by decide))
  · intro word rest hword
    exact readProject_sign_eq_none hword form.isWordChar_quote form.isBlank_quote
      form.quote_ne_parenthesis

end Silent

/-! ## What is read of a statement -/

section Statement

variable (form : Form) {configuration content : String}

theorem inQuotes_append (quote : Char) (content rest : List Char) :
    inQuotes quote content ++ rest = quote :: (content ++ quote :: rest) := by simp [inQuotes]

theorem argumentAfter_inQuotes (content : String) (text : List Char) :
    argumentAfter form.dialect (form.opening :: (inQuotes form.quote content.toList ++ text)) =
      some (inQuotes form.quote content.toList ++ text) := by
  rw [inQuotes_append]
  exact argumentAfter_opening form form.isBlank_quote form.quote_ne_parenthesis _

theorem closing_eq_of_kotlin (h : form.dialect = .kotlin) : form.closing = [')'] := by
  cases form <;> first | rfl | simp [Form.dialect] at h

theorem run_configuration (hconfiguration : IsConfiguration configuration) (text : List Char) :
    run isWordChar (configuration.toList ++ form.opening :: text) =
      some (configuration.toList, form.opening :: text) :=
  run_append hconfiguration.isWord.2 hconfiguration.1 form.isWordChar_opening

theorem exists_readExternal (hconfiguration : IsConfiguration configuration)
    (hcontent : IsLiteral content)
    (hproject : form.dialect = .groovy → configuration.toList ≠ "project".toList)
    {group artifact version : String}
    (hcoordinate : coordinateIn? content.toList = some (group, artifact, version)) :
    ∃ taken left, form.closing = taken ++ left ∧ ∀ rest,
      readExternal form.dialect (configuration.toList ++
        (form.opening :: (inQuotes form.quote content.toList ++ (taken ++ rest)))) =
          some (.external configuration group artifact version, rest) := by
  have hrun := run_configuration form hconfiguration
  have hread := fun rest => readCoordinate_inQuotes form.isQuote_quote hcontent.2 rest
  rw [hcoordinate] at hread
  cases hdialect : form.dialect with
  | groovy =>
      refine ⟨[], form.closing, rfl, fun rest => ?_⟩
      have hargument := argumentAfter_inQuotes form content rest
      rw [hdialect, argumentAfter, Option.some_inj] at hargument
      rw [List.nil_append, readExternal, hrun]
      simp only [Option.bind_eq_bind, Option.bind_some, if_neg (hproject hdialect), hargument,
        hread, Option.map_some]
      simp
  | kotlin =>
      refine ⟨[')'], [], closing_eq_of_kotlin form hdialect, fun rest => ?_⟩
      have hargument := argumentAfter_inQuotes form content (')' :: rest)
      rw [hdialect, argumentAfter] at hargument
      have hcall := arguments_append hargument (hread (')' :: rest))
      rw [List.cons_append, List.nil_append, readExternal, hrun]
      simp only [Option.bind_eq_bind, Option.bind_some, hcall]
      simp

/-- A reference to a module is read up to its closing parenthesis. -/
theorem readProjectCall_append (dialect : Dialect) (hcontent : IsLiteral content)
    (rest : List Char) :
    readProjectCall dialect
      ("project".toList ++ ('(' :: (inQuotes form.quote content.toList ++ ')' :: rest))) =
        some (content.toList, rest) := by
  have hletter : form.quote ≠ 'p' := by cases form <;> decide
  have hopen := afterSpaced_append form.isBlank_quote (content.toList ++ form.quote :: ')' :: rest)
  rw [← inQuotes_append] at hopen
  have hnamed : (after "path" (inQuotes form.quote content.toList ++ ')' :: rest) >>=
      afterSpaced (argumentSign dialect)) = none := by
    rw [inQuotes_append, after_eq_none (by simp [Ne.symm hletter])]
    rfl
  rw [readProjectCall, after_append]
  refine arguments_append hopen ?_
  simp only [optionally, hnamed, Option.getD_none]
  exact hcontent.literal_eq form (')' :: rest)

theorem argumentAfter_project (text : List Char) :
    argumentAfter form.dialect (form.opening :: ("project".toList ++ text)) =
      some ("project".toList ++ text) :=
  argumentAfter_opening form (by decide) (by decide) _

theorem exists_readProject (hconfiguration : IsConfiguration configuration)
    (hcontent : IsLiteral content) :
    ∃ taken left, form.closing = taken ++ left ∧ ∀ rest,
      readProject form.dialect (configuration.toList ++ (form.opening :: ("project".toList ++
        ('(' :: (inQuotes form.quote content.toList ++ ')' :: (taken ++ rest)))))) =
          some (.project configuration content, rest) := by
  have hrun := run_configuration form hconfiguration
  have hread := fun rest => readProjectCall_append form form.dialect hcontent rest
  cases hdialect : form.dialect with
  | groovy =>
      refine ⟨[], form.closing, rfl, fun rest => ?_⟩
      have hargument := argumentAfter_project form
        ('(' :: (inQuotes form.quote content.toList ++ ')' :: rest))
      rw [hdialect, argumentAfter, Option.some_inj] at hargument
      rw [hdialect] at hread
      rw [List.nil_append, readProject, readProjectCommand, hrun]
      simp only [Option.bind_eq_bind, Option.bind_some, hargument, hread]
      simp
  | kotlin =>
      refine ⟨[')'], [], closing_eq_of_kotlin form hdialect, fun rest => ?_⟩
      have hargument := argumentAfter_project form
        ('(' :: (inQuotes form.quote content.toList ++ ')' :: ')' :: rest))
      rw [hdialect, argumentAfter] at hargument
      rw [hdialect] at hread
      have hcall := arguments_append hargument (hread (')' :: rest))
      rw [List.cons_append, List.nil_append, readProject, hrun]
      simp only [Option.bind_eq_bind, Option.bind_some, hcall]
      simp

end Statement

/-! ## What is read of a line -/

namespace Statement

variable (form : Form) (indent : Nat) {configuration content : String}

theorem line_artifact :
    (artifact configuration content).line form indent = List.replicate indent ' ' ++
      (configuration.toList ++ (form.opening ::
        (inQuotes form.quote content.toList ++ form.closing ++ ['\n']))) := by
  unfold line
  dsimp only [argument, Statement.configuration]

theorem line_reference :
    (reference configuration content).line form indent = List.replicate indent ' ' ++
      (configuration.toList ++ (form.opening :: ("project".toList ++
        ('(' :: (inQuotes form.quote content.toList ++ (')' :: form.closing) ++ ['\n']))))) := by
  have hshape : ∀ callee : List Char,
      callee ++ ('(' :: inQuotes form.quote content.toList ++ [')']) ++ form.closing ++ ['\n'] =
        callee ++
          ('(' :: (inQuotes form.quote content.toList ++ (')' :: form.closing) ++ ['\n'])) := by
    intro callee
    simp
  rw [← hshape]
  unfold line
  dsimp only [argument, Statement.configuration]

theorem silent_opening {α : Type} {read : Reader α} (hread : NeedsWord read) {text : List Char}
    (h : Silent read text) : Silent read (form.opening :: text) :=
  have hopening : Silent read [form.opening] := hread.silent (by simp)
  hopening.append h

/-- Where a string is no coordinate, no artifact is read. -/
theorem yields_external_of_none (hconfiguration : IsConfiguration configuration)
    (hcontent : IsLiteral content) (hcoordinate : coordinateIn? content.toList = none) :
    Yields isNameBorder (readExternal form.dialect)
      ((artifact configuration content).line form indent) [] := by
  have hread := needsWord_readExternal form.dialect
  have htail := silent_opening form hread (silent_ending_external form hcontent
    fun _ => form.eq_of_mem_closing)
  rw [line_artifact]
  refine yields_nil_line hread indent hconfiguration.isWord htail (by simp [List.getLast?_cons]) ?_
  intro word rest hword _
  rw [List.cons_append, List.append_assoc, List.append_assoc]
  refine readExternal_eq_none hword form.isWordChar_opening fun inside hinside => ?_
  rw [argumentAfter_inQuotes] at hinside
  obtain rfl := Option.some.inj hinside
  rw [readCoordinate_inQuotes form.isQuote_quote hcontent.2, hcoordinate]
  rfl

/-- Where a string is a coordinate, one artifact is read. -/
theorem yields_external_of_some (hconfiguration : IsConfiguration configuration)
    (hcontent : IsLiteral content)
    (hproject : form.dialect = .groovy → configuration.toList ≠ "project".toList)
    {group name version : String}
    (hcoordinate : coordinateIn? content.toList = some (group, name, version)) :
    Yields isNameBorder (readExternal form.dialect)
      ((artifact configuration content).line form indent)
      [.external configuration group name version] := by
  have hread := needsWord_readExternal form.dialect
  obtain ⟨taken, left, hclosing, hstatement⟩ :=
    exists_readExternal form hconfiguration hcontent hproject hcoordinate
  have hshape : ∀ text, configuration.toList ++
      (form.opening :: (inQuotes form.quote content.toList ++ text)) =
        configuration.toList ++ (form.opening :: form.quote :: content.toList) ++
          (form.quote :: text) := by simp [inQuotes]
  rw [line_artifact, List.append_assoc, hshape]
  refine yields_line hread form indent taken form.isNameBorder_quote hclosing fun rest => ?_
  rw [← hshape]
  exact hstatement rest

/-- In a reference, no artifact is read. -/
theorem yields_external_reference (hconfiguration : IsConfiguration configuration)
    (hpath : IsLiteral content) (hcolon : content.toList.head? = some ':') :
    Yields isNameBorder (readExternal form.dialect)
      ((reference configuration content).line form indent) [] := by
  have hread := needsWord_readExternal form.dialect
  have hclosing : ∀ c ∈ ')' :: form.closing, c = ')' := by
    simpa using fun c hc => form.eq_of_mem_closing hc
  have hparenthesis : isWordChar '(' = false := by decide
  have harguments : Silent (readExternal form.dialect)
      ('(' :: (inQuotes form.quote content.toList ++ (')' :: form.closing) ++ ['\n'])) := by
    have hopen : Silent (readExternal form.dialect) ['('] := hread.silent (by simp [hparenthesis])
    exact hopen.append (silent_ending_external form hpath hclosing)
  have hcall : Silent (readExternal form.dialect) ("project".toList ++
      '(' :: (inQuotes form.quote content.toList ++ (')' :: form.closing) ++ ['\n'])) := by
    refine harguments.word_append hread (by decide) ?_
    intro word rest hword _
    rw [List.cons_append, List.append_assoc, List.append_assoc]
    refine readExternal_eq_none hword hparenthesis fun inside hinside => ?_
    rw [inQuotes_append, argumentAfter_parenthesis _ form.isBlank_quote form.quote_ne_parenthesis,
      ← inQuotes_append] at hinside
    obtain rfl := Option.some.inj hinside
    rw [readCoordinate_inQuotes form.isQuote_quote hpath.2, coordinateIn?_eq_none hcolon]
    rfl
  rw [line_reference]
  refine yields_nil_line hread indent hconfiguration.isWord
    (silent_opening form hread hcall) ?_ ?_
  · simp [List.getLast?_cons]
  · intro word rest hword _
    rw [List.cons_append]
    refine readExternal_eq_none hword form.isWordChar_opening fun inside hinside => ?_
    rw [List.append_assoc, argumentAfter_project] at hinside
    obtain rfl := Option.some.inj hinside
    exact readCoordinate_cons_eq_none (by decide)

/-- On the line of a statement, the artifact that it declares is read, and no other one. -/
theorem yields_external {statement : Statement} (h : statement.Writable)
    (hproject : form.dialect = .groovy → statement.configuration.toList ≠ "project".toList) :
    Yields isNameBorder (readExternal form.dialect) (statement.line form indent)
      statement.external?.toList := by
  cases statement with
  | artifact configuration content =>
      obtain ⟨hconfiguration, hcontent⟩ := h
      rw [external?]
      cases hcoordinate : coordinateIn? content.toList with
      | none => exact yields_external_of_none form indent hconfiguration hcontent hcoordinate
      | some segments =>
          exact yields_external_of_some form indent hconfiguration hcontent hproject hcoordinate
  | reference configuration path =>
      exact yields_external_reference form indent h.1 h.2.1 h.2.2

/-- In the declaration of an artifact, no reference is read. -/
theorem yields_project_artifact (hconfiguration : IsConfiguration configuration)
    (hcontent : IsLiteral content)
    (hproject : form.dialect = .groovy → ¬"project".toList <:+ configuration.toList) :
    Yields isNameBorder (readProject form.dialect)
      ((artifact configuration content).line form indent) [] := by
  have hread := needsWord_readProject form.dialect
  have hletter : form.quote ≠ 'p' := by cases form <;> decide
  have htail := silent_opening form hread (silent_ending_project form hcontent
    fun _ => form.eq_of_mem_closing)
  rw [line_artifact]
  refine yields_nil_line hread indent hconfiguration.isWord htail (by simp [List.getLast?_cons]) ?_
  intro word rest hword hsuffix
  rw [List.cons_append, List.append_assoc, List.append_assoc]
  refine readProject_eq_none hword form.isWordChar_opening (fun inside hinside => ?_) ?_
  · rw [argumentAfter_inQuotes] at hinside
    obtain rfl := Option.some.inj hinside
    rw [inQuotes_append, readProjectCall, after_eq_none (by simp [Ne.symm hletter])]
    rfl
  · intro hdialect
    have hends : "project".toList.isSuffixOf word = false := by
      rw [← Bool.not_eq_true, List.isSuffixOf_iff_suffix]
      exact fun hends => hproject hdialect (hends.trans hsuffix)
    exact Or.inl (by rw [beforeProject?, hends]; rfl)

/-- Of a reference, the module is read. -/
theorem yields_project_reference (hconfiguration : IsConfiguration configuration)
    (hpath : IsLiteral content) :
    Yields isNameBorder (readProject form.dialect)
      ((reference configuration content).line form indent) [.project configuration content] := by
  have hread := needsWord_readProject form.dialect
  obtain ⟨taken, left, hclosing, hstatement⟩ := exists_readProject form hconfiguration hpath
  have hshape : ∀ callee text : List Char, configuration.toList ++ (form.opening ::
      (callee ++ ('(' :: (inQuotes form.quote content.toList ++ text)))) =
        configuration.toList ++ (form.opening :: (callee ++
          ('(' :: inQuotes form.quote content.toList))) ++ text := by simp
  rw [line_reference, List.append_assoc, hshape, List.cons_append]
  refine yields_line hread form indent taken (by decide) hclosing fun rest => ?_
  rw [← hshape]
  exact hstatement rest

/-- On the line of a statement, the module that it refers to is read, and no other one. -/
theorem yields_project {statement : Statement} (h : statement.Writable)
    (hproject : form.dialect = .groovy → ¬"project".toList <:+ statement.configuration.toList) :
    Yields isNameBorder (readProject form.dialect) (statement.line form indent)
      statement.project?.toList := by
  cases statement with
  | artifact configuration content =>
      exact yields_project_artifact form indent h.1 h.2 hproject
  | reference configuration path => exact yields_project_reference form indent h.1 h.2.1

/-! ## The text of a line -/

theorem flat_line {statement : Statement} (h : statement.Writable) :
    Flat (statement.line form indent) := by
  have hindent := flat_replicate indent
  have hopening : Flat [form.opening] := flat_of_forall (by cases form <;> decide)
  have hclosing : Flat (form.closing ++ ['\n']) := flat_of_forall (by cases form <;> decide)
  cases statement with
  | artifact configuration content =>
      rw [line_artifact, List.append_assoc]
      exact hindent.append (h.1.flat.append (hopening.append ((h.2.flat form).append hclosing)))
  | reference configuration path =>
      have hproject : Flat ("project".toList ++ ['(']) := flat_of_forall (by decide)
      have hparenthesis : Flat [')'] := flat_of_forall (by decide)
      have hshape : ∀ callee text : List Char,
          callee ++ ('(' :: text) = callee ++ ['('] ++ text := by simp
      rw [line_reference, List.append_assoc, hshape]
      exact hindent.append (h.1.flat.append (hopening.append (hproject.append
        ((h.2.1.flat form).append (hparenthesis.append hclosing)))))

end Statement

/-! ## The block -/

/-- The body of a block: statements on lines of their own. -/
def statementLines (form : Form) (indent : Nat) (statements : List Statement) : List Char :=
  '\n' :: statements.flatMap (Statement.line form indent)

section Block

variable (form : Form) (indent : Nat) {statements : List Statement}

theorem flat_statementLines (h : ∀ statement ∈ statements, statement.Writable) :
    Flat (statementLines form indent statements) :=
  flat_lines fun statement hmem => Statement.flat_line form indent (h statement hmem)

/-- In the lines of statements, a reader finds what it finds in each line. -/
theorem findValues_statementLines {read : Reader Dependency} (hread : NeedsWord read)
    {value? : Statement → Option Dependency}
    (h : ∀ statement ∈ statements,
      Yields isNameBorder read (statement.line form indent) (value? statement).toList) :
    findValues isNameBorder read (statementLines form indent statements) =
      statements.filterMap value? := by
  have hlines : Yields isNameBorder read (statementLines form indent statements) _ :=
    yields_lines hread isNameBorder_lineEnd h
  rw [hlines.findValues_eq rfl, List.filterMap_eq_flatMap_toList]

theorem isWord_dependencies : IsWord "dependencies".toList := by decide

/-- The dependencies in a script with a single block `dependencies`. -/
theorem dependencies_append {before after : List Char}
    (h : ∀ statement ∈ statements, statement.Writable)
    (hproject : form.dialect = .groovy →
      ∀ statement ∈ statements, ¬"project".toList <:+ statement.configuration.toList)
    (hsurrounds : Surrounds "dependencies" before after) :
    dependencies form.dialect
        (before ++ blockText "dependencies" (statementLines form indent statements) ++ after) =
      statements.filterMap Statement.external? ++ statements.filterMap Statement.project? := by
  have hbody := blockBody_append isWord_dependencies hsurrounds
    ((flat_statementLines form indent h).isBody isWord_dependencies)
  have hexternals := findValues_statementLines form indent
    (needsWord_readExternal form.dialect) fun statement hmem =>
      Statement.yields_external form indent (h statement hmem) fun hdialect heq =>
        hproject hdialect statement hmem (heq ▸ List.suffix_rfl)
  have hprojects := findValues_statementLines form indent
    (needsWord_readProject form.dialect) fun statement hmem =>
      Statement.yields_project form indent (h statement hmem) fun hdialect =>
        hproject hdialect statement hmem
  rw [dependencies, hbody]
  simp only [hexternals, hprojects]

end Block

/-! ## A build file with dependencies only -/

/-- The statements of a block `dependencies` are read exactly, and in each form alike: first the
artifacts whose strings are coordinates, then the modules, each in the order of the statements. -/
theorem parse_statementLines (form : Form) (indent : Nat) {statements : List Statement}
    (h : ∀ statement ∈ statements,
      statement.Writable ∧ ¬"project".toList <:+ statement.configuration.toList) :
    parse form.dialect (String.ofList
        (blockText "dependencies" (statementLines form indent statements))) =
      { dependencies := statements.filterMap Statement.external? ++
          statements.filterMap Statement.project? } := by
  have hwritable : ∀ statement ∈ statements, statement.Writable := fun s hs => (h s hs).1
  have hbody := flat_statementLines form indent hwritable
  have hscript : stripComments (blockText "dependencies" (statementLines form indent statements)) =
      blockText "dependencies" (statementLines form indent statements) :=
    (uncommented_blockText isWord_dependencies hbody.uncommented).stripComments_eq
  have hnothing : Surrounds "dependencies" [] [] := ⟨endsInCode_nil, yields_nil, yields_nil⟩
  have hdependencies := dependencies_append form indent hwritable
    (fun _ statement hs => (h statement hs).2) hnothing
  have houtside := withoutBlockBody_append isWord_dependencies hnothing hbody
  have hrepositories : findBlock "repositories"
      (blockText "dependencies" (statementLines form indent statements)) = none :=
    findBlock_eq_none
      (yields_blockText_of_ne (by decide) isWord_dependencies (by decide) hbody)
  simp only [List.nil_append, List.append_nil] at hdependencies houtside
  rw [parse, String.toList_ofList, hscript]
  have hplugins : plugins form.dialect (blockText "dependencies" []) = [] := by
    cases form.dialect <;> decide
  have hproperties : propertyNames.filterMap (fun name =>
      (property? name (blockText "dependencies" [])).map fun value => (name, value)) = [] := by
    decide
  simp only [hdependencies, houtside, repositories, blockBody, hrepositories, Option.map_none,
    hplugins, hproperties]
  rfl

theorem parse_statementLines_three :
    (∀ statement ∈ [Statement.artifact "implementation" "org.ow2.asm:asm-tree:9.7",
        .reference "api" ":libs:project", .artifact "runtimeOnly" "local:jar"],
      statement.Writable ∧ ¬"project".toList <:+ statement.configuration.toList) ∧
    parse .groovy (String.ofList (blockText "dependencies" (statementLines .groovyCommand 4
        [.artifact "implementation" "org.ow2.asm:asm-tree:9.7",
          .reference "api" ":libs:project", .artifact "runtimeOnly" "local:jar"]))) =
      { dependencies := [.external "implementation" "org.ow2.asm" "asm-tree" "9.7",
          .project "api" ":libs:project"] } :=
  ⟨by decide, (parse_statementLines .groovyCommand 4 (by decide)).trans (by decide)⟩

end GradleWorkspace.BuildFile
