import GradleWorkspace.SettingsFile
import GradleWorkspace.Proofs.BuildFile.Form
import GradleWorkspace.Proofs.Script.Taken

/-!
# Reading settings files as they are written

A settings file is written statement by statement, each on a line of its own, with its tokens as
strings between commas.  In every surface form, the tokens are read as they were written.

* `includeLine` is the text of a statement in a surface form.
* `readMoreLiterals_append` and `readLiterals_append` say that literals between commas are read up
  to the last one.  What comes after it matters, because a comma on a later line would count too.
* `findFrom_includeLines` goes through the lines of a file, and `includesNamed_includeLines` is the
  result for the whole file.
* `GivesName` says which name a settings file gives to its workspace, and `rootName?_eq_some_iff`
  that this name is read.
-/

namespace GradleWorkspace.SettingsFile

open Script Text BuildFile

/-! ## The text of a statement -/

/-- A token that can stand in quotes: not empty, and without quotes, backslashes and ends of
lines. -/
def IsToken (token : String) : Prop :=
  token.toList ≠ [] ∧ ∀ c ∈ token.toList, isPlain c = true

instance (token : String) : Decidable (IsToken token) := inferInstanceAs (Decidable (_ ∧ _))

/-- The tokens of a statement: at least one. -/
def IsInclusion (tokens : List String) : Prop := tokens ≠ [] ∧ ∀ token ∈ tokens, IsToken token

instance (tokens : List String) : Decidable (IsInclusion tokens) :=
  inferInstanceAs (Decidable (_ ∧ _))

/-- The tokens after the first one, with a comma before each. -/
def moreTokens (quote : Char) (tokens : List String) : List Char :=
  tokens.flatMap fun token => [',', ' '] ++ inQuotes quote token.toList

/-- Tokens in quotes, with commas between them. -/
def tokenList (quote : Char) : List String → List Char
  | [] => []
  | token :: tokens => inQuotes quote token.toList ++ moreTokens quote tokens

/-- The line that includes projects, as in `include 'core', 'api'`. -/
def includeLine (form : Form) (tokens : List String) : List Char :=
  "include".toList ++ (form.opening :: (tokenList form.quote tokens ++ (form.closing ++ ['\n'])))

/-! ## Lines without comments -/

theorem IsToken.uncommented {token : String} (h : IsToken token) {quote : Char}
    (hquote : isQuote quote = true) : Uncommented (inQuotes quote token.toList) :=
  uncommented_inQuotes hquote h.2 h.1

theorem uncommented_tokenList {quote : Char} (hquote : isQuote quote = true)
    {tokens : List String} (h : ∀ token ∈ tokens, IsToken token) :
    Uncommented (tokenList quote tokens) := by
  cases tokens with
  | nil => exact uncommented_nil
  | cons token tokens =>
      obtain ⟨hfirst, hothers⟩ := List.forall_mem_cons.1 h
      have hcomma : Uncommented [',', ' '] := uncommented_of_isCode (by decide)
      exact (hfirst.uncommented hquote).append
        (uncommented_flatMap fun other hother => hcomma.append ((hothers other hother).uncommented
          hquote))

theorem uncommented_includeLine (form : Form) {tokens : List String} (h : IsInclusion tokens) :
    Uncommented (includeLine form tokens) := by
  have hword : Uncommented "include".toList := uncommented_of_isCode (by decide)
  have hopening : Uncommented [form.opening] :=
    uncommented_of_isCode (by cases form <;> decide)
  have hclosing : Uncommented (form.closing ++ ['\n']) :=
    uncommented_of_isCode (by cases form <;> decide)
  exact hword.append (hopening.append
    ((uncommented_tokenList form.isQuote_quote h.2).append hclosing))

/-! ## Literals between commas -/

section Literals

variable {text argument rest : List Char}

theorem afterSpaced_comma_eq_none (h : ∀ tail, skipBlanks text ≠ ',' :: tail) :
    afterSpaced "," text = none :=
  afterSpaced_eq_none_of_skipBlanks fun ⟨tail, htail⟩ => h tail htail.symm

theorem readMoreLiterals_of_none (h : afterSpaced "," text = none) :
    readMoreLiterals text = ([], text) := by
  rw [readMoreLiterals]
  split
  · rfl
  · next hsome => simp [h] at hsome

theorem readMoreLiterals_of_some {item : List Char} (hcomma : afterSpaced "," text = some argument)
    (hliteral : literal argument = some (item, rest)) :
    readMoreLiterals text = (item :: (readMoreLiterals rest).1, (readMoreLiterals rest).2) := by
  rw [readMoreLiterals]
  split
  · next hnone => simp [hcomma] at hnone
  · next argument' hsome =>
    obtain rfl : argument = argument' := Option.some.inj (hcomma.symm.trans hsome)
    split
    · next hnone => simp [hliteral] at hnone
    · next item' rest' hsome' =>
      obtain ⟨rfl, rfl⟩ : item = item' ∧ rest = rest' := by
        simpa using hliteral.symm.trans hsome'
      rfl

theorem IsToken.literal_append {token : String} (h : IsToken token) (form : Form)
    (rest : List Char) :
    literal (inQuotes form.quote token.toList ++ rest) = some (token.toList, rest) := by
  have hcontent : ∀ c ∈ token.toList, isQuote c = false := by
    intro c hc
    have hplain := h.2 c hc
    cases hquote : isQuote c with
    | false => rfl
    | true => simp [isPlain, hquote] at hplain
  simpa [inQuotes] using Script.literal_append form.isQuote_quote hcontent h.1 rest

/-- The tokens after the first one are read up to a text that does not begin with a comma. -/
theorem readMoreLiterals_append (form : Form) {tokens : List String}
    (h : ∀ token ∈ tokens, IsToken token) (hrest : afterSpaced "," rest = none) :
    readMoreLiterals (moreTokens form.quote tokens ++ rest) =
      (tokens.map String.toList, rest) := by
  induction tokens with
  | nil => exact readMoreLiterals_of_none hrest
  | cons token tokens ih =>
      obtain ⟨htoken, htokens⟩ := List.forall_mem_cons.1 h
      have hcomma : afterSpaced "," (moreTokens form.quote (token :: tokens) ++ rest) =
          some (inQuotes form.quote token.toList ++ (moreTokens form.quote tokens ++ rest)) := by
        have hspace : ∀ c ∈ [' '], isBlank c = true := by decide
        have hshape : moreTokens form.quote (token :: tokens) ++ rest = ',' :: ' ' ::
            (inQuotes form.quote token.toList ++ (moreTokens form.quote tokens ++ rest)) := by
          simp [moreTokens]
        rw [hshape]
        exact afterSpaced_append_cons rfl (by decide) (List.forall_mem_nil _) hspace
          form.isBlank_quote _
      rw [readMoreLiterals_of_some hcomma (htoken.literal_append form _), ih htokens,
        List.map_cons]

theorem readLiterals_append (form : Form) {tokens : List String} (h : IsInclusion tokens)
    (hrest : afterSpaced "," rest = none) :
    readLiterals (tokenList form.quote tokens ++ rest) = some (tokens.map String.toList, rest) := by
  obtain ⟨token, tokens, rfl⟩ := List.exists_cons_of_ne_nil h.1
  obtain ⟨htoken, htokens⟩ := List.forall_mem_cons.1 h.2
  rw [tokenList, List.append_assoc, readLiterals, htoken.literal_append form]
  simp only [Option.bind_eq_bind, Option.bind_some, readMoreLiterals_append form htokens hrest]
  rfl

end Literals

/-! ## A statement -/

/-- A list of tokens begins with a quote. -/
theorem exists_tokenList_eq {tokens : List String} (h : IsInclusion tokens) (quote : Char) :
    ∃ tail, tokenList quote tokens = quote :: tail := by
  obtain ⟨token, tokens, rfl⟩ := List.exists_cons_of_ne_nil h.1
  exact ⟨_, rfl⟩

/-- A statement is read with its parenthesis in Kotlin, and up to its parenthesis in Groovy. -/
theorem readInclude_append (form : Form) {tokens : List String} (h : IsInclusion tokens) :
    ∃ taken left, form.closing = taken ++ left ∧ ∀ rest, afterSpaced "," (left ++ rest) = none →
      readInclude form.dialect ("include".toList ++
        (form.opening :: (tokenList form.quote tokens ++ (taken ++ (left ++ rest))))) =
          some (tokens.map String.toList, left ++ rest) := by
  obtain ⟨tail, htail⟩ := exists_tokenList_eq h form.quote
  have hopening : ∀ rest, optionalOpening (form.opening :: (tokenList form.quote tokens ++ rest)) =
      tokenList form.quote tokens ++ rest := by
    intro rest
    rw [htail]
    exact optionalOpening_append form form.isBlank_quote form.quote_ne_parenthesis _
  have hgroovy : ∀ rest, afterSpaced "," rest = none → readInclude .groovy ("include".toList ++
      (form.opening :: (tokenList form.quote tokens ++ rest))) =
        some (tokens.map String.toList, rest) := by
    intro rest hrest
    rw [readInclude, after_append]
    simp only [Option.bind_eq_bind, Option.bind_some, hopening]
    exact readLiterals_append form h hrest
  cases form with
  | groovyCommand => exact ⟨[], [], rfl, hgroovy⟩
  | groovyCall => exact ⟨[], [')'], rfl, fun rest => hgroovy ([')'] ++ rest)⟩
  | kotlinCall =>
      refine ⟨[')'], [], rfl, fun rest _ => ?_⟩
      have hopen : ∀ rest, afterSpaced "("
          ('(' :: (tokenList Form.kotlinCall.quote tokens ++ rest)) =
            some (tokenList Form.kotlinCall.quote tokens ++ rest) := by
        intro rest
        rw [htail]
        exact afterSpaced_append Form.kotlinCall.isBlank_quote _
      refine call_append "include" (hopen _) (readLiterals_append .kotlinCall h ?_)
      refine afterSpaced_comma_eq_none fun tail heq => ?_
      rw [List.nil_append, List.cons_append, skipBlanks_cons (by decide)] at heq
      simp at heq

theorem needsWord_readInclude (dialect : Dialect) : NeedsWord (readInclude dialect) := by
  intro text htext
  have hnone : after "include" text = none := by
    refine after_eq_none fun ⟨tail, hinclude⟩ => ?_
    subst hinclude
    exact absurd (htext 'i' rfl) (by decide)
  cases dialect with
  | groovy => simp [readInclude, hnone]
  | kotlin => simp [readInclude, call, hnone]

/-! ## A file -/

/-- A line begins with a letter. -/
theorem exists_includeLine_eq (form : Form) (tokens : List String) :
    ∃ line, includeLine form tokens = 'i' :: line :=
  ⟨_, rfl⟩

/-- A line is its statement, what is left of the parenthesis, and the end of the line. -/
theorem includeLine_eq (form : Form) (tokens : List String) {taken left : List Char}
    (hclosing : form.closing = taken ++ left) :
    includeLine form tokens =
      ("include".toList ++ (form.opening :: (tokenList form.quote tokens ++ taken))) ++
        (left ++ ['\n']) :=
  calc includeLine form tokens
    _ = "include".toList ++
          (form.opening :: (tokenList form.quote tokens ++ (form.closing ++ ['\n']))) := rfl
    _ = _ := by simp only [hclosing, List.append_assoc, List.cons_append]

/-- After a statement, no comma stands before the next statement or the end of the file. -/
theorem afterSpaced_comma_includeLines (form : Form) {taken left : List Char}
    (hclosing : form.closing = taken ++ left) (statements : List (List String)) :
    afterSpaced "," (left ++ ('\n' :: statements.flatMap (includeLine form))) = none := by
  have hlines : ∀ tail,
      skipBlanks ('\n' :: statements.flatMap (includeLine form)) ≠ ',' :: tail := by
    intro tail
    rw [skipBlanks_of_isBlank (by decide)]
    cases statements with
    | nil => simp [skipBlanks]
    | cons tokens statements =>
        obtain ⟨line, hline⟩ := exists_includeLine_eq form tokens
        rw [List.flatMap_cons, hline, List.cons_append, skipBlanks_cons (by decide)]
        simp
  refine afterSpaced_comma_eq_none fun tail => ?_
  cases left with
  | nil => exact hlines tail
  | cons c left =>
      obtain rfl : c = ')' := form.eq_of_mem_closing (by simp [hclosing])
      rw [List.cons_append, skipBlanks_cons (by decide)]
      simp

/-- In the lines of a file, the tokens of each statement are found, wherever the lines stand. -/
theorem findFrom_includeLines (form : Form) {statements : List (List String)}
    (h : ∀ tokens ∈ statements, IsInclusion tokens) (offset : Nat) {previous : Option Char}
    (hprevious : isNameBorder previous = true) :
    (findFrom isNameBorder (readInclude form.dialect) offset 0 previous
      (statements.flatMap (includeLine form))).map Located.value =
        statements.map (List.map String.toList) := by
  induction statements generalizing offset previous with
  | nil => rfl
  | cons tokens statements ih =>
      obtain ⟨htokens, hstatements⟩ := List.forall_mem_cons.1 h
      obtain ⟨taken, left, hclosing, hread⟩ := readInclude_append form htokens
      have hshape : (tokens :: statements).flatMap (includeLine form) =
          ("include".toList ++ (form.opening :: (tokenList form.quote tokens ++ taken))) ++
            ((left ++ ['\n']) ++ statements.flatMap (includeLine form)) := by
        rw [List.flatMap_cons, includeLine_eq form tokens hclosing, List.append_assoc]
      have hstatement := hread _ (afterSpaced_comma_includeLines form hclosing statements)
      have hne :
          "include".toList ++ (form.opening :: (tokenList form.quote tokens ++ taken)) ≠ [] :=
        List.append_ne_nil_of_left_ne_nil (by decide) _
      have hend : Silent (readInclude form.dialect) (left ++ ['\n']) := by
        refine (needsWord_readInclude form.dialect).silent fun c hc => ?_
        rcases List.mem_append.1 hc with hc | hc
        · have hmem : c ∈ form.closing := hclosing ▸ List.mem_append_right taken hc
          rw [form.eq_of_mem_closing hmem]
          decide
        · rw [List.mem_singleton.1 hc]
          decide
      rw [hshape, findFrom_of_read (by simpa using hstatement) hne offset hprevious,
        findFrom_of_forall_suffix (fun suffix => hend suffix _), List.map_cons, List.map_cons,
        List.getLast?_concat, Option.some_or, ih hstatements _ isNameBorder_lineEnd]

/-- The projects that a settings file includes are those that were written, in their order and with
those that occur more than once, in every form of the statements. -/
theorem includesNamed_includeLines (form : Form) {statements : List (List String)}
    (h : ∀ tokens ∈ statements, IsInclusion tokens) :
    includesNamed form.dialect.name (String.ofList (statements.flatMap (includeLine form))) =
      .ok statements.flatten := by
  have hdialect : Dialect.ofName? form.dialect.name = some form.dialect := by cases form <;> decide
  have hscript : stripComments (statements.flatMap (includeLine form)) =
      statements.flatMap (includeLine form) :=
    (uncommented_flatMap fun tokens htokens =>
      uncommented_includeLine form (h tokens htokens)).stripComments_eq
  have hfound : findValues isNameBorder (readInclude form.dialect)
      (statements.flatMap (includeLine form)) = statements.map (List.map String.toList) :=
    findFrom_includeLines form h 0 rfl
  have hincludes : includes form.dialect (String.ofList (statements.flatMap (includeLine form))) =
      statements.flatten := by
    rw [includes, String.toList_ofList, hscript, hfound, ← List.map_flatten, List.map_map]
    simp [Function.comp_def]
  simp only [includesNamed, hdialect, hincludes]

/-- Tokens that look like comments and like statements, one of them twice. -/
def trickyTokens : List (List String) := [["include(", "//", ",\x7d"], ["/*"], [")", "//"]]

theorem includesNamed_includeLines_tricky :
    (∀ tokens ∈ trickyTokens, IsInclusion tokens) ∧
    ∀ form : Form, includesNamed form.dialect.name
      (String.ofList (trickyTokens.flatMap (includeLine form))) =
        .ok ["include(", "//", ",\x7d", "/*", ")", "//"] := by
  have htokens : ∀ tokens ∈ trickyTokens, IsInclusion tokens := by decide
  exact ⟨htokens, fun form => includesNamed_includeLines form htokens⟩

/-! ## The name of a workspace -/

/-- The text of an assignment of a name, as in `rootProject.name = 'shop'`. -/
def IsNameAssignment (name written : List Char) : Prop :=
  ∃ before inside opening closing, (∀ c ∈ before ++ inside, isBlank c = true) ∧
    IsContent name ∧ isQuote opening = true ∧ isQuote closing = true ∧
    written = "rootProject.name".toList ++
      (before ++ '=' :: (inside ++ opening :: (name ++ [closing])))

/-- A settings file gives its workspace a name: the first assignment in the file, where comments do
not count, is of this name. -/
def GivesName (text name : String) : Prop :=
  ∃ front written rest, stripComments text.toList = front ++ (written ++ rest) ∧
    IsNameAssignment name.toList written ∧
    ∀ front' written' rest' other, stripComments text.toList = front' ++ (written' ++ rest') →
      IsNameAssignment other written' → front.length ≤ front'.length

/-- Assignments of a name are read, and nothing else. -/
theorem readRootName_eq_some_iff {text name rest : List Char} :
    readRootName text = some (name, rest) ↔
      ∃ written, IsNameAssignment name written ∧ text = written ++ rest := by
  constructor
  · intro h
    obtain ⟨unread, hword, h⟩ := Option.bind_eq_some_iff.1 h
    obtain ⟨argument, hsign, hliteral⟩ := Option.bind_eq_some_iff.1 h
    obtain ⟨hname, opening, closing, hopening, hclosing, rfl⟩ := of_literal hliteral
    obtain ⟨before, inside, hbefore, hinside, rfl⟩ := eq_append_of_afterSpaced hsign
    refine ⟨_, ⟨before, inside, opening, closing, ?_, hname, hopening, hclosing, rfl⟩, ?_⟩
    · exact List.forall_mem_append.2 ⟨hbefore, hinside⟩
    · rw [eq_append_of_after hword]
      simp
  · rintro ⟨written, ⟨before, inside, opening, closing, hblanks, hname, hopening, hclosing, rfl⟩,
      rfl⟩
    obtain ⟨hbefore, hinside⟩ := List.forall_mem_append.1 hblanks
    have hsign : ∀ more, afterSpaced "=" (before ++ '=' :: (inside ++ opening :: more)) =
        some (opening :: more) := fun more =>
      afterSpaced_append_cons rfl (by decide) hbefore hinside
        (isBlank_eq_false_of_isQuote hopening) more
    simp only [List.append_assoc, List.cons_append, List.nil_append]
    rw [readRootName, after_append]
    simp only [Option.bind_eq_bind, Option.bind_some, hsign,
      literal_of_isContent hopening hname hclosing]

theorem rootName?_eq_some_iff {text name : String} :
    rootName? text = some name ↔ GivesName text name := by
  have hvalue : rootName? text = some name ↔
      (findValues (fun _ => true) readRootName (stripComments text.toList)).head? =
        some name.toList := by
    rw [rootName?, Option.map_eq_some_iff]
    constructor
    · rintro ⟨content, hcontent, rfl⟩
      rw [hcontent, String.toList_ofList]
    · exact fun h => ⟨_, h, String.ofList_toList⟩
  rw [hvalue, findValues, List.head?_map, find, head?_findFrom_eq_some_iff (by rfl)]
  constructor
  · rintro ⟨front, place, rest, htext, hread, hfirst⟩
    obtain ⟨written, hwritten, rfl⟩ := readRootName_eq_some_iff.1 hread
    refine ⟨front, written, rest, htext, hwritten, fun front' written' rest' other htext' h => ?_⟩
    by_contra hlt
    have hnone := hfirst front' _ htext' (Nat.lt_of_not_le hlt)
    simp [readRootName_eq_some_iff.2 ⟨written', h, rfl⟩] at hnone
  · rintro ⟨front, written, rest, htext, hwritten, hfirst⟩
    refine ⟨front, _, rest, htext, readRootName_eq_some_iff.2 ⟨written, hwritten, rfl⟩,
      fun before behind htext' hlt => ?_⟩
    by_contra hsome
    obtain ⟨⟨other, rest'⟩, hread⟩ := Option.ne_none_iff_exists'.1 hsome
    obtain ⟨written', hwritten', rfl⟩ := readRootName_eq_some_iff.1 hread
    exact absurd hlt (Nat.not_lt.2 (hfirst before written' rest' other htext' hwritten'))

end GradleWorkspace.SettingsFile
