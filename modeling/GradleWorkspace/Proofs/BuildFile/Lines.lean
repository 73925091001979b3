import GradleWorkspace.BuildFile.Plugins
import GradleWorkspace.BuildFile.Properties
import GradleWorkspace.BuildFile.Repositories
import GradleWorkspace.Proofs.BuildFile.Form

/-!
# Reading plugins, properties and repositories

In the Kotlin dialect, a plugin and a repository are declared by a call on a line of its own, and
a property is set by an assignment on a line of its own.  This file says what the readers of
plugins, properties and repositories find on such lines.

* Each of these readers begins with a fixed word that a certain sign follows (`beginsWith_call` and
  the theorems after it), so that it finds nothing on lines with other words or other signs.
* `callLine` and `propertyLine` are the texts of the lines.
* `yields_plugin`, `yields_assignment`, `yields_namedRepository` and `yields_mavenCall` say what is
  found on the lines that a reader is for.
-/

namespace GradleWorkspace.BuildFile

open Script Text

/-! ## Words and signs -/

section Signs

variable {α : Type}

/-- A reader that takes a word, then a sign with blanks around it, and goes on with the rest. -/
theorem beginsWith_of_afterSpaced (word : String) {name : String} {sign : Char}
    (hword : word.toList = [sign])
    (go : List Char → Option (α × List Char)) :
    BeginsWith name [sign]
      fun text => (after name text).bind fun unread => (afterSpaced word unread).bind go := by
  intro text value rest h
  obtain ⟨unread, hafter, h⟩ := Option.bind_eq_some_iff.1 h
  obtain ⟨inside, hopen, -⟩ := Option.bind_eq_some_iff.1 h
  obtain ⟨tail, hnext, -⟩ := Option.map_eq_some_iff.1 hopen
  have hskip := eq_append_of_after hnext
  rw [hword] at hskip
  exact ⟨unread, sign, tail, eq_append_of_after hafter, by simp, hskip⟩

theorem beginsWith_call (name : String) (argument : Reader α) :
    BeginsWith name ['('] (call name argument) := beginsWith_of_afterSpaced "(" rfl _

theorem beginsWith_readAssignment (name : String) (value : Reader (List Char)) :
    BeginsWith name ['='] (readAssignment name value) :=
  beginsWith_of_afterSpaced "=" rfl _

theorem beginsWith_readMavenCall : BeginsWith "maven" ['('] readMavenCall :=
  beginsWith_of_afterSpaced "(" rfl _

theorem beginsWith_readMavenBlock : BeginsWith "maven" ['{'] readMavenBlock := by
  intro text value rest h
  obtain ⟨unread, hafter, h⟩ := Option.bind_eq_some_iff.1 h
  obtain ⟨inside, hnext, -⟩ := Option.bind_eq_some_iff.1 h
  exact ⟨unread, '{', inside, eq_append_of_after hafter, by simp, eq_append_of_after hnext⟩

theorem beginsWith_readNamedRepository (name : String) :
    BeginsWith name ['(', '{'] (readNamedRepository name) := by
  intro text value rest h
  obtain ⟨unread, hafter, h⟩ := Option.bind_eq_some_iff.1 h
  split at h
  · next c tail hskip =>
    split at h
    · next hsign => exact ⟨unread, c, tail, eq_append_of_after hafter, by simpa using hsign, hskip⟩
    · simp at h
  · simp at h

/-- The signs are no characters of words. -/
theorem isWordChar_sign : ∀ sign ∈ ['(', '{', '='], isWordChar sign = false := by decide

end Signs

theorem isWord_maven : IsWord "maven".toList := by decide

/-! ## The texts of lines -/

/-- A string in double quotes. -/
def doubleQuoted (text : String) : List Char := inQuotes '"' text.toList

/-- A call on a line of its own. -/
def callLine (indent : Nat) (name : String) (argument : List Char) : List Char :=
  List.replicate indent ' ' ++ (name.toList ++ ('(' :: (argument ++ [')', '\n'])))

/-- An assignment on a line of its own. -/
def propertyLine (name value : String) : List Char :=
  name.toList ++ ([' ', '=', ' '] ++ (doubleQuoted value ++ ['\n']))

theorem doubleQuoted_eq (text : String) : doubleQuoted text = '"' :: (text.toList ++ ['"']) := rfl

theorem notMem_of_isWord {word : List Char} (h : IsWord word) :
    ∀ c ∈ word, c ∉ ['(', '{', '='] := by
  intro c hc hsign
  have hword := h.2 c hc
  rw [isWordChar_sign c hsign] at hword
  simp at hword

theorem IsLiteral.notMem {text : String} (h : IsLiteral text) :
    ∀ c ∈ '"' :: text.toList, c ∉ ['(', '{', '='] := by
  intro c hc hsign
  have hnone : ∀ sign ∈ ['(', '{', '='], isLiteralChar sign = false ∧ sign ≠ '"' := by decide
  rcases List.mem_cons.1 hc with rfl | hc
  · exact (hnone _ hsign).2 rfl
  · have hliteral := h.2 c hc
    rw [(hnone c hsign).1] at hliteral
    simp at hliteral

theorem IsLiteral.notMem_doubleQuoted {text : String} (h : IsLiteral text) :
    ∀ c ∈ doubleQuoted text, c ∉ ['(', '{', '='] := by
  intro c hc
  rw [doubleQuoted_eq, ← List.cons_append] at hc
  rcases List.mem_append.1 hc with hc | hc
  · exact h.notMem c hc
  · obtain rfl := List.mem_singleton.1 hc
    decide

theorem getLast?_callLine (indent : Nat) (name : String) (argument : List Char) :
    (callLine indent name argument).getLast? = some '\n' := by
  simp [callLine, List.getLast?_cons]

theorem getLast?_propertyLine (name value : String) :
    (propertyLine name value).getLast? = some '\n' := by
  simp [propertyLine, List.getLast?_cons]

theorem flat_callLine (indent : Nat) {name : String} {argument : List Char}
    (hname : IsWord name.toList) (hargument : Flat argument) :
    Flat (callLine indent name argument) := by
  have hshape : callLine indent name argument =
      List.replicate indent ' ' ++ (name.toList ++ (['('] ++ (argument ++ [')', '\n']))) := rfl
  rw [hshape]
  exact (flat_replicate indent).append ((flat_of_isWordChar hname.2).append
    ((flat_of_forall (by decide)).append (hargument.append (flat_of_forall (by decide)))))

theorem flat_propertyLine {name value : String} (hname : IsWord name.toList)
    (hvalue : IsLiteral value) : Flat (propertyLine name value) :=
  (flat_of_isWordChar hname.2).append ((flat_of_forall (by decide)).append
    ((hvalue.flat .kotlinCall).append (flat_of_forall (by decide))))

section Lines

variable {α : Type} {signs : List Char} {read : Reader α} {starts : Option Char → Bool}

/-- Text without the signs of a reader, up to the last character of a line. -/
theorem silent_of_forall_notMem (hread : NeedsSign signs read) {front : List Char} {last : Char}
    (h : ∀ c ∈ front, c ∉ signs) (hlast : last ∈ [')', '"', '}']) (hsigns : last ∉ signs) :
    Silent read (front ++ [last, '\n']) := by
  have hclass : ∀ c ∈ [')', '"', '}'], isWordChar c = false ∧ isBlank c = false := by
    decide
  have hnewline : quiet signs ['\n'] = true := by
    have hword : isWordChar '\n' = false := by decide
    simp [quiet, hword]
  have hquiet := quiet_append
    (quiet_of_forall_notMem h hsigns (hclass last hlast).1 (hclass last hlast).2) hnewline
  rw [List.append_assoc] at hquiet
  exact silent_of_quiet hread hquiet

/-- A call of another function. -/
theorem silent_callLine_of_ne {name callee : String} {argument : List Char}
    (h : BeginsWith name signs read) (hname : IsWord name.toList)
    (hsigns : ∀ sign ∈ signs, sign ∈ ['(', '{', '=']) (hcallee : IsWord callee.toList)
    (hne : ¬name.toList <:+ callee.toList) (hargument : ∀ c ∈ argument, c ∉ ['(', '{', '='])
    (indent : Nat) : Silent read (callLine indent callee argument) := by
  have hword : ∀ sign ∈ signs, isWordChar sign = false := fun sign hsign =>
    isWordChar_sign sign (hsigns sign hsign)
  have hread := h.needsSign hname hword
  have hend : Silent read (argument ++ [')', '\n']) :=
    silent_of_forall_notMem hread (fun c hc hsign => hargument c hc (hsigns c hsign)) (by decide)
      fun hsign => absurd (hsigns _ hsign) (by decide)
  have harguments : Silent read (['('] ++ (argument ++ [')', '\n'])) :=
    (hread.needsWord.silent (by decide)).append hend
  refine (silent_indentation hread.needsWord indent).append
    (harguments.word_append hread.needsWord hcallee fun word rest hword' hsuffix => ?_)
  exact h.eq_none hname hword hword' (by decide) fun heq => hne (heq ▸ hsuffix)

theorem yields_nil_callLine {callee : String} {argument : List Char} {indent : Nat}
    (h : Silent read (callLine indent callee argument)) (hstarts : starts (some '\n') = true) :
    Yields starts read (callLine indent callee argument) [] :=
  h.yields_of_getLast? (getLast?_callLine indent callee argument) hstarts

theorem yields_nil_propertyLine {name value : String} (h : Silent read (propertyLine name value))
    (hstarts : starts (some '\n') = true) : Yields starts read (propertyLine name value) [] :=
  h.yields_of_getLast? (getLast?_propertyLine name value) hstarts

/-- A call has no other sign than its parenthesis. -/
theorem silent_callLine_of_notMem {callee : String} {argument : List Char}
    (hread : NeedsSign signs read) (hsigns : ∀ sign ∈ signs, sign ∈ ['{', '='])
    (hcallee : IsWord callee.toList) (hargument : ∀ c ∈ argument, c ∉ ['(', '{', '='])
    (indent : Nat) : Silent read (callLine indent callee argument) := by
  have hshape : callLine indent callee argument =
      List.replicate indent ' ' ++ callee.toList ++ ('(' :: argument) ++ [')', '\n'] := by
    simp [callLine]
  have hsigns' : ∀ c ∈ signs, c ∈ ['(', '{', '='] :=
    fun c hc => List.mem_cons_of_mem _ (hsigns c hc)
  rw [hshape]
  refine silent_of_forall_notMem hread (fun c hc hsign => ?_) (by decide)
    fun hsign => absurd (hsigns _ hsign) (by decide)
  rcases List.mem_append.1 hc with hc | hc
  · rcases List.mem_append.1 hc with hc | hc
    · rw [List.eq_of_mem_replicate hc] at hsign
      exact absurd (hsigns _ hsign) (by decide)
    · exact notMem_of_isWord hcallee c hc (hsigns' c hsign)
  · rcases List.mem_cons.1 hc with rfl | hc
    · exact absurd (hsigns _ hsign) (by decide)
    · exact hargument c hc (hsigns' c hsign)

/-- An assignment has no other sign than its own. -/
theorem silent_propertyLine_of_notMem {name value : String} (hread : NeedsSign signs read)
    (hsigns : ∀ sign ∈ signs, sign ∈ ['(', '{']) (hname : IsWord name.toList)
    (hvalue : IsLiteral value) : Silent read (propertyLine name value) := by
  have hshape : propertyLine name value =
      name.toList ++ [' ', '=', ' '] ++ ('"' :: value.toList) ++ ['"', '\n'] := by
    simp [propertyLine, doubleQuoted_eq]
  have hsigns' : ∀ c ∈ signs, c ∈ ['(', '{', '='] := fun c hc => by
    have hsub : ∀ d ∈ ['(', '{'], d ∈ ['(', '{', '='] := by decide
    exact hsub c (hsigns c hc)
  rw [hshape]
  refine silent_of_forall_notMem hread (fun c hc hsign => ?_) (by decide)
    fun hsign => absurd (hsigns _ hsign) (by decide)
  rcases List.mem_append.1 hc with hc | hc
  · rcases List.mem_append.1 hc with hc | hc
    · exact notMem_of_isWord hname c hc (hsigns' c hsign)
    · have hnone : ∀ d ∈ [' ', '=', ' '], d ∉ ['(', '{'] := by decide
      exact hnone c hc (hsigns c hsign)
  · exact hvalue.notMem c hc (hsigns' c hsign)

/-- An assignment to another property. -/
theorem silent_propertyLine_of_ne {name other value : String} (h : BeginsWith other ['='] read)
    (hother : IsWord other.toList) (hname : IsWord name.toList)
    (hne : ¬other.toList <:+ name.toList) (hvalue : IsLiteral value) :
    Silent read (propertyLine name value) := by
  have hsigns : ∀ sign ∈ ['='], isWordChar sign = false := by decide
  have hread := h.needsSign hother hsigns
  have hend : Silent read (('"' :: value.toList) ++ ['"', '\n']) :=
    silent_of_forall_notMem hread (fun c hc hsign => hvalue.notMem c hc (by simp_all)) (by decide)
      (by decide)
  have hassigned : Silent read ([' ', '=', ' '] ++ (('"' :: value.toList) ++ ['"', '\n'])) :=
    (hread.needsWord.silent (by decide)).append hend
  have hshape : propertyLine name value =
      name.toList ++ ([' ', '=', ' '] ++ (('"' :: value.toList) ++ ['"', '\n'])) := by
    simp [propertyLine, doubleQuoted_eq]
  rw [hshape]
  exact hassigned.word_append hread.needsWord hname fun word rest hword hsuffix =>
    h.eq_none hother hsigns hword (by decide) fun heq => hne (heq ▸ hsuffix)

/-- In a block, a reader finds what it finds in the body. -/
theorem yields_blockText_of_silent {keyword : String} {body : List Char} {values : List α}
    (hread : NeedsWord read) (hopening : Silent read (keyword.toList ++ [' ', '{']))
    (hstarts : ∀ c ∈ ['{', '\n'], starts (some c) = true) (h : Yields starts read body values) :
    Yields starts read (blockText keyword body) values := by
  have hbefore : Yields starts read (keyword.toList ++ [' ', '{']) [] :=
    hopening.yields_of_getLast? (by simp) (hstarts '{' (by simp))
  have hafter : Yields starts read ['}', '\n'] [] :=
    hread.yields (by decide) rfl (hstarts _ (by simp))
  simpa [blockText] using (hbefore.append h).append hafter

theorem yields_blockText {keyword : String} {body : List Char} {values : List α}
    (hread : NeedsSign signs read) (hsigns : '{' ∉ signs) (hkeyword : IsWord keyword.toList)
    (hstarts : ∀ c ∈ ['{', '\n'], starts (some c) = true) (h : Yields starts read body values) :
    Yields starts read (blockText keyword body) values := by
  have hblank : isWordChar ' ' = false ∧ isWordChar '{' = false := by decide
  have hopening : quiet signs (keyword.toList ++ [' ', '{']) = true :=
    quiet_word_append hkeyword.2 (show signOf [' ', '{'] = some '{' by decide) hsigns
      (by simp [quiet, hblank])
  exact yields_blockText_of_silent hread.needsWord (silent_of_quiet hread hopening) hstarts h

end Lines

/-! ## What is read of a line -/

section Values

variable (indent : Nat) {name text : String}

theorem literal_doubleQuoted (h : IsLiteral text) (rest : List Char) :
    literal (doubleQuoted text ++ rest) = some (text.toList, rest) := h.literal_eq .kotlinCall rest

theorem afterSpaced_doubleQuoted (text : String) (rest : List Char) :
    afterSpaced "(" ('(' :: (doubleQuoted text ++ rest)) = some (doubleQuoted text ++ rest) :=
  afterSpaced_append (by decide) _

/-- A call with a string as its argument. -/
theorem callLine_doubleQuoted (name : String) :
    callLine indent name (doubleQuoted text) = List.replicate indent ' ' ++
      (name.toList ++ ('(' :: '"' :: text.toList) ++
        ('"' :: (Form.kotlinCall.closing ++ ['\n']))) := by
  simp [callLine, doubleQuoted_eq, Form.closing]

theorem yields_plugin (hname : IsWord name.toList) (htext : IsLiteral text) :
    Yields isNameBorder (call name literal) (callLine indent name (doubleQuoted text))
      [text.toList] := by
  have hread := ((beginsWith_call name literal).needsSign hname (by decide)).needsWord
  rw [callLine_doubleQuoted]
  refine yields_line hread .kotlinCall indent [')'] (by decide) rfl
    fun rest => ?_
  have hcall := call_append name (afterSpaced_doubleQuoted text (')' :: rest))
    (literal_doubleQuoted htext (')' :: rest))
  simpa [doubleQuoted_eq] using hcall

theorem yields_mavenCall (htext : IsLiteral text) :
    Yields isNameBorder readMavenCall (callLine indent "maven" (doubleQuoted text))
      [text.toList] := by
  have hread :=
    (beginsWith_readMavenCall.needsSign (by decide) (by decide)).needsWord
  rw [callLine_doubleQuoted]
  refine yields_line hread .kotlinCall indent [] (by decide) rfl fun rest => ?_
  have hurl : after "url" (doubleQuoted text ++ rest) = none :=
    after_eq_none (by simp [doubleQuoted_eq])
  have huri : after "uri" (doubleQuoted text ++ rest) = none :=
    after_eq_none (by simp [doubleQuoted_eq])
  have hshape : "maven".toList ++ ('(' :: '"' :: text.toList) ++ ('"' :: ([] ++ rest)) =
      "maven".toList ++ ('(' :: (doubleQuoted text ++ rest)) := by simp [doubleQuoted_eq]
  rw [hshape, readMavenCall, after_append]
  simp only [Option.bind_eq_bind, Option.bind_some, afterSpaced_doubleQuoted, optionally, hurl,
    Option.bind_none, Option.getD_none, optionalUri, huri]
  exact literal_doubleQuoted htext rest

theorem yields_namedRepository (hname : IsWord name.toList) :
    Yields isNameBorder (readNamedRepository name) (callLine indent name []) [()] := by
  have hread :=
    ((beginsWith_readNamedRepository name).needsSign hname (by decide)).needsWord
  have hshape : callLine indent name [] = List.replicate indent ' ' ++
      (name.toList ++ ('(' :: (Form.kotlinCall.closing ++ ['\n']))) := rfl
  rw [hshape]
  refine yields_line hread .kotlinCall indent [] (by decide) rfl fun rest => ?_
  rw [readNamedRepository, after_append]
  simp only [Option.bind_eq_bind, Option.bind_some, List.nil_append,
    skipBlanks_cons (show isBlank '(' = false by decide)]
  rfl

theorem afterSpaced_assigned {c : Char} (hblank : isBlank c = false) (text : List Char) :
    afterSpaced "=" ([' ', '=', ' '] ++ c :: text) = some (c :: text) := by
  have hspace : ∀ c ∈ [' '], isBlank c = true := by decide
  exact afterSpaced_append_cons rfl (by decide) hspace hspace hblank text

/-- A string in quotes is read where it is assigned to a property. -/
theorem readAssignment_append (form : Form) (htext : IsLiteral text) (rest : List Char) :
    readAssignment name literal
      (name.toList ++ ([' ', '=', ' '] ++ (inQuotes form.quote text.toList ++ rest))) =
        some (text.toList, rest) := by
  have hassigned := afterSpaced_assigned form.isBlank_quote
    (text.toList ++ [form.quote] ++ rest)
  rw [readAssignment, after_append]
  simp only [inQuotes, List.cons_append, Option.bind_eq_bind, Option.bind_some] at hassigned ⊢
  simp only [hassigned, Option.bind_some]
  exact htext.literal_eq form rest

theorem yields_assignment (hname : IsWord name.toList) (htext : IsLiteral text) :
    Yields isWordBorder (readAssignment name literal) (propertyLine name text) [text.toList] := by
  have hread :=
    ((beginsWith_readAssignment name literal).needsSign hname (by decide)).needsWord
  have hborder : ∀ c ∈ ['"', '\n'], isWordBorder (some c) = true := by decide
  have hshape : propertyLine name text =
      name.toList ++ ([' ', '=', ' '] ++ doubleQuoted text) ++ ['\n'] := by
    simp [propertyLine]
  have hstatement : Yields isWordBorder (readAssignment name literal)
      (name.toList ++ ([' ', '=', ' '] ++ doubleQuoted text)) [text.toList] := by
    refine yields_singleton (fun rest => ?_) (by simp) fun c hc => ?_
    · rw [List.append_assoc, List.append_assoc]
      exact readAssignment_append .kotlinCall htext rest
    · obtain rfl : '"' = c := by simpa [doubleQuoted_eq, List.getLast?_cons] using hc
      exact hborder _ (by simp)
  have hend : Yields isWordBorder (readAssignment name literal) ['\n'] [] :=
    hread.yields (by decide) rfl (hborder _ (by simp))
  rw [hshape]
  exact hstatement.append hend

end Values

end GradleWorkspace.BuildFile
