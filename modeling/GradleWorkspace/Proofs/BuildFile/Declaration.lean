import Mathlib.Data.List.Basic
import GradleWorkspace.BuildFile.Parser
import GradleWorkspace.Proofs.Script.Block
import GradleWorkspace.Proofs.Script.Taken

/-!
# Declarations of dependencies

From a dependency that was read this file goes back to the declaration in the text.

* `of_readExternal` and `of_readProject` say how a declaration is built: some text without quotes,
  and a string literal that is the coordinate or the path.
* `artifactsAt` and `referencesAt` are what a block declares, with the places of the literals.
* A literal that is read both as a coordinate and as a path stands after a word that ends in
  `project` (`literals_read_once`), and such a literal exists (`literal_read_twice`).
-/

namespace GradleWorkspace

/-- The string that a dependency is declared by: a coordinate or a path. -/
def Dependency.literal : Dependency → String
  | .external _ group artifact version => coordinate group artifact version
  | .project _ path => path

namespace BuildFile

open Script Text

/-! ## The literal of a declaration -/

/-- A text consists of a part without quotes, a string literal, and a rest. -/
structure HoldsLiteral (text before content : List Char) : Prop where
  isQuote_before : ∀ c ∈ before, isQuote c = false
  exists_eq : ∃ opening closing rest, isQuote opening = true ∧ isQuote closing = true ∧
    text = before ++ opening :: (content ++ closing :: rest)

theorem HoldsLiteral.append {front text before content : List Char}
    (hfront : ∀ c ∈ front, isQuote c = false) (h : HoldsLiteral text before content) :
    HoldsLiteral (front ++ text) (front ++ before) content where
  isQuote_before := List.forall_mem_append.2 ⟨hfront, h.isQuote_before⟩
  exists_eq := by
    obtain ⟨opening, closing, rest, hopening, hclosing, rfl⟩ := h.exists_eq
    exact ⟨opening, closing, rest, hopening, hclosing, by rw [List.append_assoc]⟩

theorem holdsLiteral_nil {text content rest : List Char} {opening closing : Char}
    (hopening : isQuote opening = true) (hclosing : isQuote closing = true)
    (h : text = opening :: (content ++ closing :: rest)) : HoldsLiteral text [] content :=
  ⟨by simp, opening, closing, rest, hopening, hclosing, h⟩

/-- At an offset of a text, a string literal with a given content stands. -/
def LiteralAt (text : List Char) (offset : Nat) (content : List Char) : Prop :=
  ∃ opening closing rest, isQuote opening = true ∧ isQuote closing = true ∧
    text.drop offset = opening :: (content ++ closing :: rest)

/-- The literal of a text is the next one from the front of the text on. -/
theorem HoldsLiteral.literalAt {text before content : List Char}
    (h : HoldsLiteral text before content) (front : List Char) :
    LiteralAt (front ++ text) (literalOffset (front ++ text) front.length) content ∧
      (front ++ text).take (literalOffset (front ++ text) front.length) = front ++ before := by
  obtain ⟨opening, closing, rest, hopening, hclosing, rfl⟩ := h.exists_eq
  rw [literalOffset_append h.isQuote_before hopening, ← List.append_assoc]
  exact ⟨⟨opening, closing, rest, hopening, hclosing, List.drop_left⟩, List.take_left⟩

theorem isQuote_of_isWord {word : List Char} (h : IsWord word) :
    ∀ c ∈ word, isQuote c = false :=
  fun c hc => isQuote_eq_false_of_isWordChar (h.2 c hc)

theorem isWord_project : IsWord "project".toList := by decide

theorem last_of_isWord {word front : List Char} (hword : IsWord word) :
    ∀ c ∈ (front ++ word).getLast?, isBlank c = false ∧ c ≠ '(' := by
  intro c hc
  rw [List.getLast?_append_of_ne_nil _ hword.1] at hc
  have hc := hword.2 c (List.mem_of_getLast? hc)
  have hparenthesis : isWordChar '(' = false := by decide
  constructor
  · cases hblank : isBlank c with
    | false => rfl
    | true => simp [isWordChar_eq_false_of_isBlank hblank] at hc
  · rintro rfl
    simp [hparenthesis] at hc

/-- A word at the end of a text is the end of the word before what opens an argument. -/
theorem suffix_wordBefore {word front opening : List Char} (hword : IsWord word)
    (hfront : word <:+ front) (hopening : IsOpening opening) :
    word <:+ wordBefore (front ++ opening) := by
  obtain ⟨start, rfl⟩ := hfront
  rw [wordBefore_append hopening (last_of_isWord hword), List.reverse_append,
    List.takeWhile_append_of_pos fun c hc => hword.2 c (List.mem_reverse.1 hc)]
  simp

theorem isWordBorder_of_isNameBorder {c : Option Char} (h : isNameBorder c = true) :
    isWordBorder c = true := by
  cases c with
  | none => rfl
  | some c =>
      simp only [isNameBorder, Bool.not_eq_true', Bool.or_eq_false_iff] at h
      simp [isWordBorder, h.1]

/-- A word that begins at a border is the whole word before what opens an argument. -/
theorem wordBefore_eq {word front opening : List Char} (hword : IsWord word)
    (hfront : isWordBorder front.getLast? = true) (hopening : IsOpening opening) :
    wordBefore (front ++ (word ++ opening)) = word := by
  have hborder : front.reverse.takeWhile isWordChar = [] := by
    cases hreverse : front.reverse with
    | nil => rfl
    | cons c rest =>
        have hc : front.getLast? = some c := by
          rw [← List.head?_reverse, hreverse, List.head?_cons]
        rw [hc] at hfront
        have hnot : isWordChar c = false := by simpa [isWordBorder] using hfront
        rw [List.takeWhile_cons, if_neg (by simp [hnot])]
  rw [← List.append_assoc, wordBefore_append hopening (last_of_isWord hword),
    List.reverse_append,
    List.takeWhile_append_of_pos fun c hc => hword.2 c (List.mem_reverse.1 hc), hborder]
  simp

/-! ## Published artifacts -/

theorem of_readCoordinate {text rest : List Char} {group artifact version : String}
    (h : readCoordinate text = some ((group, artifact, version), rest)) :
    HoldsLiteral text [] (coordinate group artifact version).toList ∧
      ∀ segment ∈ [group, artifact, version],
        segment.toList ≠ [] ∧ ∀ c ∈ segment.toList, isSegmentChar c = true := by
  unfold readCoordinate at h
  split at h
  · simp at h
  · next opening text =>
    split at h
    · next hopening =>
      obtain ⟨⟨first, text₁⟩, hfirst, h⟩ := Option.bind_eq_some_iff.1 h
      obtain ⟨text₂, hcolon, h⟩ := Option.bind_eq_some_iff.1 h
      obtain ⟨⟨second, text₃⟩, hsecond, h⟩ := Option.bind_eq_some_iff.1 h
      obtain ⟨text₄, hcolon', h⟩ := Option.bind_eq_some_iff.1 h
      obtain ⟨⟨third, text₅⟩, hthird, h⟩ := Option.bind_eq_some_iff.1 h
      cases text₅ with
      | nil => simp at h
      | cons closing text₆ =>
        dsimp only at h
        split at h
        · next hclosing =>
          simp only [Option.some.injEq, Prod.mk.injEq] at h
          obtain ⟨⟨rfl, rfl, rfl⟩, rfl⟩ := h
          have htext : text = (coordinate (String.ofList first) (String.ofList second)
              (String.ofList third)).toList ++ closing :: text₆ := by
            rw [(eq_append_of_run hfirst).1, eq_append_of_after hcolon,
              (eq_append_of_run hsecond).1, eq_append_of_after hcolon',
              (eq_append_of_run hthird).1]
            simp [coordinate]
          refine ⟨holdsLiteral_nil hopening hclosing (congrArg _ htext), ?_⟩
          · simp only [List.forall_mem_cons, String.toList_ofList, List.not_mem_nil,
              false_implies, implies_true, and_true]
            exact ⟨⟨(eq_append_of_run hfirst).2, forall_of_run hfirst⟩,
              ⟨(eq_append_of_run hsecond).2, forall_of_run hsecond⟩,
              (eq_append_of_run hthird).2, forall_of_run hthird⟩
        · simp at h
    · simp at h

/-- A published artifact is read from a word, what opens an argument, and a coordinate. -/
theorem of_readExternal {dialect : Dialect} {text rest : List Char} {dependency : Dependency}
    (h : readExternal dialect text = some (dependency, rest)) :
    ∃ word opening group artifact version,
      dependency = .external (String.ofList word) group artifact version ∧
      IsWord word ∧ IsOpening opening ∧
      (∀ segment ∈ [group, artifact, version],
        segment.toList ≠ [] ∧ ∀ c ∈ segment.toList, isSegmentChar c = true) ∧
      HoldsLiteral text (word ++ opening) (coordinate group artifact version).toList := by
  have hlast : ∀ {word opening inside : List Char} {group artifact version : String},
      IsWord word → IsOpening opening →
      HoldsLiteral inside [] (coordinate group artifact version).toList →
      HoldsLiteral (word ++ (opening ++ inside)) (word ++ opening)
        (coordinate group artifact version).toList := by
    intro word opening inside group artifact version hword hopening hliteral
    have hargument := hliteral.append hopening.isQuote_eq_false
    rw [List.append_nil] at hargument
    exact hargument.append (isQuote_of_isWord hword)
  cases dialect with
  | groovy =>
      obtain ⟨⟨word, unread⟩, hrun, h⟩ := Option.bind_eq_some_iff.1 h
      dsimp only at h
      split at h
      · simp at h
      · obtain ⟨⟨⟨group, artifact, version⟩, tail⟩, hcoordinate, h⟩ :=
          Option.bind_eq_some_iff.1 h
        obtain ⟨rfl, rfl⟩ := by simpa using h
        obtain ⟨opening, hopening, hunread⟩ := eq_append_optionalOpening unread
        obtain ⟨hliteral, hsegments⟩ := of_readCoordinate hcoordinate
        refine ⟨word, opening, group, artifact, version, rfl, isWord_of_run hrun, hopening,
          hsegments, ?_⟩
        rw [(eq_append_of_run hrun).1, hunread]
        exact hlast (isWord_of_run hrun) hopening hliteral
  | kotlin =>
      obtain ⟨⟨word, unread⟩, hrun, h⟩ := Option.bind_eq_some_iff.1 h
      obtain ⟨⟨⟨group, artifact, version⟩, tail⟩, hcall, h⟩ := Option.bind_eq_some_iff.1 h
      obtain ⟨rfl, rfl⟩ := by simpa using h
      obtain ⟨opening, inside, _, hopening, hunread, hcoordinate⟩ := of_call hcall
      obtain ⟨hliteral, hsegments⟩ := of_readCoordinate hcoordinate
      refine ⟨word, opening, group, artifact, version, rfl, isWord_of_run hrun, hopening,
        hsegments, ?_⟩
      rw [(eq_append_of_run hrun).1, hunread]
      exact hlast (isWord_of_run hrun) hopening hliteral

/-! ## Modules of the workspace -/

/-- A text before a string literal that may be the argument of `project`: no word stands directly
before the argument, as in `project(path: ":core")`, or a word that ends in `project`. -/
def AfterProject (before : List Char) : Prop :=
  wordBefore before = [] ∨ "project".toList <:+ wordBefore before

theorem eq_append_of_beforeProject? {word configuration : List Char}
    (h : beforeProject? word = some configuration) :
    word = configuration ++ "project".toList ∧ configuration ≠ [] := by
  unfold beforeProject? at h
  split at h
  · next hends =>
    obtain rfl := Option.some.inj h
    obtain ⟨hsuffix, hlength⟩ := Bool.and_eq_true_iff.1 hends
    obtain ⟨front, rfl⟩ := List.isSuffixOf_iff_suffix.1 hsuffix
    have hseven : "project".toList.length = 7 := rfl
    have htake : (front ++ "project".toList).take
        ((front ++ "project".toList).length - 7) = front := by
      rw [List.length_append, hseven, Nat.add_sub_cancel, List.take_left]
    rw [htake]
    refine ⟨rfl, ?_⟩
    rintro rfl
    simp at hlength
  · simp at h

theorem of_readProjectArguments {dialect : Dialect} {text path rest : List Char}
    (h : readProjectArguments dialect text = some (path, rest)) :
    IsContent path ∧ ∃ before, HoldsLiteral text before path ∧
      ∀ front, "project".toList <:+ front → AfterProject (front ++ before) := by
  obtain ⟨opening, inside, tail, hopening, htext, h⟩ := of_call h
  obtain ⟨hpath, first, last, hfirst, hlast, hliteral⟩ := of_literal h
  refine ⟨hpath, ?_⟩
  have hname : ∀ c ∈ "path".toList, isQuote c = false := by decide
  unfold optionally at hliteral
  dsimp only at hliteral
  cases hnamed : after "path" inside >>= afterSpaced (argumentSign dialect) with
  | none =>
      rw [hnamed, Option.getD_none] at hliteral
      refine ⟨opening, ?_, fun front hfront => Or.inr ?_⟩
      · rw [htext]
        simpa using (holdsLiteral_nil hfirst hlast hliteral).append hopening.isQuote_eq_false
      · exact suffix_wordBefore isWord_project hfront hopening
  | some unread =>
      rw [hnamed, Option.getD_some] at hliteral
      obtain ⟨middle, hpathName, hsign⟩ := Option.bind_eq_some_iff.1 hnamed
      obtain ⟨blanks, blanks', hblanks, hblanks', hmiddle⟩ := eq_append_of_afterSpaced hsign
      obtain ⟨sign, hsignEq, hsignClass⟩ : ∃ sign, (argumentSign dialect).toList = [sign] ∧
          isWordChar sign = false ∧ isBlank sign = false ∧ sign ≠ '(' ∧
            isQuote sign = false := by
        cases dialect with
        | groovy => exact ⟨':', rfl, by decide⟩
        | kotlin => exact ⟨'=', rfl, by decide⟩
      refine ⟨opening ++ ("path".toList ++ (blanks ++ (sign :: blanks'))), ?_,
        fun front _ => Or.inl ?_⟩
      · have hsignQuote : ∀ c ∈ sign :: blanks', isQuote c = false := List.forall_mem_cons.2
          ⟨hsignClass.2.2.2, fun c hc => isQuote_eq_false_of_isBlank (hblanks' c hc)⟩
        have hnamedLiteral := ((((holdsLiteral_nil hfirst hlast hliteral).append
          hsignQuote).append fun c hc => isQuote_eq_false_of_isBlank (hblanks c hc)).append
            hname).append hopening.isQuote_eq_false
        rw [htext, eq_append_of_after hpathName, hmiddle, hsignEq]
        simpa using hnamedLiteral
      · have hshape : front ++ (opening ++ ("path".toList ++ (blanks ++ (sign :: blanks')))) =
            front ++ opening ++ "path".toList ++ blanks ++ (sign :: blanks') := by simp
        rw [hshape]
        exact wordBefore_sign hblanks' hsignClass.1 hsignClass.2.1 hsignClass.2.2.1

/-- A module is read from some text that ends in `project`, what opens an argument, perhaps the
name of the argument, and a path. -/
theorem of_readProject {dialect : Dialect} {text rest : List Char} {dependency : Dependency}
    (h : readProject dialect text = some (dependency, rest)) :
    ∃ word path before, dependency = .project (String.ofList word) (String.ofList path) ∧
      IsWord word ∧ IsContent path ∧ HoldsLiteral text before path ∧
      ∀ front, AfterProject (front ++ before) := by
  have hcalled : ∀ {unread path tail : List Char},
      readProjectCall dialect unread = some (path, tail) →
      IsContent path ∧ ∃ before, HoldsLiteral unread before path ∧
        ∀ front, AfterProject (front ++ before) := by
    intro unread path tail hcall
    obtain ⟨inside, hname, harguments⟩ := Option.bind_eq_some_iff.1 hcall
    obtain ⟨hpath, before, hliteral, hafter⟩ := of_readProjectArguments harguments
    refine ⟨hpath, "project".toList ++ before, ?_, fun front => ?_⟩
    · rw [eq_append_of_after hname]
      exact hliteral.append (by decide)
    · rw [← List.append_assoc]
      exact hafter _ (List.suffix_append _ _)
  cases dialect with
  | groovy =>
      obtain ⟨⟨⟨configuration, path⟩, tail⟩, hcommand, h⟩ := Option.bind_eq_some_iff.1 h
      obtain ⟨rfl, rfl⟩ := by simpa using h
      obtain ⟨⟨word, unread⟩, hrun, h⟩ := Option.bind_eq_some_iff.1 hcommand
      have hword := isWord_of_run hrun
      rw [(eq_append_of_run hrun).1]
      dsimp only at h
      split at h
      · next found tail' hcall =>
        obtain ⟨⟨rfl, rfl⟩, rfl⟩ := by simpa using h
        obtain ⟨opening, hopening, hunread⟩ := eq_append_optionalOpening unread
        obtain ⟨hpath, before, hliteral, hafter⟩ := hcalled hcall
        refine ⟨word, found, word ++ (opening ++ before), rfl, hword, hpath, ?_, fun front => ?_⟩
        · rw [hunread]
          exact (hliteral.append hopening.isQuote_eq_false).append (isQuote_of_isWord hword)
        · simpa using hafter (front ++ word ++ opening)
      · obtain ⟨glued, hglued, h⟩ := Option.bind_eq_some_iff.1 h
        obtain ⟨⟨found, tail'⟩, harguments, h⟩ := Option.bind_eq_some_iff.1 h
        obtain ⟨⟨rfl, rfl⟩, rfl⟩ := by simpa using h
        obtain ⟨hpath, before, hliteral, hafter⟩ := of_readProjectArguments harguments
        obtain ⟨hsplit, hne⟩ := eq_append_of_beforeProject? hglued
        have hconfiguration : IsWord glued :=
          ⟨hne, fun c hc => hword.2 c (by rw [hsplit]; exact List.mem_append_left _ hc)⟩
        refine ⟨glued, found, word ++ before, rfl, hconfiguration, hpath,
          hliteral.append (isQuote_of_isWord hword), fun front => ?_⟩
        rw [← List.append_assoc]
        refine hafter _ ?_
        rw [hsplit, ← List.append_assoc]
        exact List.suffix_append _ _
  | kotlin =>
      obtain ⟨⟨word, unread⟩, hrun, h⟩ := Option.bind_eq_some_iff.1 h
      obtain ⟨⟨path, tail⟩, hcall, h⟩ := Option.bind_eq_some_iff.1 h
      obtain ⟨rfl, rfl⟩ := by simpa using h
      obtain ⟨opening, inside, _, hopening, hunread, hproject⟩ := of_call hcall
      obtain ⟨hpath, before, hliteral, hafter⟩ := hcalled hproject
      have hword := isWord_of_run hrun
      refine ⟨word, path, word ++ (opening ++ before), rfl, hword, hpath, ?_, fun front => ?_⟩
      · rw [(eq_append_of_run hrun).1, hunread]
        exact (hliteral.append hopening.isQuote_eq_false).append (isQuote_of_isWord hword)
      · simpa using hafter (front ++ word ++ opening)

/-! ## Literals that are read -/

/-- What a reader of dependencies finds in a block, with the offsets of the string literals that
it is read from. -/
def literalsRead (read : Reader Dependency) (body : List Char) : List (Nat × Dependency) :=
  (find isNameBorder read body).map fun found => (literalOffset body found.start, found.value)

/-- The published artifacts that a block declares. -/
def artifactsAt (dialect : Dialect) (body : List Char) : List (Nat × Dependency) :=
  literalsRead (readExternal dialect) body

/-- The modules that a block refers to. -/
def referencesAt (dialect : Dialect) (body : List Char) : List (Nat × Dependency) :=
  literalsRead (readProject dialect) body

theorem map_snd_literalsRead (read : Reader Dependency) (body : List Char) :
    (literalsRead read body).map Prod.snd = findValues isNameBorder read body := by
  rw [literalsRead, List.map_map]
  rfl

section Literals

variable {dialect : Dialect} {body : List Char} {found : Nat × Dependency}

theorem exists_of_mem_literalsRead {read : Reader Dependency}
    (h : found ∈ literalsRead read body) :
    ∃ front text rest, body = front ++ text ∧ isNameBorder front.getLast? = true ∧
      read text = some (found.2, rest) ∧ found.1 = literalOffset (front ++ text) front.length := by
  obtain ⟨place, hplace, rfl⟩ := List.mem_map.1 h
  obtain ⟨front, text, rest, hbody, hstart, hborder, hread⟩ := exists_read_of_mem_find hplace
  exact ⟨front, text, rest, hbody, hborder, hread, by rw [hstart, hbody]⟩

/-- An artifact is read from its coordinate, after the word that names its configuration. -/
theorem of_mem_artifactsAt (h : found ∈ artifactsAt dialect body) :
    LiteralAt body found.1 found.2.literal.toList ∧
      wordBefore (body.take found.1) = found.2.configuration.toList ∧
      found.2.configuration.toList ≠ [] := by
  obtain ⟨front, text, rest, rfl, hborder, hread, hoffset⟩ := exists_of_mem_literalsRead h
  obtain ⟨word, opening, group, artifact, version, hvalue, hword, hopening, -, hliteral⟩ :=
    of_readExternal hread
  obtain ⟨hliteralAt, htake⟩ := hliteral.literalAt front
  rw [hoffset, htake, hvalue, Dependency.configuration, String.toList_ofList,
    wordBefore_eq hword (isWordBorder_of_isNameBorder hborder) hopening]
  exact ⟨hliteralAt, rfl, hword.1⟩

/-- A reference is read from a path that may be the argument of `project`. -/
theorem of_mem_referencesAt (h : found ∈ referencesAt dialect body) :
    LiteralAt body found.1 found.2.literal.toList ∧ AfterProject (body.take found.1) := by
  obtain ⟨front, text, rest, rfl, -, hread, hoffset⟩ := exists_of_mem_literalsRead h
  obtain ⟨word, path, before, hvalue, -, -, hliteral, hafter⟩ := of_readProject hread
  obtain ⟨hliteralAt, htake⟩ := hliteral.literalAt front
  rw [hoffset, htake, hvalue, Dependency.literal, String.toList_ofList]
  exact ⟨hliteralAt, hafter front⟩

end Literals

/-- The dependencies of a build file are read from string literals of its block `dependencies`: the
artifacts from coordinates, the modules from paths.  No literal is read both ways, unless the name
of the configuration before it ends in `project`. -/
theorem literals_read_once (dialect : Dialect) {text : String} {body : List Char}
    (hbody : blockBody "dependencies" (stripComments text.toList) = some body) :
    (parse dialect text).dependencies =
      (artifactsAt dialect body).map Prod.snd ++ (referencesAt dialect body).map Prod.snd ∧
    (∀ found ∈ artifactsAt dialect body ++ referencesAt dialect body,
      LiteralAt body found.1 found.2.literal.toList) ∧
    ∀ artifact ∈ artifactsAt dialect body, ∀ reference ∈ referencesAt dialect body,
      ¬"project".toList <:+ artifact.2.configuration.toList → artifact.1 ≠ reference.1 := by
  refine ⟨?_, ?_, ?_⟩
  · rw [artifactsAt, referencesAt, map_snd_literalsRead, map_snd_literalsRead]
    simp [parse, dependencies, hbody]
  · intro found hfound
    rcases List.mem_append.1 hfound with hartifact | hreference
    · exact (of_mem_artifactsAt hartifact).1
    · exact (of_mem_referencesAt hreference).1
  · intro artifact hartifact reference hreference hproject hsame
    obtain ⟨-, hword, hne⟩ := of_mem_artifactsAt hartifact
    obtain ⟨-, hafter⟩ := of_mem_referencesAt hreference
    rw [← hsame] at hafter
    rw [AfterProject, hword] at hafter
    rcases hafter with hnone | hends
    · exact hne hnone
    · exact hproject hends

/-- The body of a block with an artifact and a reference in Groovy. -/
def twoDeclarations : List Char := "\n  api 'a:b:1'\n  api project(':c')\n".toList

theorem literals_read_once_two :
    (blockBody "dependencies" (stripComments
        (String.ofList (blockText "dependencies" twoDeclarations)).toList) =
      some twoDeclarations ∧
    (7, .external "api" "a" "b" "1") ∈ artifactsAt .groovy twoDeclarations ∧
    (29, .project "api" ":c") ∈ referencesAt .groovy twoDeclarations ∧
    ¬"project".toList <:+ "api".toList) ∧
    (7 : Nat) ≠ 29 := by
  have hbody : blockBody "dependencies" (stripComments
      (String.ofList (blockText "dependencies" twoDeclarations)).toList) =
        some twoDeclarations := by decide +kernel
  have hartifact : (7, .external "api" "a" "b" "1") ∈ artifactsAt .groovy twoDeclarations := by
    decide +kernel
  have hreference : (29, .project "api" ":c") ∈ referencesAt .groovy twoDeclarations := by
    decide +kernel
  have hproject : ¬"project".toList <:+ "api".toList := by decide
  exact ⟨⟨hbody, hartifact, hreference, hproject⟩,
    (literals_read_once .groovy hbody).2.2 _ hartifact _ hreference hproject⟩

/-- The body of a block with a reference in Kotlin whose path does not begin with a colon. -/
def relativeReference : List Char := "\n  api(project(\"a:b:c\"))\n".toList

/-- In Kotlin, a path without a colon at its front is also read as a coordinate, with `project`
taken for the name of the configuration. -/
theorem literal_read_twice :
    blockBody "dependencies" (stripComments
        (String.ofList (blockText "dependencies" relativeReference)).toList) =
      some relativeReference ∧
    (15, .external "project" "a" "b" "c") ∈ artifactsAt .kotlin relativeReference ∧
    (15, .project "api" "a:b:c") ∈ referencesAt .kotlin relativeReference := by
  refine ⟨?_, ?_, ?_⟩ <;> decide +kernel

end BuildFile

end GradleWorkspace
