import Mathlib.Data.List.DropRight
import GradleWorkspace.Proofs.Script.Unread
import GradleWorkspace.Proofs.BuildFile.Item

/-!
# Lines in the Groovy dialect

In Groovy, a line of a build file gives a string in single quotes to a function without parentheses
around it, and the address of a repository is set in a block of its own.  This file says what the
readers find on such lines.

* `beginsWith_readPluginCommand` and `beginsWith_readPluginApplication` are the words and signs that
  the declarations of plugins begin with.
* `quotedLine` is a line with a string.  Nothing is read of it if the words of the line are other
  ones and nothing is read in the string (`yields_nil_quotedLine`).
* A quote after the word `id` begins the name of a plugin.  In a string that does not end in this
  word, nothing is read (`yields_content_readPluginCommand`).
* `pluginCommand`, `propertyCommand` and `repositoryCommand` are the texts of the lines.
-/

namespace GradleWorkspace.BuildFile

open Script Text

/-! ## Readers of plugins -/

theorem beginsWith_readPluginCommand :
    BeginsWith "id" ['(', '"', '\''] readPluginCommand := by
  intro text value rest h
  obtain ⟨unread, hafter, h⟩ := Option.bind_eq_some_iff.1 h
  have hquote : ∀ tail, literal tail = some (value, rest) →
      ∃ c tail', tail = c :: tail' ∧ c ∈ ['(', '"', '\''] := by
    intro tail htail
    cases tail with
    | nil => simp [literal] at htail
    | cons c tail =>
        rw [literal] at htail
        split at htail
        · next hc =>
          refine ⟨c, tail, rfl, ?_⟩
          rcases (by simpa [isQuote] using hc : c = '"' ∨ c = '\'') with rfl | rfl <;> simp
        · simp at htail
  rw [optionalOpening, optionally] at h
  cases hopen : after "(" (skipBlanks unread) with
  | some inside =>
      exact ⟨unread, '(', inside, eq_append_of_after hafter, by simp, eq_append_of_after hopen⟩
  | none =>
      have hskip : skipBlanks (skipBlanks unread) = skipBlanks unread :=
        List.dropWhile_idempotent _ _
      rw [hopen, Option.getD_none, hskip] at h
      obtain ⟨c, tail, htail, hc⟩ := hquote _ h
      exact ⟨unread, c, tail, eq_append_of_after hafter, hc, htail⟩

theorem of_readPluginApplication {text value rest : List Char}
    (h : readPluginApplication text = some (value, rest)) :
    ∃ c unread tail, text = "apply".toList ++ c :: unread ∧ isBlank c = true ∧
      skipBlanks unread = 'p' :: tail := by
  obtain ⟨unread, hafter, h⟩ := Option.bind_eq_some_iff.1 h
  obtain ⟨inside, hblanks, h⟩ := Option.bind_eq_some_iff.1 h
  obtain ⟨tail, hplugin, -⟩ := Option.bind_eq_some_iff.1 h
  cases unread with
  | nil => simp [afterBlanks] at hblanks
  | cons c unread =>
      rw [afterBlanks] at hblanks
      split at hblanks
      · next hc =>
        rw [← Option.some.inj hblanks] at hplugin
        exact ⟨c, unread, _, eq_append_of_after hafter, hc, eq_append_of_after hplugin⟩
      · simp at hblanks

theorem beginsWith_readPluginApplication : BeginsWith "apply" ['p'] readPluginApplication := by
  intro text value rest h
  obtain ⟨c, unread, tail, htext, hc, htail⟩ := of_readPluginApplication h
  exact ⟨c :: unread, 'p', tail, htext, by simp, (skipBlanks_of_isBlank hc unread).trans htail⟩

theorem followedBy_readPluginApplication : FollowedBy "apply" isBlank readPluginApplication := by
  intro text value rest h
  obtain ⟨c, unread, -, htext, hc, -⟩ := of_readPluginApplication h
  exact ⟨c, unread, htext, hc⟩

/-! ## Lines with a string -/

/-- A line with a string in single quotes. -/
def quotedLine (indent : Nat) (front content back : List Char) : List Char :=
  List.replicate indent ' ' ++ (front ++ (inQuotes '\'' content ++ back))

section QuotedLine

variable {α : Type} {name : String} {signs : List Char} {read : Reader α}
  {starts : Option Char → Bool} {front content back : List Char}

theorem mask_quotedLine (indent : Nat) (hfront : ∀ c ∈ front, isCode c = true)
    (hcontent : ∀ c ∈ content, isPlain c = true) (hne : content ≠ [])
    (hback : ∀ c ∈ back, isCode c = true) :
    mask (quotedLine indent front content back) =
      quotedLine indent front (content.map blank) back := by
  have hindent : ∀ c ∈ List.replicate indent ' ', isCode c = true := by
    intro c hc
    rw [List.eq_of_mem_replicate hc]
    decide
  rw [mask, quotedLine, maskFrom_code_append hindent, maskFrom_code_append hfront,
    maskFrom_string_append (by decide) hcontent hne, maskFrom_code hback, quotedLine]

/-- Nothing is read of a line with other words, if nothing is read in its string. -/
theorem yields_nil_quotedLine (indent : Nat) (h : BeginsWith name signs read)
    (hname : IsWord name.toList) (hfront : avoids name signs (front ++ ['\'']) = true)
    (hcontent : Yields starts read (content ++ ['\'']) [])
    (hback : ∀ c ∈ back, isWordChar c = false) (hlast : back.getLast? = some '\n')
    (hstarts : ∀ c ∈ ['\'', '\n'], starts (some c) = true) :
    Yields starts read (quotedLine indent front content back) [] := by
  have hread := h.needsWord hname
  have hbefore : Yields starts read (List.replicate indent ' ' ++ (front ++ ['\''])) [] := by
    refine ((silent_indentation hread indent).append
      (silent_of_avoids h hname (fun c hc => ?_) hfront)).yields fun c hc => ?_
    · obtain rfl : '\'' = c := by simpa using hc
      decide
    · obtain rfl : '\'' = c := by simpa [List.getLast?_append] using hc
      exact hstarts _ (by simp)
  have hafter : Yields starts read back [] := hread.yields hback hlast (hstarts _ (by simp))
  simpa [quotedLine, inQuotes] using (hbefore.append hcontent).append hafter

/-- What is read of a line up to the end of its string. -/
theorem yields_quotedLine (indent : Nat) {value : α} (hread : NeedsWord read)
    (h : ∀ rest, read (front ++ (inQuotes '\'' content ++ rest)) = some (value, rest))
    (hback : ∀ c ∈ back, isWordChar c = false) (hlast : back.getLast? = some '\n')
    (hstarts : ∀ c ∈ [' ', '\'', '\n'], starts (some c) = true) :
    Yields starts read (quotedLine indent front content back) [value] := by
  have hindent : Yields starts read (List.replicate indent ' ') [] :=
    yields_indentation hread (hstarts _ (by simp)) indent
  have hstatement : Yields starts read (front ++ inQuotes '\'' content) [value] := by
    refine yields_singleton (fun rest => ?_) (by simp [inQuotes]) fun c hc => ?_
    · rw [List.append_assoc]
      exact h rest
    · obtain rfl : '\'' = c := by
        simpa [inQuotes, List.getLast?_append, List.getLast?_cons] using hc
      exact hstarts _ (by simp)
  have hafter : Yields starts read back [] := hread.yields hback hlast (hstarts _ (by simp))
  simpa [quotedLine] using hindent.append (hstatement.append hafter)

end QuotedLine

/-! ## Strings -/

section Strings

variable {α : Type} {name text : String} {signs : List Char} {read : Reader α}

/-- In a string, no word has a sign other than a quote after it. -/
theorem IsLiteral.silent_content (htext : IsLiteral text) (h : BeginsWith name signs read)
    (hname : IsWord name.toList) (hsigns : ∀ sign ∈ signs, sign ∈ ['(', '{', '=']) :
    Silent read (text.toList ++ ['\'']) := by
  refine h.followedBy.silent_content hname (by decide) (fun c hc => ?_) ?_
  · have hnot : c ∉ signs := fun hsign =>
      htext.notMem c (List.mem_cons_of_mem _ hc) (hsigns c hsign)
    simpa [isBlank_of_isLiteralChar (htext.2 c hc)] using hnot
  · have hnot : '\'' ∉ signs := fun hsign => absurd (hsigns _ hsign) (by decide)
    have hblank : isBlank '\'' = false := by decide
    simpa [hblank] using hnot

/-- In a masked string, there is no word. -/
theorem silent_blanks (hread : NeedsWord read) (text : List Char) :
    Silent read (text.map blank ++ ['\'']) := by
  refine hread.silent fun c hc => ?_
  rcases List.mem_append.1 hc with hc | hc
  · obtain ⟨d, -, rfl⟩ := List.mem_map.1 hc
    unfold blank
    split <;> decide
  · obtain rfl := List.mem_singleton.1 hc
    decide

theorem silent_content_readPluginApplication (htext : IsLiteral text) :
    Silent readPluginApplication (text.toList ++ ['\'']) :=
  followedBy_readPluginApplication.silent_content (by decide) (by decide)
    (fun c hc => isBlank_of_isLiteralChar (htext.2 c hc)) (by decide)

theorem yields_content_readPluginCommand (htext : IsLiteral text)
    (hend : ¬EndsIn "id".toList text.toList) :
    Yields isNameBorder readPluginCommand (text.toList ++ ['\'']) [] := by
  refine beginsWith_readPluginCommand.followedBy.yields_content isWord_id (by decide)
    (fun c hc => ?_) hend
  have hnone := of_isLiteralChar (fun c => !(isBlank c || ['(', '"', '\''].contains c))
    (by decide) (htext.2 c hc)
  simpa using hnone

theorem yields_content_of_silent {starts : Option Char → Bool} {content : List Char}
    (h : Silent read (content ++ ['\''])) (hstarts : starts (some '\'') = true) :
    Yields starts read (content ++ ['\'']) [] :=
  h.yields_of_getLast? List.getLast?_concat hstarts

end Strings

/-! ## The texts of lines -/

/-- The line that declares a plugin, as in `id 'java'`. -/
def pluginCommand (indent : Nat) (id : String) : List Char :=
  quotedLine indent "id ".toList id.toList ['\n']

/-- What stands before the string that is assigned to a property. -/
def assignmentFront (name : String) : List Char := name.toList ++ [' ', '=', ' ']

/-- The line that sets a property, as in `version = '1.0'`. -/
def propertyCommand (name value : String) : List Char :=
  quotedLine 0 (assignmentFront name) value.toList ['\n']

/-- What stands before the address of a repository. -/
def mavenFront : List Char := "maven ".toList ++ '{' :: " url ".toList

/-- The line that declares a repository: by its name, as in `google()`, if it is well known, and by
its address in a block of its own otherwise. -/
def repositoryCommand (indent : Nat) (repository : String) : List Char :=
  if repository ∈ wellKnownRepositories then callLine indent repository []
  else quotedLine indent mavenFront repository.toList [' ', '}', '\n']

variable (indent : Nat)

theorem isCode_assignmentFront {name : String} (hname : IsWord name.toList) :
    ∀ c ∈ assignmentFront name, isCode c = true := by
  intro c hc
  rcases List.mem_append.1 hc with hc | hc
  · exact isCode_of_isWordChar (hname.2 c hc)
  · have hsigns : ∀ d ∈ [' ', '=', ' '], isCode d = true := by decide
    exact hsigns c hc

theorem flat_pluginCommand {id : String} (h : IsLiteral id) : Flat (pluginCommand indent id) :=
  (flat_replicate indent).append ((flat_of_forall (by decide)).append
    ((h.flat .groovyCommand).append (flat_of_forall (by decide))))

theorem flat_propertyCommand {name value : String} (hname : IsWord name.toList)
    (hvalue : IsLiteral value) : Flat (propertyCommand name value) :=
  have hfront : Flat (assignmentFront name) :=
    (flat_of_isWordChar hname.2).append (flat_of_forall (by decide))
  (flat_replicate 0).append
    (hfront.append ((hvalue.flat .groovyCommand).append (flat_of_forall (by decide))))

/-- The braces around the address of a repository are a pair. -/
theorem balanced_repositoryCommand {repository : String} (h : IsLiteral repository) :
    Balanced (repositoryCommand indent repository) := by
  unfold repositoryCommand
  split
  · next hknown => exact .flat (flat_callLine indent (isWord_wellKnown repository hknown) flat_nil)
  · have hshape : quotedLine indent mavenFront repository.toList [' ', '}', '\n'] =
        List.replicate indent ' ' ++ "maven ".toList ++
          ('{' :: (" url ".toList ++ (inQuotes '\'' repository.toList ++ [' ']) ++ ['}'])) ++
            ['\n'] := by simp [quotedLine, mavenFront]
    have hbefore : Flat (List.replicate indent ' ' ++ "maven ".toList) :=
      (flat_replicate indent).append (flat_of_forall (by decide))
    have hinside : Flat (" url ".toList ++ (inQuotes '\'' repository.toList ++ [' '])) :=
      (flat_of_forall (by decide)).append
        ((h.flat .groovyCommand).append (flat_of_forall (by decide)))
    rw [hshape]
    exact ((Balanced.flat hbefore).append (.braces (.flat hinside))).append
      (.flat (flat_of_forall (by decide)))

theorem balanced_repositoryCommands {names : List String} (h : ∀ name ∈ names, IsLiteral name) :
    Balanced ('\n' :: names.flatMap (repositoryCommand indent)) :=
  have hlineEnd : Flat ['\n'] := flat_of_forall (by decide)
  (Balanced.flat hlineEnd).append
    (balanced_flatMap fun name hname => balanced_repositoryCommand indent (h name hname))

/-! ## What is read of a line -/

/-- A plugin is read as it is declared. -/
theorem readPluginCommand_append {id : String} (h : IsLiteral id) (rest : List Char) :
    readPluginCommand ("id ".toList ++ (inQuotes '\'' id.toList ++ rest)) =
      some (id.toList, rest) := by
  have hopening : optionalOpening (' ' :: '\'' :: (id.toList ++ '\'' :: rest)) =
      '\'' :: (id.toList ++ '\'' :: rest) :=
    optionalOpening_append .groovyCommand (by decide) (by decide) _
  have hshape : "id ".toList ++ (inQuotes '\'' id.toList ++ rest) =
      "id".toList ++ (' ' :: '\'' :: (id.toList ++ '\'' :: rest)) := by simp [inQuotes]
  rw [hshape, readPluginCommand, after_append]
  simp only [Option.bind_eq_bind, Option.bind_some, hopening]
  rw [← inQuotes_append]
  exact h.literal_eq .groovyCommand rest

/-- An address is read as it is set. -/
theorem readUrl_append {address : String} (h : IsLiteral address) (rest : List Char) :
    readUrl ("url".toList ++ (' ' :: (inQuotes '\'' address.toList ++ rest))) =
      some (address.toList, rest) := by
  have hskip : skipBlanks (' ' :: (inQuotes '\'' address.toList ++ rest)) =
      '\'' :: (address.toList ++ '\'' :: rest) := by
    rw [inQuotes_append, skipBlanks_of_isBlank (by decide), skipBlanks_cons (by decide)]
  have huri : after "uri" ('\'' :: (address.toList ++ '\'' :: rest)) = none :=
    after_eq_none (by simp)
  rw [readUrl, after_append]
  simp only [Option.bind_eq_bind, Option.bind_some, hskip]
  rw [if_neg (by decide), optionalUri, optionally, huri, Option.bind_eq_bind, Option.bind_none,
    Option.getD_none, ← inQuotes_append]
  exact h.literal_eq .groovyCommand rest

/-- The address in the block of a repository is read as it is written. -/
theorem readMavenBlock_append {address : String} (h : IsLiteral address) (rest : List Char) :
    readMavenBlock (mavenFront ++ (inQuotes '\'' address.toList ++ rest)) =
      some (address.toList, rest) := by
  have hblank : ∀ tail, readUrl (' ' :: tail) = none := by
    intro tail
    rw [readUrl, after_eq_none (by simp)]
    rfl
  have hurl : "url".toList = 'u' :: "rl".toList := by decide
  have hinside : readUrlInBlock (some '{')
      (' ' :: ("url".toList ++ (' ' :: (inQuotes '\'' address.toList ++ rest)))) =
        some (address.toList, rest) := by
    rw [readUrlInBlock, if_pos (by decide), hblank]
    simp only [if_neg (show ' ' ≠ '}' by decide)]
    rw [hurl, List.cons_append, readUrlInBlock, if_pos (by decide), ← List.cons_append, ← hurl,
      readUrl_append h]
  have hshape : mavenFront ++ (inQuotes '\'' address.toList ++ rest) =
      "maven".toList ++ (' ' :: '{' ::
        (' ' :: ("url".toList ++ (' ' :: (inQuotes '\'' address.toList ++ rest))))) := by
    simp [mavenFront]
  rw [hshape, readMavenBlock, after_append]
  simp only [Option.bind_eq_bind, Option.bind_some, next_brace]
  exact hinside

end GradleWorkspace.BuildFile
