import GradleWorkspace.Proofs.Script.Brace
import GradleWorkspace.Proofs.BuildFile.GroovyLines

/-!
# Addresses in blocks with settings

The block of a Maven repository sets an address and may hold further settings, words and blocks of
words, before the address and after it.  The address is looked for up to the next closing brace.  So
settings in braces do no harm after the address, and hide it if they stand before it.

* `Settings` are the further settings, and `MavenEntry` is a repository with its settings.
* `Settings.yields` says that nothing is read in settings by a reader that begins with another word.
* `Settings.readUrlInBlock_append` and `Settings.readUrlInBlock_eq_none` say how the reader of the
  address gets through the settings before it.
* `addresses_after_words` says which addresses are reported.
-/

namespace GradleWorkspace.BuildFile

open Script Text

/-! ## Settings -/

/-- What a block holds besides an address: words, and blocks of words. -/
inductive Settings
  | nil
  | word (name : String) (rest : Settings)
  | block (name : String) (inner rest : Settings)

namespace Settings

/-- Settings as they are written, with a blank after each. -/
def text : Settings → List Char
  | nil => []
  | word name rest => name.toList ++ ' ' :: rest.text
  | block name inner rest =>
      name.toList ++ ' ' :: (['{', ' '] ++ (inner.text ++ (['}', ' '] ++ rest.text)))

/-- The words of settings and the names of blocks in them. -/
def names : Settings → List String
  | nil => []
  | word name rest => name :: rest.names
  | block name inner rest => name :: (inner.names ++ rest.names)

/-- Whether settings consist of words only. -/
def isFlat : Settings → Bool
  | nil => true
  | word _ rest => rest.isFlat
  | block _ _ _ => false

end Settings

/-- A name of a setting: any word other than those with a meaning in the block of a repository. -/
def IsSettingName (name : String) : Prop :=
  IsWord name.toList ∧ name ≠ "url" ∧ name ≠ "maven"

instance (name : String) : Decidable (IsSettingName name) := inferInstanceAs (Decidable (_ ∧ _))

namespace Settings

theorem balanced {settings : Settings} (h : ∀ name ∈ settings.names, IsSettingName name) :
    Balanced settings.text := by
  have hblank : Balanced [' '] := .flat (flat_of_forall (by decide))
  induction settings with
  | nil => exact .flat flat_nil
  | word name rest ih =>
      obtain ⟨hname, hrest⟩ := List.forall_mem_cons.1 h
      have hword : Balanced name.toList := .flat (flat_of_isWordChar hname.1.2)
      exact hword.append (hblank.append (ih hrest))
  | block name inner rest ihInner ihRest =>
      obtain ⟨hname, hothers⟩ := List.forall_mem_cons.1 h
      obtain ⟨hinner, hrest⟩ := List.forall_mem_append.1 hothers
      have hword : Balanced name.toList := .flat (flat_of_isWordChar hname.1.2)
      have hbody : Balanced ('{' :: ((' ' :: inner.text) ++ ['}'])) :=
        .braces (hblank.append (ihInner hinner))
      have hall := hword.append (hblank.append (hbody.append (hblank.append (ihRest hrest))))
      simpa [text] using hall

/-- Nothing is read in settings by a reader that begins with another word. -/
theorem yields {α : Type} {name : String} {signs : List Char} {read : Reader α}
    {settings : Settings} (hread : BeginsWith name signs read) (hname : IsWord name.toList)
    (hsigns : ∀ sign ∈ signs, isWordChar sign = false)
    (h : ∀ other ∈ settings.names, IsWord other.toList ∧ other.toList ≠ name.toList) :
    Yields isNameBorder read settings.text [] := by
  have hneeds := hread.needsWord hname
  have hopen : Yields isNameBorder read ['{', ' '] [] :=
    hneeds.yields (by decide) rfl (by decide)
  have hclose : Yields isNameBorder read ['}', ' '] [] :=
    hneeds.yields (by decide) rfl (by decide)
  induction settings with
  | nil => exact yields_nil
  | word other rest ih =>
      obtain ⟨hother, hrest⟩ := List.forall_mem_cons.1 h
      exact hread.yields_word_append hname hsigns hother.1 hother.2 (ih hrest)
  | block other inner rest ihInner ihRest =>
      obtain ⟨hother, hothers⟩ := List.forall_mem_cons.1 h
      obtain ⟨hinner, hrest⟩ := List.forall_mem_append.1 hothers
      have htail := hopen.append ((ihInner hinner).append (hclose.append (ihRest hrest)))
      exact hread.yields_word_append hname hsigns hother.1 hother.2 htail

end Settings

/-! ## The search for an address -/

section Search

variable {word rest : List Char}

/-- A fixed word at the front of a text stands in the first word of the text. -/
theorem exists_eq_of_after_word {name : String} {unread : List Char} (hname : ' ' ∉ name.toList)
    (h : after name (word ++ ' ' :: rest) = some unread) :
    ∃ more, word = name.toList ++ more ∧ unread = more ++ ' ' :: rest := by
  rcases append_eq_append_cons_cases (eq_append_of_after h).symm with hmore | ⟨inside, hinside, -⟩
  · exact hmore
  · simp [hinside] at hname

/-- No parenthesis stands at the front of a text or after the blanks there. -/
def NoParenthesis (text : List Char) : Prop := ∀ tail, skipBlanks text ≠ '(' :: tail

theorem noParenthesis_cons {c : Char} (hblank : isBlank c = false) (hc : c ≠ '(')
    (text : List Char) : NoParenthesis (c :: text) := by
  intro tail heq
  rw [skipBlanks_cons hblank] at heq
  exact hc (List.cons.inj heq).1

theorem noParenthesis_word (hword : IsWord word) (text : List Char) :
    NoParenthesis (word ++ text) := by
  obtain ⟨c, word, rfl⟩ := List.exists_cons_of_ne_nil hword.1
  have hc := hword.2 c List.mem_cons_self
  refine noParenthesis_cons (isBlank_eq_false_of_isWordChar hc) ?_ (word ++ text)
  rintro rfl
  exact absurd hc (by decide)

theorem afterSpaced_of_noParenthesis {text : List Char} (h : NoParenthesis text) :
    afterSpaced "(" text = none :=
  afterSpaced_eq_none_of_skipBlanks fun ⟨tail, htail⟩ => h tail htail.symm

/-- A word is no address, also if it begins with `uri`. -/
theorem literal_optionalUri_word (hword : IsWord word) (hrest : NoParenthesis rest) :
    literal (optionalUri (word ++ ' ' :: rest)) = none := by
  have hnone : (after "uri" (word ++ ' ' :: rest) >>= afterSpaced "(") = none := by
    cases hafter : after "uri" (word ++ ' ' :: rest) with
    | none => rfl
    | some unread =>
        obtain ⟨more, rfl, rfl⟩ := exists_eq_of_after_word (by decide) hafter
        refine afterSpaced_of_noParenthesis ?_
        by_cases hmore : more = []
        · intro tail
          rw [hmore, List.nil_append, skipBlanks_of_isBlank (by decide)]
          exact hrest tail
        · exact noParenthesis_word ⟨hmore, fun c hc => hword.2 c (by simp [hc])⟩ _
  obtain ⟨c, word, rfl⟩ := List.exists_cons_of_ne_nil hword.1
  have hquote := isQuote_eq_false_of_isWordChar (hword.2 c List.mem_cons_self)
  rw [optionalUri, optionally, hnone, Option.getD_none, List.cons_append, literal]
  simp [hquote]

/-- A word other than `url` sets no address. -/
theorem readUrl_word (hword : IsWord word) (hne : word ≠ "url".toList)
    (hrest : NoParenthesis rest) : readUrl (word ++ ' ' :: rest) = none := by
  cases hafter : after "url" (word ++ ' ' :: rest) with
  | none =>
      rw [readUrl, hafter]
      rfl
  | some unread =>
      obtain ⟨more, rfl, rfl⟩ := exists_eq_of_after_word (by decide) hafter
      have hmore : IsWord more := by
        refine ⟨?_, fun c hc => hword.2 c (by simp [hc])⟩
        rintro rfl
        simp at hne
      have hliteral := literal_optionalUri_word hmore hrest
      obtain ⟨c, more, rfl⟩ := List.exists_cons_of_ne_nil hmore.1
      have hc := hmore.2 c List.mem_cons_self
      have hsign : ¬(c = '=' ∨ c = ':') := by
        rintro (rfl | rfl) <;> exact absurd hc (by decide)
      have hblank := isBlank_eq_false_of_isWordChar hc
      rw [readUrl, hafter]
      simp only [Option.bind_eq_bind, Option.bind_some, List.cons_append, skipBlanks_cons hblank,
        if_neg hsign]
      exact hliteral

theorem readUrl_cons {c : Char} (hc : c ≠ 'u') (text : List Char) : readUrl (c :: text) = none := by
  have hurl : ¬"url".toList <+: c :: text := fun h => hc (List.cons_prefix_cons.1 h).1.symm
  rw [readUrl, after_eq_none hurl]
  rfl

/-- The search goes on behind a character from which no address is read. -/
theorem readUrlInBlock_cons {previous : Option Char} {c : Char} {text : List Char}
    (h : isWordBorder previous = true → readUrl (c :: text) = none) (hc : c ≠ '}') :
    readUrlInBlock previous (c :: text) = readUrlInBlock (some c) text := by
  have hnone : (if isWordBorder previous then readUrl (c :: text) else none) = none := by
    split
    · next hborder => exact h hborder
    · rfl
  rw [readUrlInBlock, hnone]
  simp only [if_neg hc]

/-- The search ends at a closing brace. -/
theorem readUrlInBlock_closing (previous : Option Char) (text : List Char) :
    readUrlInBlock previous ('}' :: text) = none := by
  rw [readUrlInBlock, readUrl_cons (by decide)]
  simp

theorem readUrlInBlock_inside (hword : ∀ c ∈ word, isWordChar c = true) {d : Char}
    (hd : isWordChar d = true) :
    readUrlInBlock (some d) (word ++ ' ' :: rest) = readUrlInBlock (some ' ') rest := by
  have hinside : ∀ {d text}, isWordChar d = true → isWordBorder (some d) = true →
      readUrl text = none := by
    intro d text hd hborder
    simp [isWordBorder, hd] at hborder
  induction word generalizing d with
  | nil => exact readUrlInBlock_cons (hinside hd) (by decide)
  | cons c word ih =>
      obtain ⟨hc, hword⟩ := List.forall_mem_cons.1 hword
      rw [List.cons_append, readUrlInBlock_cons (hinside hd) (ne_brace_of_isWordChar hc).2,
        ih hword hc]

/-- The search passes over a word other than `url`. -/
theorem readUrlInBlock_word (hword : IsWord word) (hne : word ≠ "url".toList)
    (hrest : NoParenthesis rest) :
    readUrlInBlock (some ' ') (word ++ ' ' :: rest) = readUrlInBlock (some ' ') rest := by
  have hnone := readUrl_word hword hne hrest
  obtain ⟨c, word, rfl⟩ := List.exists_cons_of_ne_nil hword.1
  obtain ⟨hc, hword⟩ := List.forall_mem_cons.1 hword.2
  rw [List.cons_append] at hnone ⊢
  rw [readUrlInBlock_cons (fun _ => hnone) (ne_brace_of_isWordChar hc).2,
    readUrlInBlock_inside hword hc]

namespace Settings

variable {settings : Settings}

theorem noParenthesis (h : ∀ name ∈ settings.names, IsSettingName name)
    (hrest : NoParenthesis rest) : NoParenthesis (settings.text ++ rest) := by
  cases settings with
  | nil => exact hrest
  | word name others =>
      rw [text, List.append_assoc]
      exact noParenthesis_word (h name List.mem_cons_self).1 _
  | block name inner others =>
      rw [text, List.append_assoc]
      exact noParenthesis_word (h name List.mem_cons_self).1 _

/-- The search passes over words. -/
theorem readUrlInBlock_append (h : ∀ name ∈ settings.names, IsSettingName name)
    (hflat : settings.isFlat = true) (hrest : NoParenthesis rest) :
    readUrlInBlock (some ' ') (settings.text ++ rest) = readUrlInBlock (some ' ') rest := by
  induction settings with
  | nil => rfl
  | word name others ih =>
      obtain ⟨hname, hothers⟩ := List.forall_mem_cons.1 h
      rw [text, List.append_assoc, List.cons_append, readUrlInBlock_word hname.1
        (fun heq => hname.2.1 (String.toList_inj.1 heq)) (noParenthesis hothers hrest),
        ih hothers hflat]
  | block name inner others => simp [isFlat] at hflat

/-- The search ends in the first block. -/
theorem readUrlInBlock_eq_none (h : ∀ name ∈ settings.names, IsSettingName name)
    (hflat : settings.isFlat = false) (hrest : NoParenthesis rest) :
    readUrlInBlock (some ' ') (settings.text ++ rest) = none := by
  induction settings generalizing rest with
  | nil => simp [isFlat] at hflat
  | word name others ih =>
      obtain ⟨hname, hothers⟩ := List.forall_mem_cons.1 h
      rw [text, List.append_assoc, List.cons_append, readUrlInBlock_word hname.1
        (fun heq => hname.2.1 (String.toList_inj.1 heq)) (noParenthesis hothers hrest)]
      exact ih hothers hflat hrest
  | block name inner others ihInner =>
      obtain ⟨hname, hothers⟩ := List.forall_mem_cons.1 h
      obtain ⟨hinner, -⟩ := List.forall_mem_append.1 hothers
      have hclosing : NoParenthesis ('}' :: ' ' :: (others.text ++ rest)) :=
        noParenthesis_cons (by decide) (by decide) _
      have hbody : readUrlInBlock (some ' ')
          (inner.text ++ '}' :: ' ' :: (others.text ++ rest)) = none := by
        cases hinside : inner.isFlat with
        | true =>
            rw [readUrlInBlock_append hinner hinside hclosing]
            exact readUrlInBlock_closing _ _
        | false => exact ihInner hinner hinside hclosing
      have hshape : (block name inner others).text ++ rest = name.toList ++ ' ' ::
          ('{' :: ' ' :: (inner.text ++ '}' :: ' ' :: (others.text ++ rest))) := by
        simp [text]
      rw [hshape, readUrlInBlock_word hname.1 (fun heq => hname.2.1 (String.toList_inj.1 heq))
        (noParenthesis_cons (by decide) (by decide) _),
        readUrlInBlock_cons (fun _ => readUrl_cons (by decide) _) (by decide),
        readUrlInBlock_cons (fun _ => readUrl_cons (by decide) _) (by decide), hbody]

end Settings

end Search

/-! ## The entry of a repository -/

/-- A Maven repository with an address, and with settings before the address and after it. -/
structure MavenEntry where
  before : Settings
  address : String
  after : Settings

namespace MavenEntry

/-- An entry with an address in which a slash stands. -/
structure IsValid (entry : MavenEntry) : Prop where
  before : ∀ name ∈ entry.before.names, IsSettingName name
  after : ∀ name ∈ entry.after.names, IsSettingName name
  address : IsLiteral entry.address
  slash : '/' ∈ entry.address.toList

/-- The block of an entry up to the address. -/
def front (entry : MavenEntry) : List Char :=
  ['{', ' '] ++ (entry.before.text ++ ("url".toList ++ ' ' :: inQuotes '\'' entry.address.toList))

/-- The block of an entry from the address on. -/
def back (entry : MavenEntry) : List Char := ' ' :: (entry.after.text ++ ['}', '\n'])

/-- The line of an entry, as in `maven { url 'https://repo.example.com' }`. -/
def line (indent : Nat) (entry : MavenEntry) : List Char :=
  List.replicate indent ' ' ++ ("maven".toList ++ ' ' :: (entry.front ++ entry.back))

variable {entry : MavenEntry}

theorem getLast?_front (entry : MavenEntry) : entry.front.getLast? = some '\'' := by
  simp [front, inQuotes, List.getLast?_append, List.getLast?_cons]

theorem IsValid.balanced_line (h : entry.IsValid) (indent : Nat) :
    Balanced (entry.line indent) := by
  have hblank : Balanced [' '] := .flat (flat_of_forall (by decide))
  have hword : Balanced "maven ".toList := .flat (flat_of_forall (by decide))
  have hlineEnd : Balanced ['\n'] := .flat (flat_of_forall (by decide))
  have hurl : Balanced ("url ".toList ++ inQuotes '\'' entry.address.toList) :=
    .flat ((flat_of_forall (by decide)).append (h.address.flat .groovyCommand))
  have hinside := hblank.append ((Settings.balanced h.before).append
    (hurl.append (hblank.append (Settings.balanced h.after))))
  have hline := (Balanced.flat (flat_replicate indent)).append
    (hword.append ((Balanced.braces hinside).append hlineEnd))
  simpa [line, front, back] using hline

section Read

variable {α : Type} {signs : List Char} {read : Reader α}

theorem yields_settings (hread : BeginsWith "maven" signs read)
    (hsigns : ∀ sign ∈ signs, sign ∈ ['(', '{', '=']) {settings : Settings}
    (h : ∀ name ∈ settings.names, IsSettingName name) :
    Yields isNameBorder read settings.text [] :=
  Settings.yields hread isWord_maven (fun sign hsign => isWordChar_sign sign (hsigns sign hsign))
    fun name hname => ⟨(h name hname).1, fun heq => (h name hname).2.2 (String.toList_inj.1 heq)⟩

theorem yields_back (hread : BeginsWith "maven" signs read)
    (hsigns : ∀ sign ∈ signs, sign ∈ ['(', '{', '=']) (h : entry.IsValid) :
    Yields isNameBorder read entry.back [] := by
  have hneeds := hread.needsWord isWord_maven
  have hblank : Yields isNameBorder read [' '] [] := hneeds.yields (by decide) rfl (by decide)
  have hclose : Yields isNameBorder read ['}', '\n'] [] :=
    hneeds.yields (by decide) rfl (by decide)
  exact hblank.append ((yields_settings hread hsigns h.after).append hclose)

theorem yields_front (hread : BeginsWith "maven" signs read)
    (hsigns : ∀ sign ∈ signs, sign ∈ ['(', '{', '=']) (h : entry.IsValid) :
    Yields isNameBorder read entry.front [] := by
  have hneeds := hread.needsWord isWord_maven
  have hopen : Yields isNameBorder read ['{', ' '] [] :=
    hneeds.yields (by decide) rfl (by decide)
  have hquote : Yields isNameBorder read ['\''] [] := hneeds.yields (by decide) rfl (by decide)
  have hcontent : Yields isNameBorder read (entry.address.toList ++ ['\'']) [] :=
    yields_content_of_silent (h.address.silent_content hread isWord_maven hsigns) (by decide)
  have hurl : Yields isNameBorder read
      ("url".toList ++ ' ' :: inQuotes '\'' entry.address.toList) [] :=
    hread.yields_word_append isWord_maven
      (fun sign hsign => isWordChar_sign sign (hsigns sign hsign)) (by decide) (by decide)
      (hquote.append hcontent)
  exact hopen.append ((yields_settings hread hsigns h.before).append hurl)

/-- Nothing is read of an entry if nothing is read from its first word. -/
theorem yields_nil_line (indent : Nat) (hread : BeginsWith "maven" signs read)
    (hsigns : ∀ sign ∈ signs, sign ∈ ['(', '{', '=']) (h : entry.IsValid)
    (hnone : ∀ rest, read ("maven".toList ++ ' ' :: (entry.front ++ rest)) = none) :
    Yields isNameBorder read (entry.line indent) [] := by
  have hinside := (yields_front hread hsigns h).append (yields_back hread hsigns h)
  refine (yields_indentation (hread.needsWord isWord_maven) (by decide) indent).append
    (yields_word_append isWord_maven (by decide) hinside fun rest => ?_)
  rw [List.append_assoc]
  exact hnone (entry.back ++ rest)

end Read

/-! ## What is read of an entry -/

/-- An entry is no call with an address. -/
theorem IsValid.yields_readMavenCall (h : entry.IsValid) (indent : Nat) :
    Yields isNameBorder readMavenCall (entry.line indent) [] := by
  refine yields_nil_line indent beginsWith_readMavenCall (by simp) h fun rest => ?_
  have hbrace : NoParenthesis (' ' :: (entry.front ++ rest)) := by
    intro tail
    rw [skipBlanks_of_isBlank (by decide)]
    exact noParenthesis_cons (by decide) (by decide) _ tail
  rw [readMavenCall, after_append]
  simp only [Option.bind_eq_bind, Option.bind_some, afterSpaced_of_noParenthesis hbrace,
    Option.bind_none]

/-- The address of an entry is looked for behind the brace. -/
theorem readMavenBlock_front (entry : MavenEntry) (rest : List Char) :
    readMavenBlock ("maven".toList ++ ' ' :: (entry.front ++ rest)) =
      readUrlInBlock (some ' ') (entry.before.text ++
        ("url".toList ++ ' ' :: (inQuotes '\'' entry.address.toList ++ rest))) := by
  have hshape : ' ' :: (entry.front ++ rest) = ' ' :: '{' :: (' ' :: (entry.before.text ++
      ("url".toList ++ ' ' :: (inQuotes '\'' entry.address.toList ++ rest)))) := by
    simp only [front, List.append_assoc, List.cons_append, List.nil_append]
  rw [hshape, readMavenBlock, after_append]
  simp only [Option.bind_eq_bind, Option.bind_some, next_brace]
  exact readUrlInBlock_cons (fun _ => readUrl_cons (by decide) _) (by decide)

/-- The address of an entry is read if only words stand before it. -/
theorem readMavenBlock_of_isFlat (h : entry.IsValid) (hflat : entry.before.isFlat = true)
    (rest : List Char) :
    readMavenBlock ("maven".toList ++ ' ' :: (entry.front ++ rest)) =
      some (entry.address.toList, rest) := by
  have hurl : "url".toList = 'u' :: "rl".toList := by decide
  have hread := readUrl_append h.address rest
  rw [readMavenBlock_front, Settings.readUrlInBlock_append h.before hflat
    (noParenthesis_word (by decide) _)]
  rw [hurl, List.cons_append] at hread ⊢
  rw [readUrlInBlock, if_pos (by decide), hread]

theorem readMavenBlock_of_isFlat_eq_false (h : entry.IsValid)
    (hflat : entry.before.isFlat = false) (rest : List Char) :
    readMavenBlock ("maven".toList ++ ' ' :: (entry.front ++ rest)) = none := by
  rw [readMavenBlock_front]
  exact Settings.readUrlInBlock_eq_none h.before hflat (noParenthesis_word (by decide) _)

/-- The block of an entry gives its address, unless a block stands before the address. -/
theorem IsValid.yields_readMavenBlock (h : entry.IsValid) (indent : Nat) :
    Yields isNameBorder readMavenBlock (entry.line indent)
      (if entry.before.isFlat then [entry.address.toList] else []) := by
  have hsigns : ∀ sign ∈ ['{'], sign ∈ ['(', '{', '='] := by decide
  cases hflat : entry.before.isFlat with
  | false =>
      exact yields_nil_line indent beginsWith_readMavenBlock hsigns h
        (readMavenBlock_of_isFlat_eq_false h hflat)
  | true =>
      have hstatement : Yields isNameBorder readMavenBlock ("maven".toList ++ ' ' :: entry.front)
          [entry.address.toList] := by
        refine yields_singleton (fun rest => ?_) (by simp) fun c hc => ?_
        · rw [List.append_assoc, List.cons_append]
          exact readMavenBlock_of_isFlat h hflat rest
        · obtain rfl : '\'' = c := by
            simpa [List.getLast?_cons, List.getLast?_append, getLast?_front] using hc
          decide
      have hline := (yields_indentation
        (beginsWith_readMavenBlock.needsWord isWord_maven) (by decide) indent).append
          (hstatement.append (yields_back beginsWith_readMavenBlock hsigns h))
      simpa [line] using hline

end MavenEntry

/-! ## All entries -/

/-- The body of a block of repositories, with one line for each entry. -/
def mavenLines (indent : Nat) (entries : List MavenEntry) : List Char :=
  '\n' :: entries.flatMap (MavenEntry.line indent)

theorem balanced_mavenLines (indent : Nat) {entries : List MavenEntry}
    (h : ∀ entry ∈ entries, entry.IsValid) : Balanced (mavenLines indent entries) :=
  have hlineEnd : Flat ['\n'] := flat_of_forall (by decide)
  (Balanced.flat hlineEnd).append
    (balanced_flatMap fun entry hentry => (h entry hentry).balanced_line indent)

/-- The addresses of the entries in which only words stand before the address. -/
def shownAddresses (entries : List MavenEntry) : List String :=
  (entries.filter fun entry => entry.before.isFlat).map MavenEntry.address

theorem findValues_readMavenBlock (indent : Nat) {entries : List MavenEntry}
    (h : ∀ entry ∈ entries, entry.IsValid) :
    findValues isNameBorder readMavenBlock (mavenLines indent entries) =
      (shownAddresses entries).map String.toList := by
  have hlines := yields_lines (beginsWith_readMavenBlock.needsWord isWord_maven)
    isNameBorder_lineEnd fun entry hentry => (h entry hentry).yields_readMavenBlock indent
  refine (hlines.findValues_eq rfl).trans ?_
  clear h hlines
  induction entries with
  | nil => rfl
  | cons entry entries ih =>
      rw [List.flatMap_cons, ih, shownAddresses, shownAddresses, List.filter_cons]
      split <;> simp

theorem findValues_readMavenCall (indent : Nat) {entries : List MavenEntry}
    (h : ∀ entry ∈ entries, entry.IsValid) :
    findValues isNameBorder readMavenCall (mavenLines indent entries) = [] := by
  have hlines := yields_lines (beginsWith_readMavenCall.needsWord isWord_maven)
    isNameBorder_lineEnd fun entry hentry => (h entry hentry).yields_readMavenCall indent
  exact (hlines.findValues_eq rfl).trans (List.flatMap_eq_nil_iff.2 fun _ _ => rfl)

/-- Known names that are listed first do not change which other names are listed. -/
theorem filter_withoutRepeats_append {known named others : List String}
    (hnamed : ∀ name ∈ named, name ∈ known) (hothers : ∀ name ∈ others, name ∉ known) :
    (withoutRepeats (named ++ others)).filter (· ∉ known) = withoutRepeats others := by
  have hremove : others.removeAll named = others := by
    refine List.filter_eq_self.2 fun name hname => ?_
    have hnot : name ∉ named := fun hmem => hothers name hname (hnamed name hmem)
    simpa using hnot
  have hfirst : named.eraseDups.filter (· ∉ known) = [] :=
    List.filter_eq_nil_iff.2 fun name hname => by
      simpa using hnamed name (List.mem_eraseDups.1 hname)
  have hlast : others.eraseDups.filter (· ∉ known) = others.eraseDups :=
    List.filter_eq_self.2 fun name hname => by
      simpa using hothers name (List.mem_eraseDups.1 hname)
  rw [withoutRepeats, List.eraseDups_append, hremove, List.filter_append, hfirst, hlast,
    List.nil_append, withoutRepeats]

/-- Of the Maven repositories in a block, those are reported in whose entries no block stands before
the address: by their addresses, in the order of the script and each address once. -/
theorem addresses_after_words (indent : Nat) {entries : List MavenEntry}
    (h : ∀ entry ∈ entries, entry.IsValid) :
    blockBody "repositories" (blockText "repositories" (mavenLines indent entries)) =
      some (mavenLines indent entries) ∧
    ∀ script, blockBody "repositories" script = some (mavenLines indent entries) →
      (repositories script).filter (· ∉ wellKnownRepositories) =
        withoutRepeats (shownAddresses entries) := by
  refine ⟨blockBody_blockText (by decide) (balanced_mavenLines indent h), fun script hbody => ?_⟩
  have hothers : ∀ address ∈ shownAddresses entries, address ∉ wellKnownRepositories := by
    intro address haddress hknown
    obtain ⟨entry, hentry, rfl⟩ := List.mem_map.1 haddress
    have hslash := (h entry (List.mem_of_mem_filter hentry)).slash
    have hnone : ∀ name ∈ wellKnownRepositories, '/' ∉ name.toList := by decide
    exact hnone _ hknown hslash
  rw [repositories, hbody]
  simp only [findValues_readMavenBlock indent h, findValues_readMavenCall indent h,
    List.append_nil, List.map_map, Function.comp_def, String.ofList_toList, List.map_id']
  exact filter_withoutRepeats_append (fun name hname => List.mem_of_mem_filter hname) hothers

/-- A repository with a block before its address, and two with blocks after it.  One of the blocks
has the name of the block around all of them, and one the name of a known repository. -/
def mixedEntries : List MavenEntry :=
  [⟨.block "credentials" (.word "username" .nil) .nil, "https://a.b/hidden", .nil⟩,
    ⟨.word "urls" .nil, "https://a.b/maven",
      .block "repositories" (.block "content" .nil .nil) .nil⟩,
    ⟨.nil, "https://a.b/maven", .block "google" (.word "maven2" .nil) (.word "last" .nil)⟩]

theorem addresses_after_words_mixed :
    (∀ entry ∈ mixedEntries, entry.IsValid) ∧
    blockBody "repositories" (blockText "repositories" (mavenLines 4 mixedEntries)) =
      some (mavenLines 4 mixedEntries) ∧
    (repositories (blockText "repositories" (mavenLines 4 mixedEntries))).filter
      (· ∉ wellKnownRepositories) = ["https://a.b/maven"] := by
  have hvalid : ∀ entry ∈ mixedEntries, entry.IsValid := by
    have hall : ∀ entry ∈ mixedEntries,
        (∀ name ∈ entry.before.names, IsSettingName name) ∧
        (∀ name ∈ entry.after.names, IsSettingName name) ∧
        IsLiteral entry.address ∧ '/' ∈ entry.address.toList := by decide +kernel
    intro entry hentry
    obtain ⟨hbefore, hafter, haddress, hslash⟩ := hall entry hentry
    exact ⟨hbefore, hafter, haddress, hslash⟩
  obtain ⟨hbody, hreported⟩ := addresses_after_words 4 hvalid
  refine ⟨hvalid, hbody, (hreported _ hbody).trans ?_⟩
  decide +kernel

/-- An entry with a block before the address. -/
def entryWithCredentials : MavenEntry :=
  ⟨.block "credentials" (.word "username" .nil) .nil, "https://a.b/c", .nil⟩

/-- An address after a block is not reported. -/
theorem address_after_block_missed :
    String.ofList (blockText "repositories" (mavenLines 4 [entryWithCredentials])) =
      "repositories \x7b\n    maven \x7b credentials \x7b username \x7d " ++
        "url 'https://a.b/c' \x7d\n\x7d\n" ∧
    entryWithCredentials.IsValid ∧
    entryWithCredentials.address ∉
      repositories (blockText "repositories" (mavenLines 4 [entryWithCredentials])) := by
  refine ⟨by decide +kernel, ⟨?_, ?_, ?_, ?_⟩, ?_⟩ <;> decide +kernel

end GradleWorkspace.BuildFile
