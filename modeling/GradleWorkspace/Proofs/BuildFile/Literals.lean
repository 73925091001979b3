import GradleWorkspace.SettingsFile
import GradleWorkspace.Proofs.BuildFile.Declaration
import GradleWorkspace.Proofs.OrderedMap
import GradleWorkspace.Proofs.Script.Plain

/-!
# Values are whole strings

The readers take a literal from one quote to the next, of whatever kind the two are, and know
nothing of where strings begin.  This file says when their values are whole strings of the script
nevertheless.

* `Introduced` is a literal after the front of a statement.  `Introduces` says of a reader that its
  values are such literals; there is one lemma for each reader.
* `IsString` is the content of a string of a script, and `Introduces.isString` says that the values
  of such a reader are of this kind in a text that is made from plain strings.
* `ClearStrings` are the conditions on the strings of a script, and `values_are_strings` the result
  for all values of build and settings files.
* `value_in_part` shows that a value can be a part of a string.
-/

namespace GradleWorkspace

open Script Text

namespace BuildFile

variable {dialect : Dialect}

/-! ## Fronts of literals -/

/-- A text begins with the end of the front of a statement, and after it stands a literal. -/
def Introduced (dialect : Dialect) (front text content rest : List Char) : Prop :=
  ∃ entry opening closing, isQuote opening = true ∧ isQuote closing = true ∧ IsContent content ∧
    opens dialect (front ++ entry) = true ∧
    text = entry ++ opening :: (content ++ closing :: rest)

theorem introduced_of_literal {front text content rest : List Char}
    (hfront : opens dialect front = true) (h : literal text = some (content, rest)) :
    Introduced dialect front text content rest := by
  obtain ⟨hcontent, opening, closing, hopening, hclosing, rfl⟩ := of_literal h
  exact ⟨[], opening, closing, hopening, hclosing, hcontent, by rwa [List.append_nil], rfl⟩

theorem Introduced.append {front entry text content rest : List Char}
    (h : Introduced dialect (front ++ entry) text content rest) :
    Introduced dialect front (entry ++ text) content rest := by
  obtain ⟨more, opening, closing, hopening, hclosing, hcontent, hopens, rfl⟩ := h
  refine ⟨entry ++ more, opening, closing, hopening, hclosing, hcontent, ?_, by simp⟩
  rwa [← List.append_assoc]

/-- After a text of this kind, with a word before it, a literal stands as in a statement. -/
def IsFront (dialect : Dialect) (entry : List Char) : Prop :=
  ∀ front, endsInWord front = true → opens dialect (front ++ entry) = true

section Pieces

variable {text rest : List Char}

/-- The signs that a value or an argument stands behind. -/
theorem exists_front_of_afterSpaced {sign : String} (hsign : sign ∈ ["(", "=", ":"])
    (h : afterSpaced sign text = some rest) :
    ∃ entry, text = entry ++ rest ∧ IsFront dialect entry := by
  obtain ⟨before, after, hbefore, hafter, rfl⟩ := eq_append_of_afterSpaced h
  refine ⟨before ++ (sign.toList ++ after), by simp, fun front hfront => ?_⟩
  simp only [List.mem_cons, List.not_mem_nil, or_false] at hsign
  rcases hsign with rfl | rfl | rfl <;>
    exact opens_of_sign dialect (by decide) hfront hbefore hafter

theorem exists_front_of_call {α : Type} {name : String} {argument : Reader α} {value : α}
    (h : call name argument text = some (value, rest)) :
    ∃ entry inside tail, text = name.toList ++ (entry ++ inside) ∧ IsFront dialect entry ∧
      argument inside = some (value, tail) := by
  obtain ⟨unread, inside, tail, rfl, hopen, hargument⟩ := exists_argument_of_call h
  obtain ⟨entry, rfl, hentry⟩ := exists_front_of_afterSpaced (by simp) hopen
  exact ⟨entry, inside, tail, rfl, hentry, hargument⟩

/-- The name of an argument and a sign, which may be missing, leave the front of a statement a
front. -/
theorem exists_entry_of_optionally {word sign : String} (hword : endsInWord word.toList = true)
    (hsign : sign ∈ ["(", "=", ":"]) (text : List Char) :
    ∃ entry rest, optionally (fun text => after word text >>= afterSpaced sign) text = rest ∧
      text = entry ++ rest ∧
      ∀ front, opens dialect front = true → opens dialect (front ++ entry) = true := by
  unfold optionally
  dsimp only
  cases hpiece : after word text >>= afterSpaced sign with
  | none => exact ⟨[], text, rfl, rfl, fun front hfront => by rwa [List.append_nil]⟩
  | some rest =>
      obtain ⟨unread, hafter, hspaced⟩ := Option.bind_eq_some_iff.1 hpiece
      obtain ⟨entry, rfl, hentry⟩ := exists_front_of_afterSpaced hsign hspaced
      refine ⟨word.toList ++ entry, rest, rfl, ?_, fun front _ => ?_⟩
      · rw [eq_append_of_after hafter, List.append_assoc]
      · rw [← List.append_assoc]
        exact hentry _ (endsInWord_append hword front)

/-- Before a literal, the name of an argument and a sign may stand too. -/
theorem introduced_of_optionally {front content : List Char} {word sign : String}
    (hword : endsInWord word.toList = true) (hsign : sign ∈ ["(", "=", ":"])
    (hfront : opens dialect front = true)
    (h : ∀ front', opens dialect front' = true → Introduced dialect front'
      (optionally (fun text => after word text >>= afterSpaced sign) text) content rest) :
    Introduced dialect front text content rest := by
  obtain ⟨entry, inside, hinside, rfl, hentry⟩ :=
    @exists_entry_of_optionally dialect word sign hword hsign text
  rw [hinside] at h
  exact (h _ (hentry front hfront)).append

theorem exists_eq_append_of_afterBlanks (h : afterBlanks text = some rest) :
    ∃ blanks, text = blanks ++ rest := by
  cases text with
  | nil => simp [afterBlanks] at h
  | cons c text =>
      rw [afterBlanks] at h
      split at h
      · obtain rfl := Option.some.inj h
        obtain ⟨blanks, -, htext⟩ := eq_blanks_append_skipBlanks text
        exact ⟨c :: blanks, congrArg (c :: ·) htext⟩
      · simp at h

theorem opens_of_isOpening {word : String} (hword : word ∈ commandWords dialect)
    {front opening : List Char} (hfront : isWordBorder front.getLast? = true)
    (hopening : IsOpening opening) :
    opens dialect (front ++ (word.toList ++ opening)) = true := by
  have hisWord : IsWord word.toList := by
    have hall : ∀ word ∈ commandWords dialect, IsWord word.toList := by
      cases dialect <;> decide
    exact hall word hword
  exact opens_of_wordBefore dialect hword (wordBefore_eq hisWord hfront hopening)

end Pieces

/-! ## Readers of literals -/

/-- The values of a reader stand after the front of a statement. -/
def Introduces (dialect : Dialect) (starts : Option Char → Bool) (read : Reader (List Char)) :
    Prop :=
  ∀ front text content rest, starts front.getLast? = true → read text = some (content, rest) →
    ∃ rest', Introduced dialect front text content rest'

theorem introduces_call {starts : Option Char → Bool} {name : String}
    (hname : endsInWord name.toList = true) :
    Introduces dialect starts (call name literal) := by
  intro front text content rest _ h
  obtain ⟨entry, inside, tail, rfl, hentry, hliteral⟩ := exists_front_of_call h
  have hword := endsInWord_append hname front
  exact ⟨tail, (introduced_of_literal (hentry _ hword) hliteral).append.append⟩

theorem introduces_readPluginCommand :
    Introduces .groovy isNameBorder readPluginCommand := by
  intro front text content rest hborder h
  obtain ⟨unread, hafter, hliteral⟩ := Option.bind_eq_some_iff.1 h
  obtain ⟨opening, hopening, hunread⟩ := eq_append_optionalOpening unread
  rw [eq_append_of_after hafter, hunread, ← List.append_assoc]
  exact ⟨rest, (introduced_of_literal (opens_of_isOpening (by decide)
    (isWordBorder_of_isNameBorder hborder) hopening) hliteral).append⟩

theorem introduces_readPluginApplication {starts : Option Char → Bool} :
    Introduces dialect starts readPluginApplication := by
  intro front text content rest _ h
  obtain ⟨text₁, happly, h⟩ := Option.bind_eq_some_iff.1 h
  obtain ⟨text₂, hblanks, h⟩ := Option.bind_eq_some_iff.1 h
  obtain ⟨text₃, hplugin, h⟩ := Option.bind_eq_some_iff.1 h
  obtain ⟨text₄, hsign, hliteral⟩ := Option.bind_eq_some_iff.1 h
  obtain ⟨entry, rfl, hentry⟩ := exists_front_of_afterSpaced (by simp) hsign
  obtain ⟨blanks, rfl⟩ := exists_eq_append_of_afterBlanks hblanks
  rw [eq_append_of_after happly, eq_append_of_after hplugin, ← List.append_assoc]
  have hword := endsInWord_append (by decide : endsInWord "plugin".toList = true)
    (front ++ ("apply".toList ++ blanks))
  exact ⟨rest, (introduced_of_literal (hentry _ hword) hliteral).append.append.append⟩

theorem introduces_readAssignment {starts : Option Char → Bool} {name : String}
    (hword : endsInWord name.toList = true) :
    Introduces dialect starts (readAssignment name literal) := by
  intro front text content rest _ h
  obtain ⟨unread, hname, h⟩ := Option.bind_eq_some_iff.1 h
  obtain ⟨argument, hsign, hliteral⟩ := Option.bind_eq_some_iff.1 h
  obtain ⟨entry, rfl, hentry⟩ := exists_front_of_afterSpaced (by simp) hsign
  rw [eq_append_of_after hname]
  have hfront := hentry _ (endsInWord_append hword front)
  exact ⟨rest, (introduced_of_literal hfront hliteral).append.append⟩

theorem introduces_readRootName {starts : Option Char → Bool} :
    Introduces dialect starts SettingsFile.readRootName :=
  introduces_readAssignment (by decide : endsInWord "rootProject.name".toList = true)

section Addresses

theorem introduced_of_optionalUri {front text content rest : List Char}
    (hfront : opens dialect front = true) (h : literal (optionalUri text) = some (content, rest)) :
    Introduced dialect front text content rest :=
  introduced_of_optionally (by decide) (by simp) hfront
    fun _ hfront' => introduced_of_literal hfront' h

theorem introduces_readUrl : Introduces dialect isWordBorder readUrl := by
  intro front text content rest hborder h
  obtain ⟨unread, hafter, h⟩ := Option.bind_eq_some_iff.1 h
  obtain ⟨blanks, hblanks, hunread⟩ := eq_blanks_append_skipBlanks unread
  have hurl : "url" ∈ commandWords dialect := by cases dialect <;> decide
  have hword : opens dialect (front ++ ("url".toList ++ blanks)) = true :=
    opens_of_isOpening hurl hborder (.blanks blanks hblanks)
  have hends := endsInWord_append (by decide : endsInWord "url".toList = true) front
  rw [eq_append_of_after hafter, hunread]
  refine ⟨rest, Introduced.append (Introduced.append ?_)⟩
  cases hskip : skipBlanks unread with
  | nil => simp [hskip, optionalUri, optionally, after, literal] at h
  | cons c tail =>
      rw [hskip] at h
      dsimp only at h
      split at h
      · next hsign =>
        obtain ⟨blanks', hblanks', htail⟩ := eq_blanks_append_skipBlanks tail
        rw [htail, ← List.cons_append]
        refine Introduced.append (introduced_of_optionalUri ?_ h)
        rw [List.append_assoc]
        exact opens_of_sign dialect (by rcases hsign with rfl | rfl <;> decide) hends hblanks
          hblanks'
      · rw [List.append_assoc]
        exact introduced_of_optionalUri hword h

theorem exists_readUrl_of_readUrlInBlock {previous : Option Char} {text value rest : List Char}
    (h : readUrlInBlock previous text = some (value, rest)) :
    ∃ front place, text = front ++ place ∧ isWordBorder (front.getLast?.or previous) = true ∧
      readUrl place = some (value, rest) := by
  induction text generalizing previous with
  | nil => simp [readUrlInBlock] at h
  | cons c text ih =>
      rw [readUrlInBlock] at h
      split at h
      · next found hfound =>
        split at hfound
        · next hborder =>
          obtain rfl := Option.some.inj h
          exact ⟨[], c :: text, rfl, hborder, hfound⟩
        · simp at hfound
      · split at h
        · simp at h
        · obtain ⟨front, place, rfl, hborder, hread⟩ := ih h
          refine ⟨c :: front, place, rfl, ?_, hread⟩
          cases hlast : front.getLast? <;> simp_all [List.getLast?_cons]

theorem introduces_readMavenBlock {starts : Option Char → Bool} :
    Introduces dialect starts readMavenBlock := by
  intro front text content rest _ h
  obtain ⟨unread, hafter, h⟩ := Option.bind_eq_some_iff.1 h
  obtain ⟨body, hnext, h⟩ := Option.bind_eq_some_iff.1 h
  obtain ⟨inner, place, rfl, hborder, hread⟩ := exists_readUrl_of_readUrlInBlock h
  obtain ⟨blanks, -, hunread⟩ := eq_blanks_append_skipBlanks unread
  have htext : text = "maven".toList ++ blanks ++ ['{'] ++ inner ++ place := by
    rw [eq_append_of_after hafter, hunread, eq_append_of_after hnext]
    simp
  have hinner : isWordBorder
      (front ++ ("maven".toList ++ blanks ++ ['{'] ++ inner)).getLast? = true := by
    rwa [← List.append_assoc, List.getLast?_append, ← List.append_assoc, List.getLast?_concat]
  obtain ⟨rest', hread⟩ := introduces_readUrl _ place content rest hinner hread
  rw [htext]
  exact ⟨rest', hread.append⟩

theorem introduces_readMavenCall {starts : Option Char → Bool} :
    Introduces dialect starts readMavenCall := by
  intro front text content rest _ h
  obtain ⟨unread, hafter, h⟩ := Option.bind_eq_some_iff.1 h
  obtain ⟨argument, hopen, hargument⟩ := Option.bind_eq_some_iff.1 h
  obtain ⟨entry, rfl, hentry⟩ := exists_front_of_afterSpaced (by simp) hopen
  have hequals : "=" ∈ ["(", "=", ":"] := by decide
  rw [eq_append_of_after hafter]
  have hfront := hentry _ (endsInWord_append (by decide : endsInWord "maven".toList = true) front)
  exact ⟨rest, (introduced_of_optionally (by decide) hequals hfront
    fun _ hfront' => introduced_of_optionalUri hfront' hargument).append.append⟩

end Addresses

/-! ## References to modules -/

theorem introduced_of_readProjectArguments {front text path rest : List Char}
    (hfront : endsInWord front = true) (h : readProjectArguments dialect text = some (path, rest)) :
    ∃ rest', Introduced dialect front text path rest' := by
  obtain ⟨entry, inside, tail, rfl, hentry, hargument⟩ := exists_front_of_call h
  have hsign : ∀ dialect, argumentSign dialect ∈ ["(", "=", ":"] := by
    rintro (_ | _) <;> decide
  exact ⟨tail, (introduced_of_optionally (by decide) (hsign dialect) (hentry front hfront)
    fun _ hfront' => introduced_of_literal hfront' hargument).append⟩

theorem introduced_of_readProjectCall {front text path rest : List Char}
    (h : readProjectCall dialect text = some (path, rest)) :
    ∃ rest', Introduced dialect front text path rest' := by
  obtain ⟨inside, hname, harguments⟩ := Option.bind_eq_some_iff.1 h
  obtain ⟨rest', hintroduced⟩ := introduced_of_readProjectArguments
    (endsInWord_append (by decide : endsInWord "project".toList = true) front) harguments
  rw [eq_append_of_after hname]
  exact ⟨rest', hintroduced.append⟩

/-- The project may be called behind the configuration, or the configuration itself ends in
`project`. -/
theorem introduced_of_readProjectCommand {front text configuration path rest : List Char}
    (h : readProjectCommand text = some ((configuration, path), rest)) :
    ∃ rest', Introduced .groovy front text path rest' := by
  obtain ⟨⟨word, unread⟩, hrun, h⟩ := Option.bind_eq_some_iff.1 h
  rw [(eq_append_of_run hrun).1]
  dsimp only at h
  split at h
  · next found tail hcall =>
    obtain ⟨⟨rfl, rfl⟩, rfl⟩ := by simpa using h
    obtain ⟨opening, -, hunread⟩ := eq_append_optionalOpening unread
    obtain ⟨rest', hintroduced⟩ := introduced_of_readProjectCall hcall
    rw [hunread]
    exact ⟨rest', hintroduced.append.append⟩
  · obtain ⟨shorter, -, h⟩ := Option.bind_eq_some_iff.1 h
    obtain ⟨⟨found, tail⟩, harguments, h⟩ := Option.bind_eq_some_iff.1 h
    obtain ⟨⟨rfl, rfl⟩, rfl⟩ := by simpa using h
    obtain ⟨rest', hintroduced⟩ := introduced_of_readProjectArguments
      (endsInWord_append (endsInWord_of_isWord (isWord_of_run hrun)) front) harguments
    exact ⟨rest', hintroduced.append⟩

/-- The path of a module stands after a parenthesis or the name of the argument. -/
theorem introduced_of_readProject {front text rest : List Char} {dependency : Dependency}
    (h : readProject dialect text = some (dependency, rest)) :
    ∃ rest', Introduced dialect front text dependency.literal.toList rest' := by
  cases dialect with
  | groovy =>
      obtain ⟨⟨⟨configuration, path⟩, tail⟩, hcommand, h⟩ := Option.bind_eq_some_iff.1 h
      obtain ⟨rfl, rfl⟩ := by simpa using h
      rw [Dependency.literal, String.toList_ofList]
      exact introduced_of_readProjectCommand hcommand
  | kotlin =>
      obtain ⟨⟨word, unread⟩, hrun, h⟩ := Option.bind_eq_some_iff.1 h
      obtain ⟨⟨path, tail⟩, hcall, h⟩ := Option.bind_eq_some_iff.1 h
      obtain ⟨rfl, rfl⟩ := by simpa using h
      obtain ⟨opening, inside, tail', -, hunread, hargument⟩ := of_call hcall
      obtain ⟨rest', hintroduced⟩ := introduced_of_readProjectCall hargument
      rw [Dependency.literal, String.toList_ofList, (eq_append_of_run hrun).1, hunread]
      exact ⟨rest', hintroduced.append.append.append⟩

/-! ## Strings of a script -/

/-- A content between two equal quotes that is a string of a script. -/
def IsString (found : List Token) (content : List Char) : Prop :=
  ∃ quote, .string [quote] content [quote] ∈ found

section Strings

variable {found : List Token} {text : List Char}

theorem forall_mem_opens {pieces : List Token} (hends : ∀ p ∈ found, p.opens dialect = false)
    (hfound : ∀ p ∈ pieces, p.isString = true → p ∈ found) :
    ∀ p ∈ pieces, p.opens dialect = false := by
  intro p hp
  cases p with
  | string opening body closing => exact hends _ (hfound _ hp rfl)
  | _ => rfl

/-- In a text that is made from plain strings, a literal after the front of a statement is one of
them. -/
theorem Introduced.isString {front place content rest : List Char}
    (h : Introduced dialect front place content rest) (hmade : MadeFrom found (front ++ place))
    (hends : ∀ p ∈ found, p.opens dialect = false) : IsString found content := by
  obtain ⟨entry, opening, closing, hopening, hclosing, hcontent, hopens, rfl⟩ := h
  obtain ⟨pieces, htext, hplain, hfound⟩ := hmade
  rw [← List.append_assoc] at htext
  obtain ⟨quote, before, behind, rfl, -⟩ := exists_string_of_opens dialect hplain
    (forall_mem_opens hends hfound) hopening hclosing hcontent hopens htext.symm
  exact ⟨quote, hfound _ (by simp) rfl⟩

theorem Introduces.isString {starts : Option Char → Bool} {read : Reader (List Char)}
    (h : Introduces dialect starts read) (hmade : MadeFrom found text)
    (hends : ∀ p ∈ found, p.opens dialect = false) :
    ∀ value ∈ findValues starts read text, IsString found value := by
  intro value hvalue
  obtain ⟨front, place, rest, rfl, hborder, hread⟩ := exists_read_of_mem_findValues hvalue
  obtain ⟨rest', hintroduced⟩ := h front place value rest hborder hread
  exact hintroduced.isString hmade hends

end Strings

/-! ## Projects that a settings file includes -/

section Includes

open SettingsFile

/-- The literals after the first one stand behind commas, and so none begins where a string ends. -/
theorem isString_of_mem_readMoreLiterals {pieces : List Token} (hplain : ∀ p ∈ pieces, p.IsPlain) :
    ∀ item ∈ (readMoreLiterals (pieces.flatMap Token.text)).1, IsString pieces item := by
  induction hlength : (pieces.flatMap Token.text).length using Nat.strong_induction_on
    generalizing pieces with
  | _ length ih =>
      rw [readMoreLiterals]
      split
      · simp
      · next argument hcomma =>
        split
        · simp
        · next item rest hliteral =>
          obtain ⟨blanks, blanks', hblanks, hblanks', htext⟩ := eq_append_of_afterSpaced hcomma
          obtain ⟨hcontent, opening, closing, hopening, hclosing, rfl⟩ := of_literal hliteral
          have hbefore : ∀ c ∈ blanks ++ (",".toList ++ blanks'), isQuote c = false := by
            refine List.forall_mem_append.2 ⟨fun c hc => isQuote_eq_false_of_isBlank (hblanks c hc),
              List.forall_mem_append.2 ⟨by decide, fun c hc => ?_⟩⟩
            exact isQuote_eq_false_of_isBlank (hblanks' c hc)
          have hsplit : pieces.flatMap Token.text =
              (blanks ++ (",".toList ++ blanks')) ++ opening :: (item ++ closing :: rest) := by
            rw [htext]
            simp
          cases literalPlace hplain hopening hclosing hcontent
              (fun c hc => hbefore c (List.mem_of_getLast? hc)) hsplit with
          | whole quote front behind hpieces hrest =>
              have hshorter : (behind.flatMap Token.text).length < length := by
                have hsum := congrArg List.length hsplit
                simp only [List.length_append, List.length_cons, hlength, hrest] at hsum
                omega
              have hmore := ih _ hshorter
                (fun p hp => hplain p (by rw [hpieces]; simp [hp])) rfl
              refine List.forall_mem_cons.2 ⟨⟨quote, by simp [hpieces]⟩, fun other hother => ?_⟩
              rw [hrest] at hother
              obtain ⟨quote', hmem⟩ := hmore other hother
              exact ⟨quote', by simp [hpieces, hmem]⟩
          | behind quote body front behind hquote hpieces hfront hrest =>
              have hnone := hbefore quote (by rw [hfront]; simp)
              simp [hquote] at hnone

theorem isString_of_readLiterals {pieces : List Token} (hplain : ∀ p ∈ pieces, p.IsPlain)
    (hends : ∀ p ∈ pieces, p.opens dialect = false) {before text rest : List Char}
    {items : List (List Char)} (hbefore : opens dialect before = true)
    (htext : pieces.flatMap Token.text = before ++ text)
    (h : readLiterals text = some (items, rest)) : ∀ item ∈ items, IsString pieces item := by
  obtain ⟨⟨item, unread⟩, hliteral, h⟩ := Option.bind_eq_some_iff.1 h
  obtain ⟨rfl, rfl⟩ := by simpa using h
  obtain ⟨hcontent, opening, closing, hopening, hclosing, rfl⟩ := of_literal hliteral
  obtain ⟨quote, front, behind, rfl, rfl⟩ :=
    exists_string_of_opens dialect hplain hends hopening hclosing hcontent hbefore htext
  refine List.forall_mem_cons.2 ⟨⟨quote, by simp⟩, fun other hother => ?_⟩
  obtain ⟨quote', hmem⟩ := isString_of_mem_readMoreLiterals
    (fun p hp => hplain p (by simp [hp])) other hother
  exact ⟨quote', by simp [hmem]⟩

theorem exists_front_of_readInclude {front text rest : List Char} {items : List (List Char)}
    (hborder : isNameBorder front.getLast? = true)
    (h : readInclude dialect text = some (items, rest)) :
    ∃ entry inside tail, text = entry ++ inside ∧ opens dialect (front ++ entry) = true ∧
      readLiterals inside = some (items, tail) := by
  cases dialect with
  | groovy =>
      obtain ⟨unread, hafter, hliterals⟩ := Option.bind_eq_some_iff.1 h
      obtain ⟨opening, hopening, hunread⟩ := eq_append_optionalOpening unread
      refine ⟨"include".toList ++ opening, optionalOpening unread, rest, ?_,
        opens_of_isOpening (by decide) (isWordBorder_of_isNameBorder hborder) hopening, hliterals⟩
      rw [eq_append_of_after hafter, List.append_assoc, ← hunread]
  | kotlin =>
      obtain ⟨entry, inside, tail, rfl, hentry, hliterals⟩ := exists_front_of_call h
      have hopens := hentry _
        (endsInWord_append (by decide : endsInWord "include".toList = true) front)
      exact ⟨"include".toList ++ entry, inside, tail, by simp, by rwa [← List.append_assoc],
        hliterals⟩

/-- The projects that are included are strings of the script. -/
theorem isString_of_mem_findValues_readInclude {script : List Char}
    (hplain : ∀ token ∈ tokens script, token.IsPlain)
    (hends : ∀ token ∈ tokens script, token.opens dialect = false) :
    ∀ item ∈ (findValues isNameBorder (readInclude dialect) script).flatten,
      IsString (tokens script) item := by
  intro item hitem
  obtain ⟨items, hitems, hmem⟩ := List.mem_flatten.1 hitem
  obtain ⟨front, place, rest, hscript, hborder, hread⟩ := exists_read_of_mem_findValues hitems
  obtain ⟨entry, inside, tail, rfl, hopens, hliterals⟩ := exists_front_of_readInclude hborder hread
  refine isString_of_readLiterals hplain hends hopens ?_ hliterals item hmem
  rw [flatMap_text_tokens, List.append_assoc, ← hscript]

end Includes

/-! ## Coordinates -/

/-- Whether a coordinate stands right behind a string that ends like a configuration, with the quote
that closes the string taken for an opening one. -/
def coordinateBehindString : List Token → Bool
  | [] => false
  | .string _ body _ :: rest =>
    wordBefore body ≠ [] && (readCoordinate ('"' :: rest.flatMap Token.text)).isSome ||
      coordinateBehindString rest
  | _ :: rest => coordinateBehindString rest

theorem coordinateBehindString_append_right {before pieces : List Token}
    (h : coordinateBehindString (before ++ pieces) = false) :
    coordinateBehindString pieces = false := by
  induction before with
  | nil => exact h
  | cons piece before ih =>
      refine ih ?_
      cases piece with
      | string opening body closing => exact (Bool.or_eq_false_iff.1 h).2
      | _ => exact h

theorem readCoordinate_eq_none_of_behind {front behind : List Token}
    {opening body closing : List Char} (hbody : wordBefore body ≠ [])
    (h : coordinateBehindString (front ++ .string opening body closing :: behind) = false) :
    readCoordinate ('"' :: behind.flatMap Token.text) = none := by
  have hfirst := (Bool.or_eq_false_iff.1 (coordinateBehindString_append_right h)).1
  exact Option.isNone_iff_eq_none.1 (by simpa [hbody] using hfirst)

theorem run_append_of_run {inClass : Char → Bool} {text value rest : List Char} {c : Char}
    (h : run inClass text = some (value, c :: rest)) (more : List Char) :
    run inClass (text ++ more) = some (value, c :: rest ++ more) := by
  have hclass := forall_of_run h
  have hc : inClass c = false := by
    have hhead := List.head?_dropWhile_not inClass text
    unfold run at h
    split at h
    · simp at h
    · obtain ⟨-, hdrop⟩ := by simpa using h
      simpa [hdrop] using hhead
  obtain ⟨rfl, hne⟩ := eq_append_of_run h
  rw [List.append_assoc, List.cons_append]
  exact run_append hclass hne hc

/-- The quotes of a coordinate can be of either kind. -/
theorem readCoordinate_quote {quote other : Char} (hquote : isQuote quote = true)
    (hother : isQuote other = true) (text : List Char) :
    readCoordinate (quote :: text) = readCoordinate (other :: text) := by
  rw [readCoordinate, readCoordinate, if_pos hquote, if_pos hother]

/-- A coordinate is read whatever comes after it. -/
theorem readCoordinate_append {text rest : List Char} {segments : String × String × String}
    (h : readCoordinate text = some (segments, rest)) (more : List Char) :
    readCoordinate (text ++ more) = some (segments, rest ++ more) := by
  unfold readCoordinate at h
  split at h
  · simp at h
  · next opening text =>
    split at h
    · next hopening =>
      obtain ⟨⟨first, text₁⟩, hfirst, h⟩ := Option.bind_eq_some_iff.1 h
      obtain ⟨text₂, hcolon, h⟩ := Option.bind_eq_some_iff.1 h
      obtain ⟨⟨second, text₃⟩, hsecond, h⟩ := Option.bind_eq_some_iff.1 h
      obtain ⟨text₄, hcolon', h⟩ := Option.bind_eq_some_iff.1 h
      obtain ⟨⟨third, text₅⟩, hthird, h⟩ := Option.bind_eq_some_iff.1 h
      obtain rfl := eq_append_of_after hcolon
      obtain rfl := eq_append_of_after hcolon'
      cases text₅ with
      | nil => simp at h
      | cons closing text₆ =>
        change run isSegmentChar text = some (first, ':' :: text₂) at hfirst
        change run isSegmentChar text₂ = some (second, ':' :: text₄) at hsecond
        have hcolonAfter : ∀ text, after ":" (':' :: text) = some text := after_append ":"
        dsimp only at h
        split at h
        · next hclosing =>
          obtain ⟨rfl, rfl⟩ := by simpa only [Option.some.injEq, Prod.mk.injEq] using h
          simp only [List.cons_append, readCoordinate, hopening, if_true,
            run_append_of_run hfirst, run_append_of_run hsecond, run_append_of_run hthird,
            Option.bind_eq_bind, Option.bind_some, hcolonAfter, hclosing]
        · simp at h
    · simp at h

/-- If no coordinate stands behind a string of a script, then none does in a part of the script. -/
theorem coordinateBehindString_append_left {pieces after : List Token}
    (h : coordinateBehindString (pieces ++ after) = false) :
    coordinateBehindString pieces = false := by
  induction pieces with
  | nil => rfl
  | cons piece pieces ih =>
      cases piece with
      | string opening body closing =>
          obtain ⟨hfirst, hrest⟩ := Bool.or_eq_false_iff.1 h
          refine Bool.or_eq_false_iff.2 ⟨?_, ih hrest⟩
          cases hread : readCoordinate ('"' :: pieces.flatMap Token.text) with
          | none => simp
          | some found =>
              have hlong := readCoordinate_append hread (after.flatMap Token.text)
              rw [List.cons_append, ← List.flatMap_append] at hlong
              rw [List.append_eq, hlong] at hfirst
              exact hfirst
      | _ => exact ih h

theorem isContent_coordinate {group artifact version : String}
    (h : ∀ segment ∈ [group, artifact, version],
      segment.toList ≠ [] ∧ ∀ c ∈ segment.toList, isSegmentChar c = true) :
    IsContent (coordinate group artifact version).toList := by
  have hquote : ∀ segment ∈ [group, artifact, version], ∀ c ∈ segment.toList,
      isQuote c = false := by
    intro segment hsegment c hc
    have hclass := (h segment hsegment).2 c hc
    simp only [isSegmentChar, Bool.not_eq_true', Bool.or_eq_false_iff] at hclass
    exact hclass.1.1
  have hshape : (coordinate group artifact version).toList =
      group.toList ++ ':' :: (artifact.toList ++ ':' :: version.toList) := by simp [coordinate]
  rw [hshape]
  refine ⟨by simp, List.forall_mem_append.2 ⟨hquote group (by simp), ?_⟩⟩
  refine List.forall_mem_cons.2 ⟨by decide, ?_⟩
  refine List.forall_mem_append.2 ⟨hquote artifact (by simp), ?_⟩
  exact List.forall_mem_cons.2 ⟨by decide, hquote version (by simp)⟩

theorem introduced_of_readCoordinate {front text rest : List Char}
    {group artifact version : String} (hfront : opens dialect front = true)
    (h : readCoordinate text = some ((group, artifact, version), rest)) :
    ∃ rest', Introduced dialect front text (coordinate group artifact version).toList rest' := by
  obtain ⟨hliteral, hsegments⟩ := of_readCoordinate h
  obtain ⟨opening, closing, rest', hopening, hclosing, rfl⟩ := hliteral.exists_eq
  exact ⟨rest', [], opening, closing, hopening, hclosing, isContent_coordinate hsegments,
    by rwa [List.append_nil], rfl⟩

/-- In Kotlin, the coordinate of an artifact stands after a parenthesis. -/
theorem introduced_of_readExternal {front text rest : List Char} {dependency : Dependency}
    (h : readExternal .kotlin text = some (dependency, rest)) :
    ∃ rest', Introduced .kotlin front text dependency.literal.toList rest' := by
  obtain ⟨⟨word, unread⟩, hrun, h⟩ := Option.bind_eq_some_iff.1 h
  obtain ⟨⟨⟨group, artifact, version⟩, tail⟩, hcall, h⟩ := Option.bind_eq_some_iff.1 h
  obtain ⟨rfl, rfl⟩ := by simpa using h
  obtain ⟨entry, inside, _, rfl, hentry, hcoordinate⟩ :
      ∃ entry inside tail, unread = "".toList ++ (entry ++ inside) ∧ IsFront .kotlin entry ∧
        readCoordinate inside = some ((group, artifact, version), tail) :=
    exists_front_of_call hcall
  have hword := endsInWord_append (endsInWord_of_isWord (isWord_of_run hrun)) front
  obtain ⟨rest', hintroduced⟩ := introduced_of_readCoordinate (hentry _ hword) hcoordinate
  rw [(eq_append_of_run hrun).1]
  exact ⟨rest', hintroduced.append.append⟩

/-- In Groovy, the coordinate of an artifact is a string, if no coordinate stands right behind a
string that ends like a configuration. -/
theorem isString_of_readExternal_groovy {pieces : List Token} (hplain : ∀ p ∈ pieces, p.IsPlain)
    (hbehind : coordinateBehindString pieces = false) {front text rest : List Char}
    {dependency : Dependency} (htext : pieces.flatMap Token.text = front ++ text)
    (h : readExternal .groovy text = some (dependency, rest)) :
    IsString pieces dependency.literal.toList := by
  obtain ⟨⟨word, unread⟩, hrun, h⟩ := Option.bind_eq_some_iff.1 h
  dsimp only at h
  split at h
  · simp at h
  · obtain ⟨⟨⟨group, artifact, version⟩, tail⟩, hcoordinate, h⟩ := Option.bind_eq_some_iff.1 h
    obtain ⟨rfl, rfl⟩ := by simpa using h
    obtain ⟨opening, hopening, hunread⟩ := eq_append_optionalOpening unread
    obtain ⟨hliteral, hsegments⟩ := of_readCoordinate hcoordinate
    obtain ⟨first, last, behind, hfirst, hlast, heq⟩ := hliteral.exists_eq
    have hentry : ∀ c ∈ word ++ opening, isQuote c = false := List.forall_mem_append.2
      ⟨isQuote_of_isWord (isWord_of_run hrun), hopening.isQuote_eq_false⟩
    have hlastChar : ∀ c ∈ (front ++ (word ++ opening)).getLast?, isQuote c = false := by
      intro c hc
      have hne : word ++ opening ≠ [] := by simp [(eq_append_of_run hrun).2]
      rw [List.getLast?_append_of_ne_nil _ hne] at hc
      exact hentry c (List.mem_of_getLast? hc)
    have hsplit : pieces.flatMap Token.text = (front ++ (word ++ opening)) ++
        first :: ((coordinate group artifact version).toList ++ last :: behind) := by
      rw [htext, (eq_append_of_run hrun).1, hunread, heq]
      simp
    cases literalPlace hplain hfirst hlast (isContent_coordinate hsegments) hlastChar hsplit with
    | whole quote before after hpieces => exact ⟨quote, by simp [hpieces, Dependency.literal]⟩
    | behind quote body before after hquote hpieces hbefore hrest =>
        -- The word stands at the end of a string, and the coordinate behind the string.
        have hword : word <:+ wordBefore body := by
          rw [← wordBefore_append_quote hquote, ← hbefore, ← List.append_assoc]
          exact suffix_wordBefore (isWord_of_run hrun) (List.suffix_append front word) hopening
        have hbody : wordBefore body ≠ [] := by
          intro hnil
          rw [hnil] at hword
          exact (eq_append_of_run hrun).2 (List.suffix_nil.1 hword)
        have hnone := readCoordinate_eq_none_of_behind hbody (hpieces ▸ hbehind)
        rw [hrest, readCoordinate_quote rfl hfirst, ← List.nil_append (first :: _), ← heq,
          hcoordinate] at hnone
        simp at hnone

/-- The coordinate of an artifact is a string. -/
theorem isString_of_readExternal {pieces : List Token} (hplain : ∀ p ∈ pieces, p.IsPlain)
    (hends : ∀ p ∈ pieces, p.opens dialect = false)
    (hbehind : dialect = .groovy → coordinateBehindString pieces = false)
    {front text rest : List Char} {dependency : Dependency}
    (htext : pieces.flatMap Token.text = front ++ text)
    (h : readExternal dialect text = some (dependency, rest)) :
    IsString pieces dependency.literal.toList := by
  cases dialect with
  | groovy => exact isString_of_readExternal_groovy hplain (hbehind rfl) htext h
  | kotlin =>
      obtain ⟨rest', hintroduced⟩ := introduced_of_readExternal h
      exact hintroduced.isString (htext ▸ madeFrom_of_forall hplain fun _ => id) hends

/-! ## All values -/

/-- The addresses of repositories, in blocks and in calls. -/
def mavenAddresses (script : List Char) : List (List Char) :=
  (blockBody "repositories" script).toList.flatMap fun body =>
    findValues isNameBorder readMavenBlock body ++ findValues isNameBorder readMavenCall body

theorem of_mem_repositories {script : List Char} {name : String}
    (h : name ∈ repositories script) :
    name ∈ wellKnownRepositories ∨ name.toList ∈ mavenAddresses script := by
  unfold repositories at h
  unfold mavenAddresses
  cases hbody : blockBody "repositories" script with
  | none => simp [hbody] at h
  | some body =>
      rw [hbody] at h
      rcases List.mem_append.1 (List.mem_eraseDups.1 h) with hknown | haddress
      · exact .inl (List.mem_filter.1 hknown).1
      · obtain ⟨value, hvalue, rfl⟩ := List.mem_map.1 haddress
        exact .inr (by simpa using hvalue)

/-- The values in some form that are assigned to a property, outside all braces and anywhere. -/
def assignedValues (name : String) (form : Reader (List Char)) (script : List Char) :
    List (List Char) :=
  [topLevel script, script].flatMap (findValues isWordBorder (readAssignment name form))

theorem of_property? {name value : String} {script : List Char}
    (h : property? name script = some value) :
    ∃ form ∈ [literal, readJavaVersion, readDecimal],
      value.toList ∈ assignedValues name form script := by
  obtain ⟨content, hcontent, rfl⟩ := Option.map_eq_some_iff.1 h
  have hscope : ∃ scope ∈ [topLevel script, script], assigned? name scope = some content := by
    rcases Option.or_eq_some_iff.1 hcontent with htop | ⟨-, hall⟩
    · exact ⟨_, by simp, htop⟩
    · exact ⟨_, by simp, hall⟩
  obtain ⟨scope, hmem, hassigned⟩ := hscope
  obtain ⟨form, hform, hhead⟩ := List.exists_of_findSome?_eq_some hassigned
  refine ⟨form, hform, List.mem_flatMap.2 ⟨scope, hmem, ?_⟩⟩
  rw [String.toList_ofList]
  exact List.mem_of_mem_head? hhead

/-- The strings of a script cannot be mistaken for something else: they are plain, none ends like
the front of a statement, and in Groovy, where nothing need stand between a configuration and a
coordinate, no coordinate stands right behind a string that ends like a configuration. -/
structure ClearStrings (dialect : Dialect) (script : List Char) : Prop where
  plain : HasPlainStrings script
  opens_eq_false : ∀ token ∈ tokens script, token.opens dialect = false
  apart : dialect = .groovy → coordinateBehindString (tokens script) = false

section Values

variable {script : List Char}

theorem isString_of_mem_plugins {found : List Token} (hmade : MadeFrom found script)
    (hends : ∀ p ∈ found, p.opens dialect = false) :
    ∀ id ∈ plugins dialect script, IsString found id.toList := by
  intro id hid
  obtain ⟨form, hform, hmem⟩ := List.mem_flatMap.1 (List.mem_eraseDups.1 hid)
  obtain ⟨value, hvalue, rfl⟩ := List.mem_map.1 hmem
  rw [String.toList_ofList]
  have hintroduces : Introduces dialect isNameBorder form := by
    cases dialect <;> simp only [pluginForms, List.mem_cons, List.not_mem_nil, or_false] at hform
    · rcases hform with rfl | rfl
      · exact introduces_readPluginCommand
      · exact introduces_readPluginApplication
    · rcases hform with rfl | rfl <;> exact introduces_call (by decide)
  exact hintroduces.isString hmade hends value hvalue

theorem isString_of_mem_dependencies (hplain : ∀ token ∈ tokens script, token.IsPlain)
    (h : ClearStrings dialect script) :
    ∀ dependency ∈ dependencies dialect script,
      IsString (tokens script) dependency.literal.toList := by
  unfold dependencies
  cases hbody : blockBody "dependencies" script with
  | none => simp
  | some body =>
      obtain ⟨before, inside, after, htokens, rfl⟩ := exists_tokens_of_blockBody hbody
      have hmem : ∀ token ∈ inside, token ∈ tokens script := fun token htoken => by
        simp [htokens, htoken]
      have hends : ∀ token ∈ inside, token.opens dialect = false :=
        fun token htoken => h.opens_eq_false token (hmem token htoken)
      have hinside : ∀ token ∈ inside, token.IsPlain :=
        fun token htoken => hplain token (hmem token htoken)
      refine List.forall_mem_append.2 ⟨fun dependency hdependency => ?_,
        fun dependency hdependency => ?_⟩
      · obtain ⟨front, place, rest, hsplit, -, hread⟩ := exists_read_of_mem_findValues hdependency
        have hapart : dialect = .groovy → coordinateBehindString inside = false := fun hgroovy =>
          coordinateBehindString_append_left
            (coordinateBehindString_append_right (htokens ▸ h.apart hgroovy))
        obtain ⟨quote, hstring⟩ := isString_of_readExternal hinside hends hapart hsplit hread
        exact ⟨quote, hmem _ hstring⟩
      · obtain ⟨front, place, rest, hsplit, -, hread⟩ := exists_read_of_mem_findValues hdependency
        obtain ⟨rest', hintroduced⟩ :=
          @introduced_of_readProject dialect front place rest dependency hread
        exact hintroduced.isString (hsplit ▸ madeFrom_of_forall hinside hmem) h.opens_eq_false

theorem isString_of_mem_mavenAddresses (hplain : ∀ token ∈ tokens script, token.IsPlain)
    (hends : ∀ token ∈ tokens script, token.opens dialect = false) :
    ∀ address ∈ mavenAddresses script, IsString (tokens script) address := by
  intro address haddress
  obtain ⟨body, hbody, hvalue⟩ := List.mem_flatMap.1 haddress
  obtain ⟨before, inside, after, htokens, rfl⟩ :=
    exists_tokens_of_blockBody (Option.mem_toList.1 hbody)
  have hmem : ∀ token ∈ inside, token ∈ tokens script := fun token htoken => by
    simp [htokens, htoken]
  have hmade : MadeFrom (tokens script) (inside.flatMap Token.text) :=
    madeFrom_of_forall (fun token htoken => hplain token (hmem token htoken)) hmem
  rcases List.mem_append.1 hvalue with hblock | hcall
  · exact introduces_readMavenBlock.isString hmade hends address hblock
  · exact introduces_readMavenCall.isString hmade hends address hcall

theorem isString_of_mem_assignedValues {found : List Token}
    (hplain : ∀ token ∈ tokens script, token.IsPlain) (hsubset : tokens script ⊆ found)
    (hends : ∀ token ∈ found, token.opens dialect = false) :
    ∀ name ∈ propertyNames, ∀ value ∈ assignedValues name literal script,
      IsString found value := by
  intro name hname value hvalue
  have hwords : ∀ name ∈ propertyNames, endsInWord name.toList = true := by decide
  obtain ⟨scope, hscope, hmem⟩ := List.mem_flatMap.1 hvalue
  have hmade : MadeFrom found scope := by
    simp only [List.mem_cons, List.not_mem_nil, or_false] at hscope
    rcases hscope with rfl | rfl
    · exact (madeFrom_topLevel hplain).mono hsubset
    · exact (madeFrom_tokens hplain).mono hsubset
  exact (introduces_readAssignment (hwords name hname)).isString hmade hends value hmem

end Values

/-- The tokens of a text without its comments. -/
def scriptTokens (text : String) : List Token := tokens (stripComments text.toList)

/-- All values that are read in quotes from a build file or a settings file are whole strings of
the text without its comments. -/
structure ReadsStrings (dialect : Dialect) (text : String) : Prop where
  plugins : ∀ id ∈ (parse dialect text).plugins, IsString (scriptTokens text) id.toList
  repositories : ∀ name ∈ (parse dialect text).repositories,
    name ∈ wellKnownRepositories ∨ name.toList ∈ mavenAddresses (stripComments text.toList)
  addresses : ∀ address ∈ mavenAddresses (stripComments text.toList),
    IsString (scriptTokens text) address
  coordinates : ∀ name ∈ (parse dialect text).coordinates,
    IsString (scriptTokens text) name.toList
  projectPaths : ∀ path ∈ (parse dialect text).projectPaths,
    IsString (scriptTokens text) path.toList
  properties : ∀ entry ∈ (parse dialect text).properties.entries, entry.1 ∈ propertyNames ∧
    ∃ form ∈ [literal, readJavaVersion, readDecimal], entry.2.toList ∈
      assignedValues entry.1 form (withoutBlockBody "dependencies" (stripComments text.toList))
  quotedValues : ∀ name ∈ propertyNames, ∀ value ∈ assignedValues name literal
    (withoutBlockBody "dependencies" (stripComments text.toList)),
    IsString (scriptTokens text) value
  includes : ∀ item ∈ SettingsFile.includes dialect text, IsString (scriptTokens text) item.toList
  rootName : ∀ name, SettingsFile.rootName? text = some name →
    IsString (scriptTokens text) name.toList

/-- If the strings of a script cannot be mistaken for something else, then all values that are read
from it in quotes are whole strings. -/
theorem values_are_strings {dialect : Dialect} {text : String}
    (h : ClearStrings dialect (stripComments text.toList)) : ReadsStrings dialect text := by
  have hplain := h.plain.isPlain (isComment_eq_false_of_mem_tokens text.toList)
  have hsubset :=
    (sublist_tokens_withoutBlockBody "dependencies" (stripComments text.toList)).subset
  have houtside : ∀ token ∈ tokens (withoutBlockBody "dependencies" (stripComments text.toList)),
      token.IsPlain := fun token htoken => hplain token (hsubset htoken)
  have hdependencies := isString_of_mem_dependencies hplain h
  constructor
  case plugins =>
    exact isString_of_mem_plugins ((madeFrom_tokens houtside).mono hsubset) h.opens_eq_false
  case repositories => exact fun name hname => of_mem_repositories hname
  case addresses => exact isString_of_mem_mavenAddresses hplain h.opens_eq_false
  case coordinates =>
    intro name hname
    obtain ⟨dependency, hdependency, hcoordinate⟩ := List.mem_filterMap.1 hname
    have hstring := hdependencies dependency hdependency
    cases dependency with
    | external => rwa [← Option.some.inj hcoordinate]
    | project => simp [Dependency.coordinate?] at hcoordinate
  case projectPaths =>
    intro path hpath
    obtain ⟨dependency, hdependency, hproject⟩ := List.mem_filterMap.1 hpath
    have hstring := hdependencies dependency hdependency
    cases dependency with
    | external => simp [Dependency.projectPath?] at hproject
    | project => rwa [← Option.some.inj hproject]
  case properties =>
    intro entry hentry
    obtain ⟨name, hname, hvalue⟩ :=
      List.mem_filterMap.1 (OrderedMap.mem_of_mem_entries_ofList hentry)
    obtain ⟨value, hproperty, rfl⟩ := Option.map_eq_some_iff.1 hvalue
    exact ⟨hname, of_property? hproperty⟩
  case quotedValues => exact isString_of_mem_assignedValues houtside hsubset h.opens_eq_false
  case includes =>
    intro item hitem
    obtain ⟨value, hvalue, rfl⟩ := List.mem_map.1 hitem
    rw [String.toList_ofList]
    exact isString_of_mem_findValues_readInclude hplain h.opens_eq_false value hvalue
  case rootName =>
    intro name hname
    obtain ⟨value, hvalue, rfl⟩ := Option.map_eq_some_iff.1 hname
    rw [String.toList_ofList]
    exact introduces_readRootName.isString (madeFrom_tokens hplain) h.opens_eq_false value
      (List.mem_of_mem_head? hvalue)

/-- Statements of all kinds. -/
def allStatements : List Char :=
  ["rootProject.name='s'\n", "include 'c', \"d\"\n", "version='1' // it's\n", "id 'p'\n",
    "repositories \x7b maven('u') \x7d\n", "dependencies \x7b api 'a:b:1'\n",
    "api project(':c') \x7d"].flatMap String.toList

theorem values_are_strings_allStatements :
    ClearStrings .groovy (stripComments (String.ofList allStatements).toList) ∧
      ∀ value ∈ ["p", "u", "a:b:1", ":c", "1", "c", "d", "s"],
        IsString (scriptTokens (String.ofList allStatements)) value.toList := by
  have hclear : ClearStrings .groovy (stripComments (String.ofList allStatements).toList) := by
    rw [String.toList_ofList]
    exact ⟨by decide +kernel, by decide +kernel, fun _ => by decide +kernel⟩
  have hfacts : "p" ∈ (parse .groovy (String.ofList allStatements)).plugins ∧
      "a:b:1" ∈ (parse .groovy (String.ofList allStatements)).coordinates ∧
      ":c" ∈ (parse .groovy (String.ofList allStatements)).projectPaths := by
    simp only [parse, String.toList_ofList]
    decide +kernel
  have hvalues : "u".toList ∈
        mavenAddresses (stripComments (String.ofList allStatements).toList) ∧
      "1".toList ∈ assignedValues "version" literal
        (withoutBlockBody "dependencies" (stripComments (String.ofList allStatements).toList)) := by
    simp only [String.toList_ofList]
    decide +kernel
  have hsettings : ["c", "d"] = SettingsFile.includes .groovy (String.ofList allStatements) ∧
      SettingsFile.rootName? (String.ofList allStatements) = some "s" := by
    simp only [SettingsFile.includes, SettingsFile.rootName?, String.toList_ofList]
    decide +kernel
  have hstrings := values_are_strings hclear
  refine ⟨hclear, ?_⟩
  simp only [List.forall_mem_cons, List.not_mem_nil, false_implies, implies_true, and_true]
  exact ⟨hstrings.plugins "p" hfacts.1, hstrings.addresses _ hvalues.1,
    hstrings.coordinates "a:b:1" hfacts.2.1, hstrings.projectPaths ":c" hfacts.2.2,
    hstrings.quotedValues "version" (by decide) _ hvalues.2,
    hstrings.includes "c" (by rw [← hsettings.1]; simp),
    hstrings.includes "d" (by rw [← hsettings.1]; simp),
    hstrings.rootName "s" hsettings.2⟩

/-- A value can be a part of a string: in quotes of the one kind, a quote of the other kind ends the
value, but not the string. -/
theorem value_in_part :
    (parse .kotlin "version = \"it's\"\n").properties.get? "version" = some "it" ∧
      .string ['"'] "it's".toList ['"'] ∈ scriptTokens "version = \"it's\"\n" ∧
      ¬IsString (scriptTokens "version = \"it's\"\n") "it".toList := by
  refine ⟨by decide +kernel, by decide +kernel, ?_⟩
  rintro ⟨quote, hmem⟩
  have hother : ∀ token ∈ scriptTokens "version = \"it's\"\n",
      token.text.length ≠ 4 := by decide +kernel
  exact hother _ hmem rfl

end BuildFile

end GradleWorkspace
