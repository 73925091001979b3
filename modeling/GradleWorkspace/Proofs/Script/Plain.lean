import GradleWorkspace.Dialect
import GradleWorkspace.Proofs.Script.Brace

/-!
# Scripts with plain strings

A string is plain if its own quotes close it and no quote stands between them.  In a script with
plain strings only, what is left outside of blocks or braces is made from the same strings.

* `MadeFrom` are the texts that are put together from code and from plain strings of a script, as
  the text outside all braces is (`madeFrom_topLevel`).
* `literalPlace` says that a literal in such a text is a whole string, or it begins with the quote
  that closes a string.
* `opens` decides whether a text ends like the front of a statement.  After such a text, a literal
  is a whole string, if no string itself ends so (`exists_string_of_opens`).
-/

namespace GradleWorkspace.Script

open Text

/-! ## Plain tokens -/

namespace Token

/-- Whether a token is a string. -/
def isString : Token → Bool
  | string _ _ _ => true
  | _ => false

/-- A character of code, or a string between two equal delimiters without quotes between them. -/
def IsPlain : Token → Prop
  | code c => isQuote c = false
  | string opening body closing => closing = opening ∧ (∀ c ∈ body, isQuote c = false) ∧
    ∃ quote, isQuote quote = true ∧ (opening = [quote] ∨ opening = [quote, quote, quote])
  | _ => False

/-- Whether a token, if it is a string, is closed by its own quotes and has none between them. -/
def isPlainString : Token → Bool
  | string opening body closing => closing = opening && body.all fun c => !isQuote c
  | _ => true

end Token

/-- All strings of a script are plain. -/
def HasPlainStrings (script : List Char) : Prop :=
  ∀ token ∈ tokens script, token.isPlainString = true

instance (script : List Char) : Decidable (HasPlainStrings script) :=
  inferInstanceAs (Decidable (∀ token ∈ tokens script, token.isPlainString = true))

/-- If the strings of a script without comments are plain, then so are all its tokens. -/
theorem HasPlainStrings.isPlain {script : List Char} (h : HasPlainStrings script)
    (hcomment : ∀ token ∈ tokens script, token.isComment = false) :
    ∀ token ∈ tokens script, token.IsPlain := by
  intro token htoken
  obtain ⟨text, rest, hbegins⟩ := exists_begins_of_mem_tokens script token htoken
  have hnone := hcomment token htoken
  have hplain := h token htoken
  cases hbegins with
  | lineComment text => simp [Token.isComment] at hnone
  | blockComment text => simp [Token.isComment] at hnone
  | tripleQuoted quote text hquote =>
      obtain ⟨hclosing, hbody⟩ := by simpa [Token.isPlainString] using hplain
      exact ⟨hclosing, hbody, quote, hquote, .inr rfl⟩
  | quoted quote text hquote =>
      obtain ⟨hclosing, hbody⟩ := by simpa [Token.isPlainString] using hplain
      exact ⟨hclosing, hbody, quote, hquote, .inl rfl⟩
  | code c text hquote => exact hquote

/-! ## Texts from plain tokens -/

/-- A text that is put together from code and from plain strings that are among the given
tokens. -/
def MadeFrom (found : List Token) (text : List Char) : Prop :=
  ∃ pieces : List Token, text = pieces.flatMap Token.text ∧ (∀ p ∈ pieces, p.IsPlain) ∧
    ∀ p ∈ pieces, p.isString = true → p ∈ found

section MadeFrom

variable {found : List Token}

theorem MadeFrom.append {first second : List Char} (h : MadeFrom found first)
    (h' : MadeFrom found second) : MadeFrom found (first ++ second) := by
  obtain ⟨pieces, rfl, hplain, hfound⟩ := h
  obtain ⟨pieces', rfl, hplain', hfound'⟩ := h'
  exact ⟨pieces ++ pieces', by rw [List.flatMap_append],
    List.forall_mem_append.2 ⟨hplain, hplain'⟩, List.forall_mem_append.2 ⟨hfound, hfound'⟩⟩

theorem madeFrom_of_forall {pieces : List Token} (hplain : ∀ p ∈ pieces, p.IsPlain)
    (h : ∀ p ∈ pieces, p ∈ found) : MadeFrom found (pieces.flatMap Token.text) :=
  ⟨pieces, rfl, hplain, fun p hp _ => h p hp⟩

theorem madeFrom_code {text : List Char} (h : ∀ c ∈ text, isQuote c = false) :
    MadeFrom found text := by
  refine ⟨text.map .code, ?_, ?_, ?_⟩
  · rw [List.flatMap_map]
    exact (List.flatMap_singleton' text).symm
  · exact List.forall_mem_map.2 h
  · exact List.forall_mem_map.2 fun c _ hstring => by simp [Token.isString] at hstring

theorem isQuote_blank (c : Char) : isQuote (blank c) = false := by
  unfold blank
  split <;> decide

theorem madeFrom_blank (text : List Char) : MadeFrom found (text.map blank) :=
  madeFrom_code (List.forall_mem_map.2 fun c _ => isQuote_blank c)

end MadeFrom

/-! ## The text outside all braces -/

theorem Token.IsPlain.hidesBraces {token : Token} (h : token.IsPlain) : token.HidesBraces := by
  cases token with
  | code c => exact hidesBraces_code c
  | lineComment body => exact h.elim
  | blockComment body closing => exact h.elim
  | string opening body closing =>
      obtain ⟨rfl, -, quote, hquote, hopening⟩ := h
      have hdelimiter : ∀ c ∈ closing, ¬(c = '{' ∨ c = '}') := by
        intro c hc hbrace
        refine ne_brace_of_isQuote hquote hbrace ?_
        rcases hopening with rfl | rfl <;> simpa using hc
      exact hidesBraces_string hdelimiter hdelimiter

/-- Strings inside braces are blanked as a whole, and others stay as they are. -/
theorem madeFrom_outline {pieces : List Token} (hplain : ∀ p ∈ pieces, p.IsPlain) (depth : Nat) :
    MadeFrom pieces (outline depth (pieces.flatMap (Token.shown blank))
      (pieces.flatMap Token.text)) := by
  suffices h : ∀ found : List Token, (∀ p ∈ pieces, p ∈ found) →
      MadeFrom found (outline depth (pieces.flatMap (Token.shown blank))
        (pieces.flatMap Token.text)) from h pieces fun _ => id
  intro found hfound
  induction pieces generalizing depth with
  | nil => exact madeFrom_code (by simp [outline])
  | cons piece pieces ih =>
      obtain ⟨hpiece, hpieces⟩ := List.forall_mem_cons.1 hplain
      obtain ⟨hfirst, hothers⟩ := List.forall_mem_cons.1 hfound
      rw [List.flatMap_cons, List.flatMap_cons]
      cases piece with
      | lineComment body => exact hpiece.elim
      | blockComment body closing => exact hpiece.elim
      | code c =>
          change MadeFrom found (outline depth (c :: _) (c :: _))
          rw [outline, ← List.singleton_append]
          refine MadeFrom.append (madeFrom_code (List.forall_mem_singleton.2 ?_))
            (ih hpieces _ hothers)
          by_cases hinside : (if c = '}' then depth - 1 else depth) = 0
          · rw [if_pos hinside]
            exact hpiece
          · rw [if_neg hinside]
            exact isQuote_blank c
      | string opening body closing =>
          rw [outline_append (Token.length_shown _ _) (hpiece.hidesBraces.ne_brace (by simp))]
          refine MadeFrom.append ?_ (ih hpieces _ hothers)
          split
          · exact ⟨[.string opening body closing], by simp, by simpa using hpiece, by
              simpa [Token.isString] using hfirst⟩
          · exact madeFrom_blank _

theorem madeFrom_topLevel {script : List Char} (hplain : ∀ token ∈ tokens script, token.IsPlain) :
    MadeFrom (tokens script) (topLevel script) := by
  have h := madeFrom_outline hplain 0
  rwa [← maskFrom_code_eq_flatMap, flatMap_text_tokens] at h

theorem madeFrom_tokens {script : List Char} (hplain : ∀ token ∈ tokens script, token.IsPlain) :
    MadeFrom (tokens script) script :=
  ⟨tokens script, (flatMap_text_tokens script).symm, hplain, fun _ hp _ => hp⟩

theorem MadeFrom.mono {found found' : List Token} {text : List Char} (h : MadeFrom found text)
    (hsubset : found ⊆ found') : MadeFrom found' text := by
  obtain ⟨pieces, rfl, hplain, hfound⟩ := h
  exact ⟨pieces, rfl, hplain, fun p hp hstring => hsubset (hfound p hp hstring)⟩

/-! ## Literals among plain tokens -/

/-- Two texts without quotes that end at a quote are equal. -/
theorem eq_of_append_quote_eq {first second rest rest' : List Char} {quote quote' : Char}
    (hfirst : ∀ c ∈ first, isQuote c = false) (hsecond : ∀ c ∈ second, isQuote c = false)
    (hquote : isQuote quote = true) (hquote' : isQuote quote' = true)
    (h : first ++ quote :: rest = second ++ quote' :: rest') :
    first = second ∧ quote = quote' ∧ rest = rest' := by
  induction first generalizing second with
  | nil =>
      cases second with
      | nil =>
          obtain ⟨rfl, rfl⟩ := List.cons.inj h
          exact ⟨rfl, rfl, rfl⟩
      | cons c second =>
          obtain ⟨rfl, -⟩ := List.cons.inj h
          simp [hquote] at hsecond
  | cons c first ih =>
      cases second with
      | nil =>
          obtain ⟨rfl, -⟩ := List.cons.inj h
          simp [hquote'] at hfirst
      | cons d second =>
          obtain ⟨rfl, hrest⟩ := List.cons.inj h
          obtain ⟨rfl, rfl, rfl⟩ := ih (List.forall_mem_cons.1 hfirst).2
            (fun c hc => hsecond c (List.mem_cons_of_mem _ hc)) hrest
          exact ⟨rfl, rfl, rfl⟩

theorem forall_mem_getLast?_of_append {property : Char → Prop} {first second : List Char}
    (h : ∀ c ∈ (first ++ second).getLast?, property c) : ∀ c ∈ second.getLast?, property c := by
  intro c hc
  refine h c ?_
  rw [List.getLast?_append, Option.mem_def.1 hc]
  rfl

/-- If a literal begins with a quote of a delimiter, and not after another quote, then the delimiter
is this quote. -/
theorem delimiter_eq {delimiter before inside content rest rest' : List Char}
    {opening closing : Char} (hquotes : ∀ c ∈ delimiter, isQuote c = true)
    (hcontent : IsContent content) (hlast : ∀ c ∈ before.getLast?, isQuote c = false)
    (h : delimiter = before ++ opening :: inside)
    (hrest : content ++ closing :: rest = inside ++ rest') :
    before = [] ∧ inside = [] := by
  subst h
  obtain ⟨hbefore, hinside⟩ := List.forall_mem_append.1 hquotes
  constructor
  · cases hlast' : before.getLast? with
    | none => exact List.getLast?_eq_none_iff.1 hlast'
    | some c =>
        have hquote := hbefore c (List.mem_of_getLast? hlast')
        simp [hlast c hlast'] at hquote
  · obtain ⟨c, content, rfl⟩ := List.exists_cons_of_ne_nil hcontent.1
    cases inside with
    | nil => rfl
    | cons d inside =>
        obtain ⟨rfl, -⟩ := List.cons.inj hrest
        have hquote := hinside c (by simp)
        simp [hcontent.2 c List.mem_cons_self] at hquote

/-- Where a literal can stand in a text from tokens. -/
inductive LiteralPlace (pieces : List Token) (before content : List Char) (closing : Char)
    (rest : List Char) : Prop
  /-- It is a whole string. -/
  | whole (quote : Char) (front behind : List Token)
    (hpieces : pieces = front ++ .string [quote] content [quote] :: behind)
    (hrest : rest = behind.flatMap Token.text)
  /-- It begins with the quote that closes a string. -/
  | behind (quote : Char) (body : List Char) (front behind : List Token)
    (hquote : isQuote quote = true)
    (hpieces : pieces = front ++ .string [quote] body [quote] :: behind)
    (hbefore : before = front.flatMap Token.text ++ quote :: body)
    (hrest : behind.flatMap Token.text = content ++ closing :: rest)

theorem LiteralPlace.cons {pieces : List Token} {before content rest : List Char} {closing : Char}
    (h : LiteralPlace pieces before content closing rest) (piece : Token) :
    LiteralPlace (piece :: pieces) (piece.text ++ before) content closing rest := by
  cases h with
  | whole quote front behind hpieces hrest =>
      exact .whole quote (piece :: front) behind (by rw [hpieces]; rfl) hrest
  | behind quote body front behind hquote hpieces hbefore hrest =>
      refine .behind quote body (piece :: front) behind hquote (by rw [hpieces]; rfl) ?_ hrest
      rw [hbefore, List.flatMap_cons, List.append_assoc]

/-- A literal in a text from plain tokens that does not begin after a quote is a whole string, or it
begins with the quote that closes a string. -/
theorem literalPlace {pieces : List Token} {before content rest : List Char}
    {opening closing : Char} (hplain : ∀ p ∈ pieces, p.IsPlain)
    (hopening : isQuote opening = true) (hclosing : isQuote closing = true)
    (hcontent : IsContent content) (hlast : ∀ c ∈ before.getLast?, isQuote c = false)
    (h : pieces.flatMap Token.text = before ++ opening :: (content ++ closing :: rest)) :
    LiteralPlace pieces before content closing rest := by
  induction pieces generalizing before with
  | nil => simp at h
  | cons piece pieces ih =>
      obtain ⟨hpiece, hpieces⟩ := List.forall_mem_cons.1 hplain
      rw [List.flatMap_cons] at h
      cases piece with
      | lineComment body => exact hpiece.elim
      | blockComment body closing => exact hpiece.elim
      | code c =>
          rcases append_eq_append_cons_cases h with ⟨front', rfl, hrest⟩ | ⟨inside, hcode, -⟩
          · exact (ih hpieces (forall_mem_getLast?_of_append hlast) hrest).cons _
          · have hmem : opening ∈ (Token.code c).text := by simp [hcode]
            obtain rfl : opening = c := List.mem_singleton.1 hmem
            have hnone : isQuote opening = false := hpiece
            simp [hopening] at hnone
      | string delimiter body delimiter' =>
          obtain ⟨rfl, hbody, quote, hquote, hdelimiter⟩ := hpiece
          have hquotes : ∀ c ∈ delimiter', isQuote c = true := by
            rcases hdelimiter with rfl | rfl <;> simpa using hquote
          rw [Token.text, List.append_assoc, List.append_assoc] at h
          -- The literal may begin at either delimiter, and behind the string, but not in its body.
          rcases append_eq_append_cons_cases h with ⟨middle, rfl, hmiddle⟩ | ⟨inside, hsplit, hrest⟩
          · rcases append_eq_append_cons_cases hmiddle with ⟨last, rfl, hend⟩ | ⟨inside, rfl, -⟩
            · have hlast' := forall_mem_getLast?_of_append (forall_mem_getLast?_of_append hlast)
              rcases append_eq_append_cons_cases hend with
                ⟨front', rfl, hothers⟩ | ⟨inside, hsplit, hrest⟩
              · have hplace := (ih hpieces (forall_mem_getLast?_of_append hlast') hothers).cons
                  (.string delimiter' body delimiter')
                rwa [Token.text, List.append_assoc, List.append_assoc] at hplace
              · obtain ⟨rfl, rfl⟩ := delimiter_eq hquotes hcontent hlast' hsplit hrest
                obtain rfl : delimiter' = [opening] := hsplit
                exact .behind opening body [] pieces hopening rfl (by simp) hrest.symm
            · have hnone := hbody opening (by simp)
              simp [hopening] at hnone
          · obtain ⟨rfl, rfl⟩ := delimiter_eq hquotes hcontent hlast hsplit hrest
            obtain rfl : delimiter' = [opening] := hsplit
            obtain ⟨rfl, rfl, rfl⟩ := eq_of_append_quote_eq hcontent.2 hbody hclosing hopening hrest
            exact .whole _ [] pieces rfl rfl

/-! ## Fronts of statements -/

/-- Whether a text ends in a word. -/
def endsInWord (text : List Char) : Bool := text.getLast?.any isWordChar

theorem endsInWord_append {word : List Char} (h : endsInWord word = true) (front : List Char) :
    endsInWord (front ++ word) = true := by
  have hne : word ≠ [] := by rintro rfl; simp [endsInWord] at h
  rwa [endsInWord, List.getLast?_append_of_ne_nil _ hne]

theorem endsInWord_of_isWord {word : List Char} (h : IsWord word) : endsInWord word = true := by
  rw [endsInWord, List.getLast?_eq_some_getLast h.1, Option.any_some]
  exact h.2 _ (List.getLast_mem h.1)

/-- Whether a text ends in a word and one of the signs that an argument or a value stands behind,
perhaps with blanks around the sign. -/
def endsInSign (text : List Char) : Bool :=
  match text.reverse.dropWhile isBlank with
  | [] => false
  | sign :: front => sign ∈ ['(', '=', ':'] && (front.dropWhile isBlank).head?.any isWordChar

/-- The words of a dialect after which a string can stand without a sign between them. -/
def commandWords : Dialect → List String
  | .groovy => ["id", "include", "url"]
  | .kotlin => ["url"]

variable (dialect : Dialect)

/-- Whether a text ends as the front of a statement does before a string: in a word and a sign, or
in a word that takes a string without a sign. -/
def opens (text : List Char) : Bool :=
  endsInSign text || (commandWords dialect).any fun word => wordBefore text = word.toList

theorem opens_of_sign {sign : Char} (hsign : sign ∈ ['(', '=', ':'])
    {front blanks blanks' : List Char} (hfront : endsInWord front = true)
    (hblanks : ∀ c ∈ blanks, isBlank c = true) (hblanks' : ∀ c ∈ blanks', isBlank c = true) :
    opens dialect (front ++ (blanks ++ sign :: blanks')) = true := by
  have hsignBlank : ∀ sign ∈ ['(', '=', ':'], isBlank sign = false := by decide
  have hlast : ∀ c ∈ front.getLast?, isBlank c = false := by
    intro c hc
    rw [endsInWord, Option.mem_def.1 hc, Option.any_some] at hfront
    cases hblank : isBlank c with
    | false => rfl
    | true => simp [isWordChar_eq_false_of_isBlank hblank] at hfront
  have hshape : front ++ (blanks ++ sign :: blanks') = front ++ blanks ++ [sign] ++ blanks' := by
    simp
  have hsigned : endsInSign (front ++ (blanks ++ sign :: blanks')) = true := by
    rw [endsInSign, hshape,
      dropWhile_reverse_append hblanks' (by simpa using hsignBlank sign hsign), List.reverse_concat]
    simp only [dropWhile_reverse_append hblanks hlast, List.head?_reverse]
    simpa only [hsign, decide_true, Bool.true_and, endsInWord] using hfront
  rw [opens, hsigned, Bool.true_or]

theorem opens_of_wordBefore {text : List Char} {word : String}
    (hword : word ∈ commandWords dialect) (h : wordBefore text = word.toList) :
    opens dialect text = true := by
  rw [opens, Bool.or_eq_true_iff, List.any_eq_true]
  exact .inr ⟨word, hword, by simpa using h⟩

theorem dropWhile_append_cons {inClass : Char → Bool} {c : Char} (hc : inClass c = false)
    (first rest : List Char) :
    (first ++ c :: rest).dropWhile inClass = first.dropWhile inClass ++ c :: rest := by
  induction first with
  | nil => simp [hc]
  | cons d first ih =>
      rw [List.cons_append, List.dropWhile_cons, List.dropWhile_cons]
      split
      · exact ih
      · rfl

theorem takeWhile_append_cons {inClass : Char → Bool} {c : Char} (hc : inClass c = false)
    (first rest : List Char) :
    (first ++ c :: rest).takeWhile inClass = first.takeWhile inClass := by
  induction first with
  | nil => simp [hc]
  | cons d first ih =>
      rw [List.cons_append, List.takeWhile_cons, List.takeWhile_cons, ih]

section Quote

variable {quote : Char} (hquote : isQuote quote = true) (front body : List Char)

include hquote

theorem isWordChar_quote : isWordChar quote = false := by
  rcases eq_or_eq_of_isQuote hquote with rfl | rfl <;> decide

theorem reverse_append_quote_dropWhile :
    (front ++ quote :: body).reverse.dropWhile isBlank =
      body.reverse.dropWhile isBlank ++ quote :: front.reverse := by
  rw [List.reverse_append, List.reverse_cons, List.append_assoc, List.singleton_append,
    dropWhile_append_cons (isBlank_eq_false_of_isQuote hquote)]

/-- The word at the end of a text does not go beyond a quote. -/
theorem wordBefore_append_quote : wordBefore (front ++ quote :: body) = wordBefore body := by
  have hopen : ∀ text rest : List Char, optionally (after "(") (text ++ quote :: rest) =
      optionally (after "(") text ++ quote :: rest := by
    intro text rest
    cases text with
    | nil =>
        have hne : '(' ≠ quote := by rintro rfl; simp [isQuote] at hquote
        simp [optionally, after, hne]
    | cons c text =>
        by_cases hc : '(' = c
        · subst hc
          simp [optionally, after]
        · simp [optionally, after, hc]
  rw [wordBefore, wordBefore, reverse_append_quote_dropWhile hquote, hopen,
    dropWhile_append_cons (isBlank_eq_false_of_isQuote hquote),
    takeWhile_append_cons (isWordChar_quote hquote)]

theorem endsInSign_append_quote : endsInSign (front ++ quote :: body) = endsInSign body := by
  rw [endsInSign, endsInSign, reverse_append_quote_dropWhile hquote]
  cases body.reverse.dropWhile isBlank with
  | nil => rcases eq_or_eq_of_isQuote hquote with rfl | rfl <;> rfl
  | cons sign text =>
      simp only [List.cons_append, dropWhile_append_cons (isBlank_eq_false_of_isQuote hquote)]
      cases text.dropWhile isBlank with
      | nil => simp [isWordChar_quote hquote]
      | cons c text => rfl

/-- What stands before a quote does not count for the end of a text. -/
theorem opens_append_quote : opens dialect (front ++ quote :: body) = opens dialect body := by
  rw [opens, opens, endsInSign_append_quote hquote, wordBefore_append_quote hquote]

end Quote

/-- A text that ends like the front of a statement does not end in a quote. -/
theorem isQuote_last_of_opens {before : List Char} (h : opens dialect before = true) :
    ∀ c ∈ before.getLast?, isQuote c = false := by
  intro c hc
  cases hquote : isQuote c with
  | false => rfl
  | true =>
      rw [← List.dropLast_append_getLast? c hc, opens_append_quote dialect hquote] at h
      cases dialect <;> exact absurd h (by decide)

/-- Whether a token is a string that ends like the front of a statement. -/
def Token.opens : Token → Bool
  | .string _ body _ => Script.opens dialect body
  | _ => false

/-- After the front of a statement, a literal is a whole string, if no string ends like the front
of a statement. -/
theorem exists_string_of_opens {pieces : List Token} {before content rest : List Char}
    {opening closing : Char} (hplain : ∀ p ∈ pieces, p.IsPlain)
    (hends : ∀ p ∈ pieces, p.opens dialect = false)
    (hopening : isQuote opening = true) (hclosing : isQuote closing = true)
    (hcontent : IsContent content) (hbefore : opens dialect before = true)
    (h : pieces.flatMap Token.text = before ++ opening :: (content ++ closing :: rest)) :
    ∃ quote front behind, pieces = front ++ .string [quote] content [quote] :: behind ∧
      rest = behind.flatMap Token.text := by
  have hlast := isQuote_last_of_opens dialect hbefore
  cases literalPlace hplain hopening hclosing hcontent hlast h with
  | whole quote front behind hpieces hrest => exact ⟨quote, front, behind, hpieces, hrest⟩
  | behind quote body front behind hquote hpieces hfront hrest =>
      have hclosed : opens dialect body = false :=
        hends (.string [quote] body [quote]) (by simp [hpieces])
      rw [hfront, opens_append_quote dialect hquote, hclosed] at hbefore
      simp at hbefore

end GradleWorkspace.Script
