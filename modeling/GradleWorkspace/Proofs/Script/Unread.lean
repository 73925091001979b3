import Mathlib.Data.List.Basic
import GradleWorkspace.Proofs.Script.Scan

/-!
# Where a reader reads nothing

Most readers begin with a fixed word.  In a script that is made of code and of string literals with
any content, such a reader finds nothing where its word does not stand, and where something else
follows the word.

* `avoids` decides for a piece of code that a word does not stand there with one of its signs after
  it, and `silent_of_avoids` says that a reader with these signs finds nothing in such a piece.
* `FollowedBy` names the characters that can stand right after the word.  Where the content of a
  string has none of them, nothing is read in the content (`FollowedBy.silent_content`).
* Some readers go on with a string after their word.  They may take the closing quote of a string
  for an opening one, and this happens just where the word stands at the end of the content
  (`FollowedBy.yields_content`).
-/

namespace GradleWorkspace.Script

open Text

variable {α : Type} {name : String} {read : Reader α}

/-! ## Code -/

/-- Whether a fixed word, wherever it stands in a text, is followed within the text by a character
that is none of the given signs. -/
def avoids (name : String) (signs : List Char) : List Char → Bool
  | [] => true
  | c :: rest =>
    ((after name (c :: rest)).all fun unread => (skipBlanks unread).head?.any (· ∉ signs)) &&
      avoids name signs rest

theorem avoids_of_suffix {signs text suffix : List Char} (h : avoids name signs text = true)
    (hsuffix : suffix <:+ text) : avoids name signs suffix = true := by
  induction text with
  | nil => rwa [List.suffix_nil.1 hsuffix]
  | cons c text ih =>
      rcases List.suffix_cons_iff.1 hsuffix with rfl | htail
      · exact h
      · exact ih (by simp_all [avoids]) htail

theorem skipBlanks_append {text tail : List Char} {c : Char} (h : skipBlanks text = c :: tail)
    (rest : List Char) : skipBlanks (text ++ rest) = c :: (tail ++ rest) := by
  rw [skipBlanks] at h
  rw [skipBlanks, List.dropWhile_append, if_neg (by simp [h]), h, List.cons_append]

theorem BeginsWith.needsWord {signs : List Char} (h : BeginsWith name signs read)
    (hname : IsWord name.toList) : NeedsWord read := by
  intro text htext
  cases hresult : read text with
  | none => rfl
  | some result =>
      obtain ⟨unread, -, -, rfl, -, -⟩ := h text result.1 result.2 hresult
      obtain ⟨c, letters, hletters⟩ := List.exists_cons_of_ne_nil hname.1
      have hword := hname.2 c (by simp [hletters])
      simp [htext c (by simp [hletters])] at hword

/-- In a piece of code that a word avoids, nothing is read that begins with the word. -/
theorem silent_of_avoids {signs piece : List Char} (h : BeginsWith name signs read)
    (hname : IsWord name.toList) (hlast : ∀ c ∈ piece.getLast?, isWordChar c = false)
    (havoids : avoids name signs piece = true) : Silent read piece := by
  intro suffix rest hsuffix hne
  cases hresult : read (suffix ++ rest) with
  | none => rfl
  | some result =>
      obtain ⟨unread, sign, tail, heq, hsign, hskip⟩ := h _ _ _ hresult
      rcases List.append_eq_append_iff.1 heq with ⟨missing, hmissing, -⟩ | ⟨inside, rfl, rfl⟩
      · -- The word cannot go on behind the piece, which ends in no character of words.
        obtain ⟨front, rfl⟩ := hsuffix
        have hend := List.getLast?_eq_some_getLast hne
        have hword := hname.2 (suffix.getLast hne) (by simp [hmissing])
        have hnot := hlast (suffix.getLast hne)
          (by rw [List.getLast?_append_of_ne_nil front hne]; exact hend)
        simp [hnot] at hword
      · obtain ⟨c, letters, hletters⟩ := List.exists_cons_of_ne_nil hname.1
        have hhere := avoids_of_suffix havoids hsuffix
        rw [hletters, List.cons_append, avoids, ← List.cons_append, ← hletters,
          after_append] at hhere
        obtain ⟨hfollows, -⟩ := Bool.and_eq_true_iff.1 hhere
        obtain ⟨other, hother, hharmless⟩ := (Option.any_eq_true _ _).1 hfollows
        obtain ⟨tail', htail'⟩ := List.head?_eq_some_iff.1 hother
        have hsame := hskip.symm.trans (skipBlanks_append htail' rest)
        obtain rfl := (List.cons.inj hsame).1
        simp [hsign] at hharmless

/-! ## Contents of strings -/

/-- What a reader takes begins with a fixed word, and right after the word stands a character of a
class. -/
def FollowedBy (name : String) (inClass : Char → Bool) (read : Reader α) : Prop :=
  ∀ text value rest, read text = some (value, rest) →
    ∃ c tail, text = name.toList ++ c :: tail ∧ inClass c = true

theorem BeginsWith.followedBy {signs : List Char} (h : BeginsWith name signs read) :
    FollowedBy name (fun c => isBlank c || signs.contains c) read := by
  intro text value rest hresult
  obtain ⟨unread, sign, tail, rfl, hsign, hskip⟩ := h text value rest hresult
  cases unread with
  | nil => simp [skipBlanks] at hskip
  | cons c unread =>
      refine ⟨c, unread, rfl, ?_⟩
      by_cases hblank : isBlank c = true
      · simp [hblank]
      · rw [skipBlanks_cons (by simpa using hblank)] at hskip
        obtain rfl := (List.cons.inj hskip).1
        simp [hsign]

/-- What follows a word in a text that a quote ends stands in the text, or it is the quote. -/
theorem mem_or_eq_of_append_eq {word content rest tail : List Char} {quote c : Char}
    (hquote : quote ∉ word) (h : content ++ quote :: rest = word ++ c :: tail) :
    c ∈ content ∨ c = quote ∧ content = word := by
  rcases List.append_eq_append_iff.1 h with ⟨missing, rfl, hrest⟩ | ⟨inside, rfl, hrest⟩
  · cases missing with
    | nil =>
        obtain rfl := (List.cons.inj hrest).1
        exact Or.inr ⟨rfl, by simp⟩
    | cons d missing =>
        obtain rfl := (List.cons.inj hrest).1
        simp at hquote
  · cases inside with
    | nil =>
        obtain rfl := (List.cons.inj hrest).1
        exact Or.inr ⟨rfl, by simp⟩
    | cons d inside =>
        obtain rfl := (List.cons.inj hrest).1
        exact Or.inl (by simp)

section Content

variable {inClass : Char → Bool} {content : List Char} {quote : Char}

/-- What a reader takes of a string without the characters that follow its word begins with the
word at the end of the content. -/
theorem FollowedBy.eq_of_read (h : FollowedBy name inClass read) (hname : IsWord name.toList)
    (hquote : isWordChar quote = false) (hcontent : ∀ c ∈ content, inClass c = false)
    {rest unread : List Char} {value : α}
    (hresult : read (content ++ quote :: rest) = some (value, unread)) :
    inClass quote = true ∧ content = name.toList := by
  obtain ⟨c, tail, heq, hc⟩ := h _ _ _ hresult
  have hnotMem : quote ∉ name.toList := fun hmem => by simp [hname.2 quote hmem] at hquote
  rcases mem_or_eq_of_append_eq hnotMem heq with hmem | ⟨rfl, rfl⟩
  · simp [hcontent c hmem] at hc
  · exact ⟨hc, rfl⟩

/-- In a string without the characters that follow its word a reader finds nothing, if its word is
not followed by the quote either. -/
theorem FollowedBy.silent_content (h : FollowedBy name inClass read) (hname : IsWord name.toList)
    (hquote : isWordChar quote = false) (hcontent : ∀ c ∈ content, inClass c = false)
    (hclass : inClass quote = false) : Silent read (content ++ [quote]) := by
  intro suffix rest hsuffix hne
  rcases List.suffix_concat_iff.1 hsuffix with rfl | ⟨part, rfl, hpart⟩
  · exact absurd rfl hne
  rw [List.append_assoc, List.singleton_append]
  cases hresult : read (part ++ quote :: rest) with
  | none => rfl
  | some result =>
      have hread := (h.eq_of_read hname hquote (fun c hc => hcontent c (hpart.subset hc)) hresult).1
      simp [hclass] at hread

/-- The text ends in a word that is not the end of a longer name. -/
def EndsIn (word text : List Char) : Prop :=
  word <:+ text ∧ isNameBorder (text.take (text.length - word.length)).getLast? = true

instance (word text : List Char) : Decidable (EndsIn word text) :=
  inferInstanceAs (Decidable (_ ∧ _))

/-- In a string without the characters that follow its word a reader finds nothing, if the string
does not end in the word. -/
theorem FollowedBy.yields_content (h : FollowedBy name inClass read) (hname : IsWord name.toList)
    (hquote : isNameBorder (some quote) = true) (hcontent : ∀ c ∈ content, inClass c = false)
    (hend : ¬EndsIn name.toList content) :
    Yields isNameBorder read (content ++ [quote]) [] := by
  have hword : isWordChar quote = false := by simp_all [isNameBorder]
  intro offset previous rest hprevious
  have hlast : ∀ c ∈ (content ++ [quote]).getLast?, isNameBorder (some c) = true := by
    simpa using hquote
  refine ⟨[], _, starts_getLast?_or hlast hprevious, rfl, ?_⟩
  refine findFrom_of_forall_place (fun front suffix heq hne hstart => ?_) offset
  rcases List.suffix_concat_iff.1 ⟨front, heq⟩ with rfl | ⟨part, rfl, hpart⟩
  · exact absurd rfl hne
  rw [List.append_assoc, List.singleton_append]
  cases hresult : read (part ++ quote :: rest) with
  | none => rfl
  | some result =>
      obtain ⟨-, rfl⟩ :=
        h.eq_of_read hname hword (fun c hc => hcontent c (hpart.subset hc)) hresult
      obtain rfl : front ++ name.toList = content := by
        rw [← List.append_assoc] at heq
        exact List.append_cancel_right heq
      refine absurd ⟨hpart, ?_⟩ hend
      rw [List.length_append, Nat.add_sub_cancel, List.take_left]
      cases hfront : front.getLast? with
      | none => rfl
      | some c => simpa [hfront] using hstart

end Content

end GradleWorkspace.Script
