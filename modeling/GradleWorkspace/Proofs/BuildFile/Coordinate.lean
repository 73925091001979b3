import GradleWorkspace.Proofs.BuildFile.Form
import GradleWorkspace.Text.Fields

/-!
# Coordinates of artifacts

* `coordinateIn?` says which strings are coordinates: those with just three fields, none of them
  empty (`coordinateIn?_eq_some_iff`).
* `readCoordinate_inQuotes` says that a string in quotes is read as a coordinate just if it is one.
-/

namespace GradleWorkspace.BuildFile

open Script Text

/-! ## Which strings are coordinates -/

/-- Group, artifact and version, if a text consists of just three fields, none of them empty. -/
def coordinateIn? (text : List Char) : Option (String × String × String) :=
  match fields (· == ':') text with
  | [group, artifact, version] =>
    if group = [] ∨ artifact = [] ∨ version = [] then none
    else some (String.ofList group, String.ofList artifact, String.ofList version)
  | _ => none

/-- A segment of a coordinate: not empty, and without a colon. -/
def IsSegment (text : String) : Prop := text.toList ≠ [] ∧ ∀ c ∈ text.toList, (c == ':') = false

/-- A text is a coordinate just if it is made of three segments with colons between them. -/
theorem coordinateIn?_eq_some_iff {text : String} {group artifact version : String} :
    coordinateIn? text.toList = some (group, artifact, version) ↔
      text = coordinate group artifact version ∧
        IsSegment group ∧ IsSegment artifact ∧ IsSegment version := by
  constructor
  · intro h
    rw [coordinateIn?] at h
    split at h
    · next g a v hfields =>
      split at h
      · simp at h
      · next hne =>
        obtain ⟨hg, ⟨hempty, -⟩ | ⟨c, rest, htext, hc, hfields⟩⟩ := of_fields_eq_cons hfields
        · simp at hempty
        obtain ⟨ha, ⟨hempty, -⟩ | ⟨d, last, hrest, hd, hfields⟩⟩ := of_fields_eq_cons hfields
        · simp at hempty
        obtain ⟨hv, ⟨-, hlast⟩ | ⟨_, _, -, -, hfields⟩⟩ := of_fields_eq_cons hfields
        · obtain rfl : c = ':' := by simpa using hc
          obtain rfl : d = ':' := by simpa using hd
          simp only [not_or] at hne
          simp only [Option.some.injEq, Prod.mk.injEq] at h
          obtain ⟨rfl, rfl, rfl⟩ := h
          have heq : text.toList = (coordinate (String.ofList g) (String.ofList a)
              (String.ofList v)).toList := by simp [coordinate, htext, hrest, hlast]
          refine ⟨String.toList_inj.1 heq, ?_, ?_, ?_⟩ <;> rw [IsSegment, String.toList_ofList]
          · exact ⟨hne.1, hg⟩
          · exact ⟨hne.2.1, ha⟩
          · exact ⟨hne.2.2, hv⟩
        · exact absurd hfields (fields_ne_nil _ _)
    · simp at h
  · rintro ⟨rfl, hgroup, hartifact, hversion⟩
    have hshape : (coordinate group artifact version).toList =
        group.toList ++ ':' :: (artifact.toList ++ ':' :: version.toList) := by
      simp [coordinate]
    rw [hshape, coordinateIn?, fields_append hgroup.2 rfl, fields_append hartifact.2 rfl,
      fields_eq_singleton hversion.2]
    simp [hgroup.1, hartifact.1, hversion.1]

theorem coordinateIn?_eq_none {content : List Char} (h : content.head? = some ':') :
    coordinateIn? content = none := by
  obtain ⟨rest, rfl⟩ : ∃ rest, content = ':' :: rest := by
    cases content with
    | nil => simp at h
    | cons c rest => exact ⟨rest, by simpa using h⟩
  rw [coordinateIn?, fields, if_pos (by decide)]
  split
  · next heq => simp_all
  · rfl

/-! ## Reading a coordinate -/

section Segments

variable {field : List Char} {quote : Char}

theorem run_segment {c : Char} (hfield : ∀ c ∈ field, isLiteralChar c = true)
    (hcolon : ∀ c ∈ field, (c == ':') = false) (hc : isSegmentChar c = false)
    (text : List Char) :
    run isSegmentChar (field ++ c :: text) =
      if field = [] then none else some (field, c :: text) := by
  split
  · next hempty => rw [hempty, List.nil_append, run_cons_eq_none hc]
  · next hne =>
    refine run_append (fun d hd => ?_) hne hc
    have hquote := isQuote_of_isLiteralChar (hfield d hd)
    have hblank := isBlank_of_isLiteralChar (hfield d hd)
    simp [isSegmentChar, hquote, hblank, hcolon d hd]

theorem isSegmentChar_quote (hquote : isQuote quote = true) : isSegmentChar quote = false := by
  simp [isSegmentChar, hquote]

/-- A segment before a colon is read if it is not empty. -/
theorem segment_colon_append {α : Type} (hfield : ∀ c ∈ field, isLiteralChar c = true)
    (hcolon : ∀ c ∈ field, (c == ':') = false) (text : List Char)
    (go : List Char → List Char → Option α) :
    ((run isSegmentChar (field ++ ':' :: text)).bind fun found =>
      (after ":" found.2).bind (go found.1)) = if field = [] then none else go field text := by
  have hafter : after ":" (':' :: text) = some text := after_append ":" text
  rw [run_segment hfield hcolon (by decide)]
  split
  · rfl
  · simp [hafter]

/-- No colon is read after the last segment. -/
theorem segment_quote_append {α : Type} (hfield : ∀ c ∈ field, isLiteralChar c = true)
    (hcolon : ∀ c ∈ field, (c == ':') = false) (hquote : isQuote quote = true) (text : List Char)
    (go : List Char → List Char → Option α) :
    ((run isSegmentChar (field ++ quote :: text)).bind fun found =>
      (after ":" found.2).bind (go found.1)) = none := by
  have hne : quote ≠ ':' := by rintro rfl; simp [isQuote] at hquote
  have hafter : after ":" (quote :: text) = none := after_eq_none (by simp [Ne.symm hne])
  rw [run_segment hfield hcolon (isSegmentChar_quote hquote)]
  split
  · rfl
  · simp [hafter]

end Segments

/-- What is read of a coordinate after its first two segments. -/
def readVersion (group artifact : List Char) (text : List Char) :
    Option ((String × String × String) × List Char) :=
  (run isSegmentChar text).bind fun found =>
    match found.2 with
    | [] => none
    | c :: rest =>
      if isQuote c then
        some ((String.ofList group, String.ofList artifact, String.ofList found.1), rest)
      else none

/-- What is read of a coordinate after its first segment. -/
def readArtifact (group : List Char) (text : List Char) :
    Option ((String × String × String) × List Char) :=
  (run isSegmentChar text).bind fun found => (after ":" found.2).bind (readVersion group found.1)

theorem readCoordinate_cons {quote : Char} (hquote : isQuote quote = true) (text : List Char) :
    readCoordinate (quote :: text) = (run isSegmentChar text).bind fun found =>
      (after ":" found.2).bind (readArtifact found.1) := by
  rw [readCoordinate, if_pos hquote]
  rfl

/-- A string in quotes is read as a coordinate just if it is one. -/
theorem readCoordinate_inQuotes {quote : Char} {content : List Char}
    (hquote : isQuote quote = true) (hcontent : ∀ c ∈ content, isLiteralChar c = true)
    (rest : List Char) :
    readCoordinate (inQuotes quote content ++ rest) =
      (coordinateIn? content).map fun segments => (segments, rest) := by
  have hshape : inQuotes quote content ++ rest = quote :: (content ++ quote :: rest) := by
    simp [inQuotes]
  rw [hshape, readCoordinate_cons hquote, coordinateIn?]
  -- The content has one, two, three or more fields.
  rcases forall_or_exists_field (· == ':') content with hone | ⟨f1, c1, r1, rfl, h1, hc1⟩
  · rw [segment_quote_append hcontent hone hquote rest readArtifact, fields_eq_singleton hone]
    rfl
  obtain rfl : c1 = ':' := by simpa using hc1
  rw [List.append_assoc, List.cons_append, fields_append h1 rfl, segment_colon_append
    (fun c hc => hcontent c (by simp [hc])) h1 (r1 ++ quote :: rest) readArtifact, readArtifact]
  rcases forall_or_exists_field (· == ':') r1 with htwo | ⟨f2, c2, r2, rfl, h2, hc2⟩
  · rw [segment_quote_append (fun c hc => hcontent c (by simp [hc])) htwo hquote rest
      (readVersion f1), fields_eq_singleton htwo, ite_self]
    rfl
  obtain rfl : c2 = ':' := by simpa using hc2
  rw [List.append_assoc, List.cons_append, fields_append h2 rfl, segment_colon_append
    (fun c hc => hcontent c (by simp [hc])) h2 (r2 ++ quote :: rest) (readVersion f1), readVersion]
  rcases forall_or_exists_field (· == ':') r2 with hthree | ⟨f3, c3, r3, rfl, h3, hc3⟩
  · rw [run_segment (fun c hc => hcontent c (by simp [hc])) hthree
      (isSegmentChar_quote hquote), fields_eq_singleton hthree]
    split_ifs <;> simp_all
  · obtain rfl : c3 = ':' := by simpa using hc3
    obtain ⟨f4, others, hothers⟩ := List.exists_cons_of_ne_nil (fields_ne_nil (· == ':') r3)
    have hcolon : isQuote ':' = false := by decide
    rw [List.append_assoc, List.cons_append,
      run_segment (fun c hc => hcontent c (by simp [hc])) h3 (by decide), fields_append h3 rfl,
      hothers]
    split_ifs <;> simp [hcolon]

end GradleWorkspace.BuildFile
