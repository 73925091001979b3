/-!
# Fields of a text

A separator cuts a text into fields; there is one more field than there are separators.  The
segments are the fields that are not empty.  `map_intercalate_of_forall` puts another separator
between pieces.
-/

namespace GradleWorkspace.Text

/-- The parts of a text before, between and after the separators. -/
def fields (isSeparator : Char → Bool) : List Char → List (List Char)
  | [] => [[]]
  | c :: rest =>
    if isSeparator c then [] :: fields isSeparator rest
    else
      match fields isSeparator rest with
      | [] => [[c]]
      | field :: others => (c :: field) :: others

section

variable {isSeparator : Char → Bool} {text field rest : List Char} {c : Char}

theorem fields_ne_nil (isSeparator : Char → Bool) (text : List Char) :
    fields isSeparator text ≠ [] := by
  fun_cases fields isSeparator text <;> simp

theorem fields_eq_singleton (h : ∀ c ∈ text, isSeparator c = false) :
    fields isSeparator text = [text] := by
  induction text with
  | nil => rfl
  | cons c text ih =>
    rw [fields, ih fun d hd => h d (List.mem_cons_of_mem _ hd), h c List.mem_cons_self]
    rfl

theorem fields_append (h : ∀ d ∈ field, isSeparator d = false) (hc : isSeparator c = true) :
    fields isSeparator (field ++ c :: rest) = field :: fields isSeparator rest := by
  induction field with
  | nil => rw [List.nil_append, fields, if_pos hc]
  | cons d field ih =>
    rw [List.cons_append, fields, ih fun e he => h e (List.mem_cons_of_mem _ he),
      h d List.mem_cons_self]
    rfl

/-- A text has one field, or a field stands before the first separator. -/
theorem forall_or_exists_field (isSeparator : Char → Bool) (text : List Char) :
    (∀ c ∈ text, isSeparator c = false) ∨ ∃ field c rest, text = field ++ c :: rest ∧
      (∀ d ∈ field, isSeparator d = false) ∧ isSeparator c = true := by
  induction text with
  | nil => exact Or.inl (by simp)
  | cons d text ih =>
    cases hd : isSeparator d with
    | true => exact Or.inr ⟨[], d, text, rfl, by simp, hd⟩
    | false =>
      rcases ih with hnone | ⟨field, c, rest, rfl, hfield, hc⟩
      · exact Or.inl (by simpa [hd] using hnone)
      · exact Or.inr ⟨d :: field, c, rest, rfl, by simpa [hd] using hfield, hc⟩

/-- The first field is the whole text, or the others are those after a separator. -/
theorem of_fields_eq_cons {others : List (List Char)}
    (h : fields isSeparator text = field :: others) :
    (∀ c ∈ field, isSeparator c = false) ∧ (others = [] ∧ text = field ∨
      ∃ c rest, text = field ++ c :: rest ∧ isSeparator c = true ∧
        fields isSeparator rest = others) := by
  rcases forall_or_exists_field isSeparator text with hnone | ⟨first, c, rest, rfl, hfirst, hc⟩
  · rw [fields_eq_singleton hnone] at h
    obtain ⟨rfl, rfl⟩ := List.cons.inj h
    exact ⟨hnone, Or.inl ⟨rfl, rfl⟩⟩
  · rw [fields_append hfirst hc] at h
    obtain ⟨rfl, rfl⟩ := List.cons.inj h
    exact ⟨hfirst, Or.inr ⟨c, rest, rfl, hc, rfl⟩⟩

/-- Pieces with a separator between them are the fields of the whole. -/
theorem fields_intercalate {pieces : List (List Char)} (hc : isSeparator c = true)
    (h : ∀ piece ∈ pieces, ∀ d ∈ piece, isSeparator d = false) (hne : pieces ≠ []) :
    fields isSeparator ([c].intercalate pieces) = pieces := by
  induction pieces with
  | nil => exact absurd rfl hne
  | cons first others ih =>
    have hfirst := h first List.mem_cons_self
    cases others with
    | nil => rw [List.intercalate_singleton, fields_eq_singleton hfirst]
    | cons second others =>
      rw [List.intercalate_cons_cons, List.append_assoc, List.singleton_append,
        fields_append hfirst hc, ih (fun piece hpiece => h piece (List.mem_cons_of_mem _ hpiece))
          (List.cons_ne_nil second others)]

end

/-- The non-empty parts of a text between separators. -/
def segments (isSeparator : Char → Bool) (text : String) : List String :=
  ((fields isSeparator text.toList).filter fun field => !field.isEmpty).map String.ofList

section

variable {isSeparator : Char → Bool} {separator : String} {c : Char}

/-- A separator in front of a text makes no segment. -/
theorem segments_append (hseparator : separator.toList = [c]) (hc : isSeparator c = true)
    (text : String) : segments isSeparator (separator ++ text) = segments isSeparator text := by
  rw [segments, segments, String.toList_append, hseparator, List.singleton_append, fields,
    if_pos hc]
  rfl

/-- Pieces that are not empty, with a separator between them, are the segments of the whole. -/
theorem segments_intercalate {pieces : List String} (hseparator : separator.toList = [c])
    (hc : isSeparator c = true) (hne : ∀ piece ∈ pieces, piece.toList ≠ [])
    (h : ∀ piece ∈ pieces, ∀ d ∈ piece.toList, isSeparator d = false) :
    segments isSeparator (separator.intercalate pieces) = pieces := by
  cases pieces with
  | nil => rfl
  | cons first others =>
    have hfields : fields isSeparator ([c].intercalate ((first :: others).map String.toList)) =
        (first :: others).map String.toList :=
      fields_intercalate hc (by simpa using h) (by simp)
    have hall : ((first :: others).map String.toList).filter (fun field => !field.isEmpty) =
        (first :: others).map String.toList := by
      refine List.filter_eq_self.2 fun field hfield => ?_
      obtain ⟨piece, hpiece, rfl⟩ := List.mem_map.1 hfield
      simpa using hne piece hpiece
    rw [segments, String.toList_intercalate, hseparator, hfields, hall, List.map_map]
    simp [Function.comp_def]

end

/-! ## Other separators -/

theorem map_intercalate (f : Char → Char) (separator : List Char) (pieces : List (List Char)) :
    (separator.intercalate pieces).map f =
      (separator.map f).intercalate (pieces.map (List.map f)) := by
  induction pieces with
  | nil => rfl
  | cons first others ih =>
    cases others with
    | nil => simp
    | cons second others =>
      rw [List.intercalate_cons_cons, List.map_append, List.map_append, ih, List.map_cons,
        List.map_cons, List.map_cons, List.intercalate_cons_cons]

/-- A function that leaves all pieces as they are changes the separators between them only. -/
theorem map_intercalate_of_forall {f : Char → Char} {separator other : String}
    {pieces : List String} (hseparator : separator.toList.map f = other.toList)
    (h : ∀ piece ∈ pieces, ∀ c ∈ piece.toList, f c = c) :
    (separator.intercalate pieces).map f = other.intercalate pieces := by
  have hpieces : (pieces.map String.toList).map (List.map f) = pieces.map String.toList := by
    rw [List.map_map]
    refine List.map_congr_left fun piece hpiece => ?_
    exact (List.map_congr_left (h piece hpiece)).trans (List.map_id _)
  rw [← String.toList_inj, String.toList_map, String.toList_intercalate,
    String.toList_intercalate, map_intercalate, hpieces, hseparator]

end GradleWorkspace.Text
