import Mathlib.Data.List.Induction
import Mathlib.Data.List.Nodup
import Mathlib.Data.String.Basic
import GradleWorkspace.OrderedMap

/-!
# Keys and values of maps

`OrderedMap.entries_ofList` says that setting distinct keys one after the other lists them as they
are, and `OrderedMap.get?_eq_some_iff` that a value is found under its key.

Keys may also be set again.  `OrderedMap.keys_ofList` says that each key stands where it was set
first, and `OrderedMap.get?_ofList_map` that it has the value that was set last.

Where the order of insertion does not matter, items are sorted by distinct keys, and
`pairwise_lt_mergeSort` says that the keys increase.
-/

namespace GradleWorkspace

theorem lookup_map_of_mem {α β : Type} (key : α → String) (value : α → β) {items : List α}
    (hnodup : (items.map key).Nodup) {item : α} (h : item ∈ items) :
    (items.map fun item => (key item, value item)).lookup (key item) = some (value item) := by
  induction items with
  | nil => simp at h
  | cons first rest ih =>
      obtain ⟨hfirst, hrest⟩ := List.nodup_cons.1 hnodup
      rw [List.map_cons, List.lookup_cons]
      rcases List.mem_cons.1 h with rfl | hmem
      · simp
      · have hne : key item ≠ key first :=
          ne_of_mem_of_not_mem (List.mem_map_of_mem hmem) hfirst
        rw [beq_false_of_ne hne]
        exact ih hrest hmem

theorem lookup_map_eq_find? {α β : Type} (key : α → String) (value : α → β) (items : List α)
    (name : String) : (items.map fun item => (key item, value item)).lookup name =
      (items.find? fun item => key item = name).map value := by
  induction items with
  | nil => rfl
  | cons first rest ih =>
      rw [List.map_cons, List.lookup_cons, List.find?_cons]
      by_cases h : key first = name
      · simp [h]
      · rw [beq_false_of_ne (Ne.symm h), decide_eq_false h]
        exact ih

theorem lookup_eq_some_iff_mem {β : Type} {entries : List (String × β)}
    (h : (entries.map Prod.fst).Nodup) {key : String} {value : β} :
    entries.lookup key = some value ↔ (key, value) ∈ entries := by
  constructor
  · intro hlookup
    obtain ⟨before, after, rfl, -⟩ := List.lookup_eq_some_iff.1 hlookup
    simp
  · intro hmem
    simpa using lookup_map_of_mem Prod.fst Prod.snd h hmem

/-- Items that are sorted by distinct keys have increasing keys. -/
theorem pairwise_lt_mergeSort {α : Type} (key : α → String) {items : List α}
    (h : (items.map key).Nodup) :
    (items.mergeSort fun a b => key a ≤ key b).Pairwise fun a b => key a < key b := by
  have hperm := List.mergeSort_perm items fun a b => key a ≤ key b
  have hle : (items.mergeSort fun a b => key a ≤ key b).Pairwise
      fun a b => decide (key a ≤ key b) = true :=
    List.pairwise_mergeSort
      (by simpa using fun a b c => @String.le_trans (key a) (key b) (key c))
      (by simpa using fun a b => String.le_total (key a) (key b)) items
  have hne : (items.mergeSort fun a b => key a ≤ key b).Pairwise fun a b => key a ≠ key b :=
    List.pairwise_map.1 ((hperm.map key).nodup_iff.2 h)
  exact (hle.and hne).imp fun hab => lt_of_le_of_ne (of_decide_eq_true hab.1) hab.2

namespace OrderedMap

variable {β : Type}

theorem eq_or_mem_of_mem_setEntry {key : String} {value : β} {entries : List (String × β)}
    {entry : String × β} (h : entry ∈ setEntry key value entries) :
    entry = (key, value) ∨ entry ∈ entries := by
  induction entries with
  | nil => exact Or.inl (List.mem_singleton.1 h)
  | cons first rest ih =>
      rw [setEntry] at h
      split at h
      · exact (List.mem_cons.1 h).imp_right (List.mem_cons_of_mem _)
      · rcases List.mem_cons.1 h with rfl | hrest
        · exact Or.inr List.mem_cons_self
        · exact (ih hrest).imp_right (List.mem_cons_of_mem _)

theorem setEntry_of_notMem {key : String} {entries : List (String × β)} (value : β)
    (h : key ∉ entries.map Prod.fst) : setEntry key value entries = entries ++ [(key, value)] := by
  induction entries with
  | nil => rfl
  | cons entry rest ih =>
      simp only [List.map_cons, List.mem_cons, not_or] at h
      rw [setEntry, if_neg (Ne.symm h.1), ih h.2]
      rfl

theorem entries_foldl_insert (pairs : List (String × β)) {m : OrderedMap β}
    (h : ((m.entries ++ pairs).map Prod.fst).Nodup) :
    (pairs.foldl (fun m (key, value) => m.insert key value) m).entries = m.entries ++ pairs := by
  induction pairs generalizing m with
  | nil => simp
  | cons pair rest ih =>
      have hnew : pair.1 ∉ m.entries.map Prod.fst := by
        intro hmem
        rw [List.map_append, List.nodup_append] at h
        exact h.2.2 _ hmem pair.1 (by simp) rfl
      have hinsert : (m.insert pair.1 pair.2).entries = m.entries ++ [pair] :=
        setEntry_of_notMem pair.2 hnew
      have hrest : (((m.insert pair.1 pair.2).entries ++ rest).map Prod.fst).Nodup := by
        rw [hinsert, List.append_assoc]
        exact h
      rw [List.foldl_cons, ih hrest, hinsert, List.append_assoc]
      rfl

/-- Setting distinct keys one after the other lists them in this order. -/
theorem entries_ofList {pairs : List (String × β)} (h : (pairs.map Prod.fst).Nodup) :
    (ofList pairs).entries = pairs :=
  entries_foldl_insert pairs (m := empty) h

/-- A map is given by its entries. -/
theorem ofList_entries (m : OrderedMap β) : ofList m.entries = m := by
  have hentries := entries_ofList m.nodup_keys
  cases hmap : ofList m.entries with
  | mk entries nodup_keys =>
      rw [hmap] at hentries
      cases m
      subst hentries
      rfl

theorem ofList_concat (pairs : List (String × β)) (pair : String × β) :
    ofList (pairs ++ [pair]) = (ofList pairs).insert pair.1 pair.2 := by
  rw [ofList, List.foldl_append]
  rfl

/-- Keys are listed in the order in which they were set first. -/
theorem keys_ofList (pairs : List (String × β)) :
    (ofList pairs).keys = (pairs.map Prod.fst).eraseDups := by
  induction pairs using List.reverseRecOn with
  | nil => rfl
  | append_singleton pairs pair ih =>
      have hmem : pair.1 ∈ (pairs.map Prod.fst).eraseDups ↔ pair.1 ∈ pairs.map Prod.fst :=
        List.mem_eraseDups
      rw [ofList_concat, keys_insert, ih, List.map_append, List.map_singleton,
        List.eraseDups_append]
      by_cases h : pair.1 ∈ pairs.map Prod.fst
      · rw [if_pos (hmem.2 h)]
        simp [List.removeAll, h]
      · have hnew : [pair.1].removeAll (pairs.map Prod.fst) = [pair.1] := by
          simp [List.removeAll, h]
        rw [if_neg (mt hmem.1 h), hnew]
        rfl

theorem get?_ofList (pairs : List (String × β)) (key : String) :
    (ofList pairs).get? key = pairs.reverse.lookup key := by
  induction pairs using List.reverseRecOn with
  | nil => rfl
  | append_singleton pairs pair ih =>
      rw [ofList_concat, get?_insert, ih, List.reverse_append, List.reverse_singleton,
        List.singleton_append, List.lookup_cons]
      by_cases h : key = pair.1
      · simp [h]
      · rw [if_neg h, beq_false_of_ne h]

/-- A key has the value that was set last. -/
theorem get?_ofList_map {α : Type} (key : α → String) (value : α → β) (items : List α)
    (name : String) : (ofList (items.map fun item => (key item, value item))).get? name =
      (items.reverse.find? fun item => key item = name).map value := by
  rw [get?_ofList, ← List.map_reverse, lookup_map_eq_find?]

theorem get?_eq_some_iff {m : OrderedMap β} {key : String} {value : β} :
    m.get? key = some value ↔ (key, value) ∈ m.entries :=
  lookup_eq_some_iff_mem m.nodup_keys

/-- A map has no entries but those that were set. -/
theorem mem_of_mem_entries_ofList {pairs : List (String × β)} {entry : String × β}
    (h : entry ∈ (ofList pairs).entries) : entry ∈ pairs := by
  have hlookup : pairs.reverse.lookup entry.1 = some entry.2 := by
    rw [← get?_ofList]
    exact get?_eq_some_iff.2 h
  obtain ⟨before, after, hsplit, -⟩ := List.lookup_eq_some_iff.1 hlookup
  rw [← List.mem_reverse, hsplit]
  exact List.mem_append_right before List.mem_cons_self

end OrderedMap

end GradleWorkspace
