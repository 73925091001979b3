/-!
# Maps that keep the order of insertion

An `OrderedMap` lists keys with their values.  No key occurs twice.  Setting a new key puts it
at the end; setting a key again keeps its place and replaces its value.
-/

namespace GradleWorkspace

/-- A map from names to values that keeps the order in which the names were first set. -/
structure OrderedMap (β : Type) where
  entries : List (String × β) := []
  nodup_keys : (entries.map Prod.fst).Nodup := by exact List.nodup_nil
  deriving DecidableEq, Repr

namespace OrderedMap

variable {β γ : Type}

/-- The map without keys. -/
def empty : OrderedMap β := {}

instance : Inhabited (OrderedMap β) := ⟨empty⟩

/-- The keys, in the order in which they were first set. -/
def keys (m : OrderedMap β) : List String := m.entries.map Prod.fst

/-- The values, in the order of their keys. -/
def values (m : OrderedMap β) : List β := m.entries.map Prod.snd

/-- The value of a key. -/
def get? (m : OrderedMap β) (key : String) : Option β := m.entries.lookup key

/-- The entries after a key was set. -/
def setEntry (key : String) (value : β) : List (String × β) → List (String × β)
  | [] => [(key, value)]
  | entry :: rest =>
    if entry.1 = key then (key, value) :: rest else entry :: setEntry key value rest

theorem map_fst_setEntry (key : String) (value : β) (entries : List (String × β)) :
    (setEntry key value entries).map Prod.fst =
      if key ∈ entries.map Prod.fst then entries.map Prod.fst
      else entries.map Prod.fst ++ [key] := by
  induction entries with
  | nil => simp [setEntry]
  | cons entry rest ih =>
    by_cases h : entry.1 = key
    · simp [setEntry, h]
    · simp only [setEntry, h, ite_false, List.map_cons, ih, List.mem_cons, Ne.symm h, false_or]
      split <;> simp

/-- Sets a key to a value. -/
def insert (m : OrderedMap β) (key : String) (value : β) : OrderedMap β where
  entries := setEntry key value m.entries
  nodup_keys := by
    have := m.nodup_keys
    rw [map_fst_setEntry]
    split
    · exact this
    · next h =>
      exact List.nodup_append.2 ⟨this, by simp, fun a ha b hb => by
        rintro rfl; exact h (by simp_all)⟩

theorem lookup_setEntry (key other : String) (value : β) (entries : List (String × β)) :
    (setEntry key value entries).lookup other =
      if other = key then some value else entries.lookup other := by
  induction entries with
  | nil => by_cases h : other = key <;> simp [setEntry, h]
  | cons entry rest ih =>
    obtain ⟨name, found⟩ := entry
    simp only [setEntry]
    by_cases hname : name = key
    · subst hname
      by_cases h : other = name
      · subst h
        simp
      · have hne : (other == name) = false := by simpa using h
        simp [List.lookup_cons, h, hne]
    · simp only [hname, ite_false, List.lookup_cons, ih]
      by_cases h : other = name
      · subst h
        simp [hname]
      · have hne : (other == name) = false := by simpa using h
        simp [hne]

theorem lookup_eq_none_of_notMem {key : String} {entries : List (String × β)}
    (h : key ∉ entries.map Prod.fst) : entries.lookup key = none := by
  rw [List.lookup_eq_none_iff]
  intro entry hentry
  have hne : key ≠ entry.1 := fun heq => h (heq ▸ List.mem_map_of_mem hentry)
  simpa using hne

/-- A map gives back the value that was set last, and the values of other keys stay. -/
theorem get?_insert (m : OrderedMap β) (key other : String) (value : β) :
    (m.insert key value).get? other = if other = key then some value else m.get? other :=
  lookup_setEntry key other value m.entries

/-- Setting a key keeps the order of the keys; a new key comes last. -/
theorem keys_insert (m : OrderedMap β) (key : String) (value : β) :
    (m.insert key value).keys = if key ∈ m.keys then m.keys else m.keys ++ [key] :=
  map_fst_setEntry key value m.entries

/-- The map in which the given pairs are set one after the other. -/
def ofList (pairs : List (String × β)) : OrderedMap β :=
  pairs.foldl (fun m (key, value) => m.insert key value) empty

end OrderedMap

end GradleWorkspace
