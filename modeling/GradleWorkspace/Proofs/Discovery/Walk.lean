import Mathlib.Data.List.Lex
import Mathlib.Data.List.Sort
import GradleWorkspace.Discovery
import GradleWorkspace.Proofs.FileTree
import GradleWorkspace.Proofs.OrderedMap

/-!
# Which directories are listed, and in which order

`Node.directories` filters and sorts the members of one directory at a time.  What comes out of it
is a matter of whole paths.

* `Node.mem_directories_iff_isVisible`: a directory is listed if no name on the way to it is left
  out.
* `Node.pairwise_lt_directories`: the paths increase, where paths are compared name by name.
* `Node.directories_congr`: so the list is determined by which places are visible directories.
-/

namespace GradleWorkspace

/-- No name on the way to a place is left out. -/
def IsVisible (exclude place : List String) : Prop := ∀ name ∈ place, isSkipped exclude name = false

@[simp] theorem isVisible_nil (exclude : List String) : IsVisible exclude [] := by simp [IsVisible]

theorem isVisible_cons_iff {exclude : List String} {name : String} {rest : List String} :
    IsVisible exclude (name :: rest) ↔ isSkipped exclude name = false ∧ IsVisible exclude rest :=
  List.forall_mem_cons

namespace Node

theorem sizeOf_lt_of_mem_members {members : List (String × Node)} {member : String × Node}
    (h : member ∈ members) : sizeOf member.2 < sizeOf (directory members) := by
  obtain ⟨name, child⟩ := member
  have hlt := List.sizeOf_lt_of_mem h
  simp only [Prod.mk.sizeOf_spec, directory.sizeOf_spec] at hlt ⊢
  omega

/-- What holds of files and links, and of a directory if it holds of all members, holds of all
nodes. -/
theorem members_induction {motive : Node → Prop} (file : ∀ content, motive (.file content))
    (link : ∀ target, motive (.link target))
    (directory : ∀ members, (∀ member ∈ members, motive member.2) → motive (.directory members)) :
    ∀ node, motive node
  | .file content => file content
  | .link target => link target
  | .directory members =>
      directory members fun member _ => members_induction file link directory member.2
termination_by node => node
decreasing_by exact sizeOf_lt_of_mem_members ‹_›

variable (exclude : List String)

/-! ## Listed directories -/

theorem memberDirectories_eq (members : List (String × Node)) :
    memberDirectories exclude members =
      (members.filter fun member => member.2.isDirectory && !isSkipped exclude member.1).map
        fun member => (member.1, (member.2.directories exclude).map (member.1 :: ·)) := by
  induction members with
  | nil => rw [memberDirectories, List.filter_nil, List.map_nil]
  | cons member rest ih =>
      obtain ⟨name, child⟩ := member
      rw [memberDirectories, List.filter_cons]
      by_cases h : (child.isDirectory && !isSkipped exclude name) = true
      · rw [if_pos h, if_pos h, List.map_cons, ih]
      · rw [if_neg h, if_neg h, ih]

/-- Directories are listed for the members that are directories and not left out, and those that
are listed are the ones below them. -/
theorem mem_memberDirectories_iff {members : List (String × Node)}
    {entry : String × List (List String)} :
    entry ∈ memberDirectories exclude members ↔ ∃ child, (entry.1, child) ∈ members ∧
      child.isDirectory = true ∧ isSkipped exclude entry.1 = false ∧
      entry.2 = (child.directories exclude).map (entry.1 :: ·) := by
  rw [memberDirectories_eq, List.mem_map]
  constructor
  · rintro ⟨⟨name, child⟩, hmember, rfl⟩
    rw [List.mem_filter, Bool.and_eq_true, Bool.not_eq_true'] at hmember
    exact ⟨child, hmember.1, hmember.2.1, hmember.2.2, rfl⟩
  · rintro ⟨child, hchild, hdirectory, hskipped, heq⟩
    have hmember : (entry.1, child) ∈
        members.filter fun member => member.2.isDirectory && !isSkipped exclude member.1 :=
      List.mem_filter.2 ⟨hchild, by simp [hdirectory, hskipped]⟩
    exact ⟨_, hmember, Prod.ext rfl heq.symm⟩

/-- The paths listed for a member begin with its name. -/
theorem exists_eq_cons_of_mem_memberDirectories {members : List (String × Node)}
    {entry : String × List (List String)} (hentry : entry ∈ memberDirectories exclude members)
    {place : List String} (hplace : place ∈ entry.2) : ∃ rest, place = entry.1 :: rest := by
  obtain ⟨child, -, -, -, heq⟩ := (mem_memberDirectories_iff exclude).1 hentry
  rw [heq] at hplace
  obtain ⟨rest, -, rfl⟩ := List.mem_map.1 hplace
  exact ⟨rest, rfl⟩

theorem names_memberDirectories_sublist (members : List (String × Node)) :
    ((memberDirectories exclude members).map Prod.fst).Sublist (members.map Prod.fst) := by
  rw [memberDirectories_eq, List.map_map]
  exact List.filter_sublist.map Prod.fst

theorem mem_directories_iff {members : List (String × Node)} {place : List String} :
    place ∈ (directory members).directories exclude ↔
      place = [] ∨ ∃ entry ∈ memberDirectories exclude members, place ∈ entry.2 := by
  rw [directories, List.mem_cons, List.mem_flatMap]
  simp only [List.mem_mergeSort]

theorem isDirectory_of_mem_directories {node : Node} {place : List String}
    (h : place ∈ node.directories exclude) : node.isDirectory = true := by
  cases node with
  | directory members => rfl
  | file content => simp [directories] at h
  | link target => simp [directories] at h

theorem cons_mem_directories_iff {members : List (String × Node)} {name : String}
    {rest : List String} :
    name :: rest ∈ (directory members).directories exclude ↔ ∃ child, (name, child) ∈ members ∧
      isSkipped exclude name = false ∧ rest ∈ child.directories exclude := by
  rw [mem_directories_iff]
  constructor
  · rintro (hnil | ⟨entry, hentry, hmem⟩)
    · simp at hnil
    · obtain ⟨child, hchild, -, hskipped, heq⟩ := (mem_memberDirectories_iff exclude).1 hentry
      rw [heq] at hmem
      obtain ⟨below, hbelow, hcons⟩ := List.mem_map.1 hmem
      obtain ⟨rfl, rfl⟩ := List.cons.inj hcons
      exact ⟨child, hchild, hskipped, hbelow⟩
  · rintro ⟨child, hchild, hskipped, hrest⟩
    have hentry : (name, (child.directories exclude).map (name :: ·)) ∈
        memberDirectories exclude members :=
      (mem_memberDirectories_iff exclude).2
        ⟨child, hchild, isDirectory_of_mem_directories exclude hrest, hskipped, rfl⟩
    exact Or.inr ⟨_, hentry, List.mem_map_of_mem hrest⟩

/-- A place is listed if there is a directory, and no name on the way to it is left out. -/
theorem mem_directories_iff_isVisible {node : Node} (h : node.WellFormed) {place : List String} :
    place ∈ node.directories exclude ↔
      (node.get? place).any isDirectory = true ∧ IsVisible exclude place := by
  induction place generalizing node with
  | nil =>
      cases node <;> simp [directories, isDirectory]
  | cons name rest ih =>
      cases node with
      | file content => simp [directories, get?, Node.members]
      | link target => simp [directories, get?, Node.members]
      | directory members =>
          rw [cons_mem_directories_iff, isVisible_cons_iff, get?, Node.members]
          constructor
          · rintro ⟨child, hchild, hskipped, hrest⟩
            obtain ⟨hdirectory, hvisible⟩ := (ih (allWellFormed_iff.1 h.2 _ hchild).2).1 hrest
            rw [(lookup_eq_some_iff_mem h.1).2 hchild]
            exact ⟨hdirectory, hskipped, hvisible⟩
          · rintro ⟨hdirectory, hskipped, hvisible⟩
            cases hlookup : members.lookup name with
            | none => simp [hlookup] at hdirectory
            | some child =>
                rw [hlookup] at hdirectory
                exact ⟨child, (lookup_eq_some_iff_mem h.1).1 hlookup, hskipped,
                  (ih (wellFormed_of_lookup h.2 hlookup).2).2 ⟨hdirectory, hvisible⟩⟩

/-- The names on the way to a listed directory are names of members. -/
theorem isMemberName_of_mem_directories {node : Node} (h : node.WellFormed)
    {place : List String} (hplace : place ∈ node.directories exclude) :
    ∀ name ∈ place, isMemberName name := by
  induction place generalizing node with
  | nil => simp
  | cons name rest ih =>
      cases node with
      | file content => simp [directories] at hplace
      | link target => simp [directories] at hplace
      | directory members =>
          obtain ⟨child, hchild, -, hrest⟩ := (cons_mem_directories_iff exclude).1 hplace
          obtain ⟨hname, hwell⟩ := allWellFormed_iff.1 h.2 _ hchild
          exact List.forall_mem_cons.2 ⟨hname, ih hwell hrest⟩

/-! ## Their order -/

/-- The directories are listed in the order of their paths. -/
theorem pairwise_lt_directories {node : Node} (h : node.WellFormed) :
    (node.directories exclude).Pairwise (· < ·) := by
  induction node using members_induction with
  | file content => simp [directories]
  | link target => simp [directories]
  | directory members ih =>
      have hnames : ((memberDirectories exclude members).map Prod.fst).Nodup :=
        h.1.sublist (names_memberDirectories_sublist exclude members)
      have hsorted := pairwise_lt_mergeSort Prod.fst hnames
      rw [directories, List.pairwise_cons, List.pairwise_flatMap]
      simp only [List.mem_flatMap, List.mem_mergeSort]
      refine ⟨?_, ?_, ?_⟩
      · rintro place ⟨entry, hentry, hplace⟩
        obtain ⟨rest, rfl⟩ := exists_eq_cons_of_mem_memberDirectories exclude hentry hplace
        exact List.nil_lt_cons _ _
      · intro entry hentry
        obtain ⟨child, hchild, -, -, heq⟩ := (mem_memberDirectories_iff exclude).1 hentry
        rw [heq, List.pairwise_map]
        exact (ih _ hchild (allWellFormed_iff.1 h.2 _ hchild).2).imp fun hlt =>
          List.cons_lt_cons_iff.2 (Or.inr ⟨rfl, hlt⟩)
      · refine hsorted.imp_of_mem fun hfirst hsecond hlt place hplace other hother => ?_
        obtain ⟨rest, rfl⟩ := exists_eq_cons_of_mem_memberDirectories exclude
          (List.mem_mergeSort.1 hfirst) hplace
        obtain ⟨rest', rfl⟩ := exists_eq_cons_of_mem_memberDirectories exclude
          (List.mem_mergeSort.1 hsecond) hother
        exact List.cons_lt_cons_iff.2 (Or.inl hlt)

/-- No directory is listed twice. -/
theorem nodup_directories {node : Node} (h : node.WellFormed) :
    (node.directories exclude).Nodup :=
  (pairwise_lt_directories exclude h).nodup

/-- What is listed is determined by the visible directories. -/
theorem directories_congr {node node' : Node} (h : node.WellFormed) (h' : node'.WellFormed)
    (hsame : ∀ place, IsVisible exclude place →
      (node.get? place).any isDirectory = (node'.get? place).any isDirectory) :
    node.directories exclude = node'.directories exclude := by
  refine (pairwise_lt_directories exclude h).eq_of_mem_iff (pairwise_lt_directories exclude h') ?_
  intro place
  rw [mem_directories_iff_isVisible exclude h, mem_directories_iff_isVisible exclude h']
  exact and_congr_left fun hvisible => by rw [hsame place hvisible]

end Node

end GradleWorkspace
