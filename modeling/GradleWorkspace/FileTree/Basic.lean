import GradleWorkspace.OrderedMap

/-!
# File trees

A file tree is a directory with everything below it: files with their bytes, symbolic links
with their targets, and directories.  The members of a directory have distinct names, none of
which has a slash or means a directory on its own.

This module knows only the places in a tree, which are lists of names from its root, and does
not follow links.
-/

namespace GradleWorkspace

/-- Whether a text can be the name of a member of a directory. -/
def isMemberName (name : String) : Bool :=
  name != "" && name != "." && name != ".." && !name.toList.contains '/'

/-- A file, a link or a directory with everything below it. -/
inductive Node
  | file (content : ByteArray)
  | link (target : String)
  | directory (members : List (String × Node))

namespace Node

/-- The directory without members. -/
def empty : Node := .directory []

instance : Inhabited Node := ⟨empty⟩

/-- Whether a node is a directory. -/
def isDirectory : Node → Bool
  | .directory _ => true
  | _ => false

/-- Whether a node is a file. -/
def isFile : Node → Bool
  | .file _ => true
  | _ => false

/-- Whether a node is a link. -/
def isLink : Node → Bool
  | .link _ => true
  | _ => false

/-- The members of a directory; other nodes have none. -/
def members : Node → List (String × Node)
  | .directory members => members
  | _ => []

/-- The node at a place. -/
def get? : Node → List String → Option Node
  | node, [] => some node
  | node, name :: rest => (node.members.lookup name).bind fun child => child.get? rest

/-- The node after another was put at a place.  Directories on the way to it are made; nothing
is put below a file or a link, or under a text that is no name. -/
def put (new : Node) : List String → Node → Node
  | [], _ => new
  | name :: rest, .directory members =>
    if isMemberName name then
      let child := (members.lookup name).getD empty
      .directory (OrderedMap.setEntry name (put new rest child) members)
    else .directory members
  | _ :: _, node => node

/-- The node after everything at a place was removed. -/
def remove : List String → Node → Node
  | [name], .directory members => .directory (members.filter fun member => member.1 ≠ name)
  | name :: rest, .directory members =>
    match members.lookup name with
    | some child => .directory (OrderedMap.setEntry name (remove rest child) members)
    | none => .directory members
  | _, node => node

/-! ## Well-formed nodes -/

mutual

/-- Whether the members of each directory have distinct names that a member can have. -/
def WellFormed : Node → Prop
  | .directory members => (members.map Prod.fst).Nodup ∧ AllWellFormed members
  | _ => True

/-- Whether all members of a directory have names that a member can have, and are well-formed
themselves. -/
def AllWellFormed : List (String × Node) → Prop
  | [] => True
  | (name, child) :: rest => isMemberName name ∧ WellFormed child ∧ AllWellFormed rest

end

theorem allWellFormed_iff {members : List (String × Node)} :
    AllWellFormed members ↔
      ∀ member ∈ members, isMemberName member.1 ∧ WellFormed member.2 := by
  induction members with
  | nil => simp [AllWellFormed]
  | cons member rest ih =>
    obtain ⟨name, child⟩ := member
    simp [AllWellFormed, ih, and_assoc]

theorem wellFormed_empty : WellFormed empty := by simp [empty, WellFormed, AllWellFormed]

/-- A member of a well-formed directory is well-formed, and its name is one that a member can
have. -/
theorem wellFormed_of_lookup {members : List (String × Node)} {name : String} {child : Node}
    (h : AllWellFormed members) (hlookup : members.lookup name = some child) :
    isMemberName name ∧ WellFormed child := by
  obtain ⟨before, after, rfl, -⟩ := List.lookup_eq_some_iff.1 hlookup
  exact allWellFormed_iff.1 h (name, child) (by simp)

theorem allWellFormed_setEntry {members : List (String × Node)} {name : String} {child : Node}
    (h : AllWellFormed members) (hname : isMemberName name) (hchild : WellFormed child) :
    AllWellFormed (OrderedMap.setEntry name child members) := by
  induction members with
  | nil => exact ⟨hname, hchild, trivial⟩
  | cons member rest ih =>
    obtain ⟨n, c⟩ := member
    obtain ⟨hn, hc, hrest⟩ := h
    rw [OrderedMap.setEntry]
    split
    · exact ⟨hname, hchild, hrest⟩
    · exact ⟨hn, hc, ih hrest⟩

theorem wellFormed_setEntry {members : List (String × Node)} {name : String} {child : Node}
    (h : WellFormed (.directory members)) (hname : isMemberName name) (hchild : WellFormed child) :
    WellFormed (.directory (OrderedMap.setEntry name child members)) := by
  obtain ⟨hnodup, hall⟩ := h
  refine ⟨?_, allWellFormed_setEntry hall hname hchild⟩
  rw [OrderedMap.map_fst_setEntry]
  split
  · exact hnodup
  · next hnew =>
    refine List.nodup_append.2 ⟨hnodup, by simp, fun a ha b hb => ?_⟩
    rintro rfl
    exact hnew (by simp_all)

theorem wellFormed_put {new : Node} (hnew : WellFormed new) (place : List String) {node : Node}
    (h : WellFormed node) : WellFormed (put new place node) := by
  induction place generalizing node with
  | nil => exact hnew
  | cons name rest ih =>
    cases node with
    | directory members =>
      rw [put]
      split
      · next hname =>
        refine wellFormed_setEntry h hname (ih ?_)
        cases hlookup : members.lookup name with
        | none => exact wellFormed_empty
        | some child => exact (wellFormed_of_lookup h.2 hlookup).2
      · exact h
    | file _ => trivial
    | link _ => trivial

theorem wellFormed_remove (place : List String) {node : Node} (h : WellFormed node) :
    WellFormed (remove place node) := by
  induction place generalizing node with
  | nil => cases node <;> exact h
  | cons name rest ih =>
    cases node with
    | directory members =>
      cases rest with
      | nil =>
        refine ⟨h.1.sublist (List.filter_sublist.map _), ?_⟩
        exact allWellFormed_iff.2 fun member hmember =>
          allWellFormed_iff.1 h.2 member (List.mem_filter.1 hmember).1
      | cons next rest =>
        simp only [remove]
        split
        · next child hlookup =>
          obtain ⟨hname, hchild⟩ := wellFormed_of_lookup h.2 hlookup
          exact wellFormed_setEntry h hname (ih hchild)
        · exact h
    | file _ => cases rest <;> trivial
    | link _ => cases rest <;> trivial

end Node

/-- A file tree with a current directory. -/
structure FileTree where
  root : Node := .empty
  /-- The place of the current directory. -/
  current : List String := []
  wellFormed : root.WellFormed

namespace FileTree

/-- The tree that holds nothing but its root. -/
def empty : FileTree where
  wellFormed := Node.wellFormed_empty

instance : Inhabited FileTree := ⟨empty⟩

/-- The tree after a file was put at a place. -/
def putFile (tree : FileTree) (place : List String) (content : ByteArray) : FileTree :=
  { tree with
    root := Node.put (.file content) place tree.root
    wellFormed := Node.wellFormed_put (by simp [Node.WellFormed]) place tree.wellFormed }

/-- The tree after a link was put at a place. -/
def putLink (tree : FileTree) (place : List String) (target : String) : FileTree :=
  { tree with
    root := Node.put (.link target) place tree.root
    wellFormed := Node.wellFormed_put (by simp [Node.WellFormed]) place tree.wellFormed }

/-- The tree after an empty directory was put at a place. -/
def putDirectory (tree : FileTree) (place : List String) : FileTree :=
  { tree with
    root := Node.put .empty place tree.root
    wellFormed := Node.wellFormed_put Node.wellFormed_empty place tree.wellFormed }

/-- The tree after everything at a place was removed. -/
def remove (tree : FileTree) (place : List String) : FileTree :=
  { tree with
    root := Node.remove place tree.root
    wellFormed := Node.wellFormed_remove place tree.wellFormed }

end FileTree

end GradleWorkspace
