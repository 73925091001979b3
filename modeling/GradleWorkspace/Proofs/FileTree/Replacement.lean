import GradleWorkspace.Proofs.FileTree.LinkFree

/-!
# Replacing the bytes of a file

Where other bytes are put in place of those of a file, nothing else changes: at every other place
there is a file with the same bytes, or a directory, or nothing, as before.

* `Node.map_get?_put` says so of any view that does not look at the members of a directory.
* `FileTree.SameBut` is what is known of the tree with other bytes (`FileTree.sameBut_putFile`).
* `FileTree.writeIn_absolute` is about writing to the path of a file in a tree without links.
-/

namespace GradleWorkspace

namespace Node

variable {α : Type} {root : Node} {place : List String} {old new : ByteArray}

/-- A view of the nodes that tells no directories apart sees no change at any place, but for that of
the file. -/
theorem map_get?_put (view : Node → α)
    (hview : ∀ members others, view (.directory members) = view (.directory others))
    (hroot : root.WellFormed) (hfile : root.get? place = some (.file old)) {other : List String}
    (hother : other = place → view (.file new) = view (.file old)) :
    ((put (.file new) place root).get? other).map view = (root.get? other).map view := by
  induction place generalizing root other with
  | nil =>
      obtain rfl := Option.some.inj ((get?_nil root).symm.trans hfile)
      cases other with
      | nil => simpa [put] using hother rfl
      | cons name rest => rfl
  | cons name rest ih =>
      obtain ⟨members, child, rfl, hlookup, hchild⟩ := get?_cons_eq_some_iff.1 hfile
      obtain ⟨hname, hwell⟩ := wellFormed_of_lookup hroot.2 hlookup
      rw [put, if_pos hname, hlookup, Option.getD_some]
      cases other with
      | nil => simpa using hview _ members
      | cons first others =>
          rw [get?, get?, Node.members, Node.members, OrderedMap.lookup_setEntry]
          by_cases hfirst : first = name
          · subst hfirst
            rw [if_pos rfl, hlookup, Option.bind_some, Option.bind_some]
            exact ih hwell hchild fun heq => hother (by rw [heq])
          · rw [if_neg hfirst]

end Node

namespace FileTree

variable {tree : FileTree} {place : List String} {old : ByteArray}

theorem any_isDirectory_putFile (hfile : tree.root.get? place = some (.file old))
    (content : ByteArray) (other : List String) :
    ((tree.putFile place content).root.get? other).any Node.isDirectory =
      (tree.root.get? other).any Node.isDirectory := by
  have hmap : ∀ found : Option Node,
      found.any Node.isDirectory = (found.map Node.isDirectory).getD false := by
    rintro (_ | node) <;> rfl
  have hsame : ((tree.putFile place content).root.get? other).map Node.isDirectory =
      (tree.root.get? other).map Node.isDirectory :=
    Node.map_get?_put Node.isDirectory (fun _ _ => rfl) tree.wellFormed hfile fun _ => rfl
  rw [hmap, hmap]
  exact congrArg (Option.getD · false) hsame

theorem content?_putFile_of_ne (hfile : tree.root.get? place = some (.file old))
    (content : ByteArray) {other : List String} (hother : other ≠ place) :
    ((tree.putFile place content).root.get? other).bind Node.content? =
      (tree.root.get? other).bind Node.content? := by
  have hmap : ∀ found : Option Node,
      found.bind Node.content? = (found.map Node.content?).join := by
    rintro (_ | node) <;> rfl
  have hsame : ((tree.putFile place content).root.get? other).map Node.content? =
      (tree.root.get? other).map Node.content? :=
    Node.map_get?_put Node.content? (fun _ _ => rfl) tree.wellFormed hfile
      fun heq => absurd heq hother
  rw [hmap, hmap]
  exact congrArg Option.join hsame

/-- Another tree has given bytes in the file at a place, and there is no other difference that could
be seen in a tree without links. -/
structure SameBut (place : List String) (content : ByteArray) (tree tree' : FileTree) : Prop where
  current : tree'.current = tree.current
  linkFree : tree'.root.LinkFree
  directories : ∀ other, (tree'.root.get? other).any Node.isDirectory =
    (tree.root.get? other).any Node.isDirectory
  elsewhere : ∀ other, other ≠ place → (tree'.root.get? other).bind Node.content? =
    (tree.root.get? other).bind Node.content?
  isFile : ((tree.root.get? place).bind Node.content?).isSome
  content : (tree'.root.get? place).bind Node.content? = some content

theorem sameBut_self (hlinks : tree.root.LinkFree)
    (hfile : tree.root.get? place = some (.file old)) : SameBut place old tree tree where
  current := rfl
  linkFree := hlinks
  directories _ := rfl
  elsewhere _ _ := rfl
  isFile := by rw [hfile]; rfl
  content := by rw [hfile]; rfl

/-- Putting other bytes in a file makes no other difference. -/
theorem sameBut_putFile (hlinks : tree.root.LinkFree)
    (hfile : tree.root.get? place = some (.file old)) (content : ByteArray) :
    SameBut place content tree (tree.putFile place content) where
  current := rfl
  linkFree := linkFree_putFile hlinks place content
  directories := any_isDirectory_putFile hfile content
  elsewhere _ hother := content?_putFile_of_ne hfile content hother
  isFile := by rw [hfile]; rfl
  content := by
    have hplace : (tree.putFile place content).root.get? place = some (.file content) :=
      (Node.Takes.file hfile).get?_put tree.wellFormed _
    rw [hplace]
    rfl

section SameBut

variable {content : ByteArray} {tree' : FileTree} {other : List String}

theorem SameBut.bytes?_self (h : SameBut place content tree tree')
    (hplain : ∀ segment ∈ place, Path.IsPlain segment) :
    tree'.bytes? (.absolute place) = some content := by
  rw [bytes?_absolute h.linkFree hplain, h.content]

theorem SameBut.bytes?_of_ne (h : SameBut place content tree tree') (hlinks : tree.root.LinkFree)
    (hplain : ∀ segment ∈ other, Path.IsPlain segment) (hother : other ≠ place) :
    tree'.bytes? (.absolute other) = tree.bytes? (.absolute other) := by
  rw [bytes?_absolute h.linkFree hplain, bytes?_absolute hlinks hplain, h.elsewhere other hother]

theorem SameBut.resolve?_eq (h : SameBut place content tree tree') (hlinks : tree.root.LinkFree)
    (path : Path) : tree'.resolve? path = tree.resolve? path := by
  rw [FileTree.resolve?_eq h.linkFree, FileTree.resolve?_eq hlinks, start, start, h.current]

/-- There are files under the same names. -/
theorem SameBut.isFile_eq (h : SameBut place content tree tree') (hlinks : tree.root.LinkFree)
    (hplain : ∀ segment ∈ other, Path.IsPlain segment) :
    tree'.isFile (.absolute other) = tree.isFile (.absolute other) := by
  rw [FileTree.isFile_eq, FileTree.isFile_eq]
  by_cases hother : other = place
  · subst hother
    rw [h.bytes?_self hplain, bytes?_absolute hlinks hplain, h.isFile]
    rfl
  · rw [h.bytes?_of_ne hlinks hplain hother]

end SameBut

/-- What is written to the path of a file is put at its place. -/
theorem writeIn_absolute (hlinks : tree.root.LinkFree)
    (hfile : tree.root.get? place = some (.file old)) (content : ByteArray)
    (hplain : ∀ segment ∈ place, Path.IsPlain segment) :
    tree.writeIn (.absolute place) content = { tree := tree.putFile place content } := by
  have hfound : (tree.lookup (.absolute place)).found? = some (place, .file old) := by
    have hlookup := Node.found?_lookup maxLinks [] hplain fun above _ _ =>
      hlinks.get?_ne_link ([] ++ above)
    rwa [List.nil_append, hfile] at hlookup
  unfold writeIn
  cases hlookup : tree.lookup (.absolute place) with
  | found there node =>
      rw [hlookup] at hfound
      obtain ⟨rfl, rfl⟩ := Prod.mk.inj (Option.some.inj hfound)
      rfl
  | vacant | missing | notDirectory | tooManyLinks => simp [hlookup, Lookup.found?] at hfound

end FileTree

end GradleWorkspace
