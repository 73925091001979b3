import GradleWorkspace.Proofs.FileTree.LinkFree

/-!
# Paths below a directory

A path that goes on from a directory through names leads to what is below the directory, as long as
it meets no link there.  How the directory itself was reached, perhaps through links, makes no
difference.

* `Node.exists_lookup_append` splits the following of a path at a directory.
* `FileTree.node?_below` is about links that are known by their places, and
  `FileTree.node?_below_of_isLink` about links that are known by their paths.
-/

namespace GradleWorkspace

namespace Node

variable {root : Node} {here place segments : List String} {members : List (String × Node)}

/-- From a directory to which some segments lead, more segments lead on as from its place. -/
theorem exists_lookup_append {links : Nat}
    (h : root.lookup links here segments = .found place (.directory members)) :
    ∃ left, ∀ more, root.lookup links here (segments ++ more) = root.lookup left place more := by
  fun_induction Node.lookup root links here segments with
  | case1 links here node hnode =>
      obtain ⟨rfl, -⟩ := Lookup.found.inj h
      exact ⟨links, fun more => rfl⟩
  | case2 | case5 | case6 | case8 | case9 | case10 => simp at h
  | case3 links here segment rest hempty ih =>
      obtain ⟨left, hleft⟩ := ih h
      refine ⟨left, fun more => ?_⟩
      rw [List.cons_append, lookup, if_pos hempty, hleft]
  | case4 links here rest hempty ih =>
      obtain ⟨left, hleft⟩ := ih h
      refine ⟨left, fun more => ?_⟩
      rw [List.cons_append, lookup, if_neg hempty, if_pos rfl, hleft]
  | case7 links here segment rest hplain hup others hothers ih =>
      obtain ⟨left, hleft⟩ := ih h
      refine ⟨left, fun more => ?_⟩
      rw [List.cons_append, lookup_directory hplain hup hothers, hleft]
  | case11 here segment rest hplain hup target htarget links ih =>
      obtain ⟨left, hleft⟩ := ih h
      refine ⟨left, fun more => ?_⟩
      rw [List.cons_append, lookup_link hplain hup htarget, ← List.append_assoc]
      exact hleft more

end Node

namespace FileTree

variable {tree : FileTree} {root : Path} {members : List (String × Node)}

/-- Whether a path itself leads to a link: the directory before its last segment has a link of that
name. -/
def isLink (tree : FileTree) (path : Path) : Bool :=
  (tree.node? path.parent).any fun directory =>
    (directory.members.lookup path.name).any Node.isLink

theorem exists_lookup_eq_found {path : Path} {node : Node} (h : tree.node? path = some node) :
    ∃ place, tree.lookup path = .found place node ∧ tree.root.get? place = some node := by
  unfold node? at h
  split at h
  · next place found hlookup =>
    obtain rfl := Option.some.inj h
    exact ⟨place, hlookup, Node.get?_of_lookup_eq_found hlookup⟩
  · simp at h

/-- Names lead from a directory to what is below it, if there is no link on the way. -/
theorem node?_below (hroot : tree.node? root = some (.directory members)) {place : List String}
    (hplain : ∀ name ∈ place, Path.IsPlain name)
    (hlinks : ∀ above, above ≠ [] → above <+: place →
      ∀ target, (Node.directory members).get? above ≠ some (.link target)) :
    tree.node? { root with segments := root.segments ++ place } =
      (Node.directory members).get? place := by
  obtain ⟨here, hlookup, hhere⟩ := exists_lookup_eq_found hroot
  obtain ⟨left, hleft⟩ := Node.exists_lookup_append hlookup
  have hget : ∀ below, tree.root.get? (here ++ below) = (Node.directory members).get? below := by
    intro below
    rw [Node.get?_append, hhere, Option.bind_some]
  rw [node?_eq, ← hget]
  have hpath : tree.lookup { root with segments := root.segments ++ place } =
      tree.root.lookup left here place := hleft place
  rw [hpath]
  refine Node.node?_lookup left here hplain ?_
  intro above habove hprefix
  rw [hget]
  exact hlinks above habove hprefix

/-- Whether there is a link at a place below a directory can be asked of its path, if there is none
on the way to it. -/
theorem isLink_below (hroot : tree.node? root = some (.directory members)) {above : List String}
    (name : String) (hplain : ∀ other ∈ above, Path.IsPlain other)
    (hlinks : ∀ higher, higher ≠ [] → higher <+: above →
      ∀ target, (Node.directory members).get? higher ≠ some (.link target)) :
    tree.isLink { root with segments := root.segments ++ (above ++ [name]) } =
      ((Node.directory members).get? (above ++ [name])).any Node.isLink := by
  unfold isLink
  rw [← List.append_assoc, Path.parent, List.dropLast_concat, node?_below hroot hplain hlinks,
    Path.name, List.getLast?_concat, Node.get?_append]
  cases (Node.directory members).get? above with
  | none => rfl
  | some directory => simp [Node.get?]

/-- The same if the paths of the names on the way are known to be no links. -/
theorem node?_below_of_isLink (hroot : tree.node? root = some (.directory members))
    {place : List String} (hplain : ∀ name ∈ place, Path.IsPlain name)
    (hlinks : ∀ above, above ≠ [] → above <+: place →
      tree.isLink { root with segments := root.segments ++ above } = false) :
    tree.node? { root with segments := root.segments ++ place } =
      (Node.directory members).get? place := by
  -- Whether a name is a link is a matter of the directory before it, which is reached first.
  have hall : ∀ below, below <+: place → ∀ above, above ≠ [] → above <+: below →
      ∀ target, (Node.directory members).get? above ≠ some (.link target) := by
    intro below
    induction below using List.reverseRecOn with
    | nil =>
        intro _ above habove hprefix
        exact absurd (List.prefix_nil.1 hprefix) habove
    | append_singleton higher name ih =>
        intro hbelow above habove hprefix
        have hhigher : higher <+: place := (List.prefix_append higher [name]).trans hbelow
        rcases List.prefix_concat_iff.1 hprefix with rfl | hbefore
        · intro target htarget
          have hlink := hlinks _ habove hbelow
          rw [isLink_below hroot name (fun other hother => hplain other (hhigher.subset hother))
            (ih hhigher), htarget] at hlink
          simp [Node.isLink] at hlink
        · exact ih hhigher above habove hbefore
  exact node?_below hroot hplain (hall place List.prefix_rfl)

end FileTree

end GradleWorkspace
