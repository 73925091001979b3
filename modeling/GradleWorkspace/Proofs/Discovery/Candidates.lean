import Mathlib
import GradleWorkspace.Proofs.Discovery.Visible
import GradleWorkspace.Proofs.FileTree.Below

/-!
# The walk through the directories

From a directory that can be listed, the walk lists the directories to which paths below it lead,
but for those behind a name that is left out or a link.  It lists them in the order of their paths,
which are compared name by name, and so each with everything below it in one piece.

* `IsWalked` is the condition on a path, and `isWalked_iff` puts it in terms of what is at a place
  below the root.
* `exists_block_of_pairwise_lt` is about any list of paths in their order.
* `candidateDirectories_exact` is the result.
-/

namespace GradleWorkspace

/-! ## Which directories -/

/-- The walk is to come to a path below its root, given by its segments: the path leads to a
directory, each segment is the name of a member of a directory and not left out, and none of the
paths to these members is a link. -/
structure IsWalked (tree : FileTree) (root : Path) (exclude place : List String) : Prop where
  isDirectory : tree.isDirectory (directoryAt root place) = true
  isMemberName : ∀ name ∈ place, isMemberName name = true
  not_hidden : ∀ name ∈ place, name.toList.head? ≠ some '.'
  not_skipped : ∀ name ∈ place, name ∉ ["node_modules", "dist", "build", "out", "__pycache__"]
  not_excluded : ∀ name ∈ place, name ∉ exclude
  not_link : ∀ above, above ≠ [] → above <+: place → tree.isLink (directoryAt root above) = false

theorem isSkipped_eq_false_iff {exclude : List String} {name : String} :
    isSkipped exclude name = false ↔ name.toList.head? ≠ some '.' ∧
      name ∉ ["node_modules", "dist", "build", "out", "__pycache__"] ∧ name ∉ exclude := by
  simp only [isSkipped, skippedNames, Bool.or_eq_false_iff, beq_eq_false_iff_ne,
    List.contains_eq_mem, decide_eq_false_iff_not, and_assoc]

section Candidates

variable {tree : FileTree} {root : Path} {exclude place : List String}
  {members : List (String × Node)}

/-- There is no link on the way to a directory. -/
theorem get?_ne_link_of_isDirectory {node : Node}
    (h : (node.get? place).any Node.isDirectory = true) {above : List String}
    (habove : above <+: place) (target : String) :
    node.get? above ≠ some (.link target) := by
  intro htarget
  obtain ⟨below, rfl⟩ := habove
  rw [Node.get?_append, htarget] at h
  cases below with
  | nil => simp [Node.isDirectory] at h
  | cons name rest => simp [Node.get?, Node.members] at h

theorem isWalked_iff (hroot : tree.node? root = some (.directory members)) :
    IsWalked tree root exclude place ↔
      ((Node.directory members).get? place).any Node.isDirectory = true ∧
        (∀ name ∈ place, isMemberName name) ∧ IsVisible exclude place := by
  constructor
  · intro h
    have hplain : ∀ name ∈ place, Path.IsPlain name := fun name hname =>
      Path.isPlain_of_isMemberName (h.isMemberName name hname)
    refine ⟨?_, h.isMemberName, fun name hname => isSkipped_eq_false_iff.2
      ⟨h.not_hidden name hname, h.not_skipped name hname, h.not_excluded name hname⟩⟩
    rw [← FileTree.node?_below_of_isLink hroot hplain h.not_link]
    exact h.isDirectory
  · rintro ⟨hdirectory, hnames, hvisible⟩
    have hplain : ∀ name ∈ place, Path.IsPlain name := fun name hname =>
      Path.isPlain_of_isMemberName (hnames name hname)
    have hlinks : ∀ above, above ≠ [] → above <+: place →
        ∀ target, (Node.directory members).get? above ≠ some (.link target) :=
      fun above _ habove => get?_ne_link_of_isDirectory hdirectory habove
    refine ⟨?_, hnames, fun name hname => (isSkipped_eq_false_iff.1 (hvisible name hname)).1,
      fun name hname => (isSkipped_eq_false_iff.1 (hvisible name hname)).2.1,
      fun name hname => (isSkipped_eq_false_iff.1 (hvisible name hname)).2.2, ?_⟩
    · unfold FileTree.isDirectory directoryAt
      rw [FileTree.node?_below hroot hplain hlinks, hdirectory]
    · intro above habove hprefix
      obtain ⟨higher, name, rfl⟩ := (List.eq_nil_or_concat' above).resolve_left habove
      have hhigher : higher <+: place := (List.prefix_append higher [name]).trans hprefix
      unfold directoryAt
      rw [FileTree.isLink_below hroot name
        (fun other hother => hplain other (hhigher.subset hother))
        fun above' habove' hprefix' => hlinks above' habove' (hprefix'.trans hhigher)]
      cases hnode : (Node.directory members).get? (higher ++ [name]) with
      | none => rfl
      | some node =>
          cases node with
          | link target => exact absurd hnode (hlinks _ habove hprefix target)
          | file content => rfl
          | directory others => rfl

/-- A directory can be listed, and what is below it is walked through. -/
theorem candidateDirectories_of_isDirectory (exclude : List String)
    (hroot : tree.isDirectory root = true) :
    ∃ members, tree.node? root = some (.directory members) ∧
      candidateDirectories tree root exclude =
        .pure ((Node.directory members).directories exclude) := by
  obtain ⟨node, hnode, hdirectory⟩ := (Option.any_eq_true _ _).1 hroot
  cases node with
  | directory members =>
      refine ⟨members, hnode, ?_⟩
      rw [candidateDirectories, hnode]
  | file content => simp [Node.isDirectory] at hdirectory
  | link target => simp [Node.isDirectory] at hdirectory

end Candidates

/-! ## Their order -/

theorem not_append_lt (place below : List String) : ¬place ++ below < place := by
  induction place with
  | nil => exact List.not_lt_nil below
  | cons name rest ih => simpa [List.cons_lt_cons_iff] using ih

/-- What lies between a path and one that it begins, begins with it as well. -/
theorem prefix_of_lt_of_lt {place middle below : List String} (h : place < middle)
    (h' : middle < place ++ below) : place <+: middle := by
  induction place generalizing middle with
  | nil => exact List.nil_prefix
  | cons name rest ih =>
      cases middle with
      | nil => exact absurd h (List.not_lt_nil _)
      | cons first others =>
          rw [List.cons_append] at h'
          rcases List.cons_lt_cons_iff.1 h with hlt | ⟨rfl, hlt⟩
          · rcases List.cons_lt_cons_iff.1 h' with hgt | ⟨rfl, -⟩
            · exact absurd hgt (lt_asymm hlt)
            · exact absurd hlt (lt_irrefl _)
          · rcases List.cons_lt_cons_iff.1 h' with hgt | ⟨-, hgt⟩
            · exact absurd hgt (lt_irrefl _)
            · exact List.cons_prefix_cons.2 ⟨rfl, ih hlt hgt⟩

/-- In a list of paths in their order, those that begin with one of them stand right behind it. -/
theorem exists_block_of_pairwise_lt {before after : List (List String)} {place : List String}
    (h : (before ++ place :: after).Pairwise (· < ·)) :
    ∃ below others, after = below ++ others ∧ (∀ other ∈ below, place <+: other) ∧
      ∀ other ∈ before ++ others, ¬place <+: other := by
  obtain ⟨-, hafter, hbefore⟩ := List.pairwise_append.1 h
  obtain ⟨hplace, hsorted⟩ := List.pairwise_cons.1 hafter
  refine ⟨after.takeWhile place.isPrefixOf, after.dropWhile place.isPrefixOf,
    List.takeWhile_append_dropWhile.symm, ?_, ?_⟩
  · intro other hother
    exact List.isPrefixOf_iff_prefix.1 (List.mem_takeWhile_imp hother)
  · intro other hother
    rcases List.mem_append.1 hother with hfirst | hlater
    · rintro ⟨below, rfl⟩
      exact not_append_lt place below (hbefore _ hfirst place List.mem_cons_self)
    · -- The first path behind the block does not begin with `place`, so later ones cannot either.
      cases hrest : after.dropWhile place.isPrefixOf with
      | nil => simp [hrest] at hlater
      | cons first rest =>
          have hsub : (first :: rest).Sublist after := hrest ▸ List.dropWhile_sublist _
          have hfirst : ¬place <+: first := by
            have hnot := List.head_dropWhile_not place.isPrefixOf
              (hrest ▸ List.cons_ne_nil first rest)
            simp only [hrest, List.head_cons] at hnot
            simpa [← List.isPrefixOf_iff_prefix] using hnot
          rw [hrest] at hlater
          rcases List.mem_cons.1 hlater with rfl | hmem
          · exact hfirst
          · rintro ⟨below, rfl⟩
            have hlt := List.rel_of_pairwise_cons (hsorted.sublist hsub) hmem
            exact hfirst (prefix_of_lt_of_lt (hplace first (hsub.subset List.mem_cons_self)) hlt)

/-! ## The result -/

/-- From a directory that can be listed, the walk lists exactly the directories that it is to come
to, each once and without a message.  The paths strictly increase, where paths are compared name by
name and names character by character, so that everything below a directory is listed right behind
it and in one piece. -/
theorem candidateDirectories_exact (tree : FileTree) (root : Path) (exclude : List String)
    (hroot : tree.isDirectory root = true) :
    ∃ places, candidateDirectories tree root exclude = .pure places ∧
      (∀ place, place ∈ places ↔ IsWalked tree root exclude place) ∧ places.Nodup ∧
      places.Pairwise (· < ·) ∧
      ∀ before place after, places = before ++ place :: after →
        ∃ below others, after = below ++ others ∧ (∀ other ∈ below, place <+: other) ∧
          ∀ other ∈ before ++ others, ¬place <+: other := by
  obtain ⟨members, hnode, hlisted⟩ := candidateDirectories_of_isDirectory exclude hroot
  have hwell : (Node.directory members).WellFormed := FileTree.wellFormed_of_node? hnode
  have hsorted := Node.pairwise_lt_directories exclude hwell
  refine ⟨_, hlisted, fun place => ?_, hsorted.nodup, hsorted, ?_⟩
  · rw [isWalked_iff hnode, Node.mem_directories_iff_isVisible exclude hwell]
    constructor
    · rintro ⟨hdirectory, hvisible⟩
      have hplace := (Node.mem_directories_iff_isVisible exclude hwell).2 ⟨hdirectory, hvisible⟩
      exact ⟨hdirectory, Node.isMemberName_of_mem_directories exclude hwell hplace, hvisible⟩
    · rintro ⟨hdirectory, -, hvisible⟩
      exact ⟨hdirectory, hvisible⟩
  · intro before place after hsplit
    exact exists_block_of_pairwise_lt (hsplit ▸ hsorted)

/-- A workspace with two modules, one of them below a directory whose name begins the name of the
other, a directory with output of a build, a hidden one, and a link that leads back up. -/
def branchingTree : FileTree :=
  ((((FileTree.empty.putFile ["ws", "a-b", "build.gradle"] "".toUTF8).putFile
    ["ws", "a", "c", "build.gradle"] "".toUTF8).putFile
    ["ws", "a", "build", "c", "build.gradle"] "".toUTF8).putFile
    ["ws", ".git", "config"] "".toUTF8).putLink ["ws", "a", "up"] ".."

/-- The link is followed when it is asked where its path leads, but not by the walk.  The hyphen
comes before the slash, and yet the directory below `a` is listed before `a-b`. -/
theorem candidateDirectories_branchingTree :
    branchingTree.isDirectory (.absolute ["ws"]) = true ∧
      branchingTree.isDirectory (.absolute ["ws", "a", "up"]) = true ∧
      candidateDirectories branchingTree (.absolute ["ws"]) [] =
        .pure [[], ["a"], ["a", "c"], ["a-b"]] ∧
      IsWalked branchingTree (.absolute ["ws"]) [] ["a", "c"] ∧
      ¬IsWalked branchingTree (.absolute ["ws"]) [] ["a", "up"] := by
  have hroot : branchingTree.isDirectory (.absolute ["ws"]) = true := by cbv
  have hlisted : candidateDirectories branchingTree (.absolute ["ws"]) [] =
      .pure [[], ["a"], ["a", "c"], ["a-b"]] := by cbv
  obtain ⟨places, hplaces, hmem, -⟩ := candidateDirectories_exact branchingTree _ [] hroot
  obtain rfl : [[], ["a"], ["a", "c"], ["a-b"]] = places :=
    congrArg Logged.value (hlisted.symm.trans hplaces)
  exact ⟨hroot, by cbv, hlisted, (hmem _).1 (by decide), mt (hmem _).2 (by decide)⟩

end GradleWorkspace
