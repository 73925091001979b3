import GradleWorkspace.Proofs.FileTree
import GradleWorkspace.Proofs.OrderedMap

/-!
# Trees without links

Where there are no links, a path means the same for whoever reads it: its segments say on their
own which place it leads to.

* `Node.LinkFree` is kept by putting a file (`FileTree.linkFree_putFile`).
* `FileTree.node?_absolute` looks up an absolute path whose segments are all names: what it leads
  to is what is at that place.
* `FileTree.resolve?_eq` says which path any path is resolved to.  The answer does not mention the
  tree, but for its current directory.
-/

namespace GradleWorkspace

/-! ## Segments that are names -/

namespace Path

/-- A segment that leads one step down. -/
def IsPlain (segment : String) : Prop := segment ≠ "" ∧ segment ≠ "." ∧ segment ≠ ".."

theorem isPlain_of_isMemberName {name : String} (h : isMemberName name) : IsPlain name := by
  simp only [isMemberName, Bool.and_eq_true, bne_iff_ne] at h
  exact ⟨h.1.1.1, h.1.1.2, h.1.2⟩

/-- The place that a segment leads to from another, if it is no link. -/
def descend (here : List String) (segment : String) : List String :=
  if segment = "" ∨ segment = "." then here
  else if segment = ".." then here.dropLast
  else here ++ [segment]

/-- The place that some segments lead to from another, if none of them is a link. -/
def follow (here segments : List String) : List String := segments.foldl descend here

theorem plainSegments_eq_follow (segments : List String) :
    plainSegments segments = follow [] segments := rfl

theorem isPlain_of_mem_descend {here : List String} (h : ∀ segment ∈ here, IsPlain segment)
    (segment : String) : ∀ other ∈ descend here segment, IsPlain other := by
  intro other hother
  rw [descend] at hother
  split at hother
  · exact h other hother
  · next hempty =>
    split at hother
    · exact h other (List.dropLast_subset here hother)
    · next hup =>
      rcases List.mem_append.1 hother with hhere | hnew
      · exact h other hhere
      · obtain rfl := List.mem_singleton.1 hnew
        rw [not_or] at hempty
        exact ⟨hempty.1, hempty.2, hup⟩

theorem isPlain_of_mem_follow {here : List String} (h : ∀ segment ∈ here, IsPlain segment)
    (segments : List String) : ∀ segment ∈ follow here segments, IsPlain segment := by
  induction segments generalizing here with
  | nil => exact h
  | cons segment rest ih => exact ih (isPlain_of_mem_descend h segment)

theorem isPlain_of_mem_plainSegments (segments : List String) :
    ∀ segment ∈ plainSegments segments, IsPlain segment := by
  rw [plainSegments_eq_follow]
  exact isPlain_of_mem_follow (by simp) segments

end Path

/-! ## Nodes without links -/

namespace Node

/-- A node that is no link and has none below it. -/
inductive LinkFree : Node → Prop
  | file (content : ByteArray) : LinkFree (.file content)
  | directory {members : List (String × Node)} (h : ∀ member ∈ members, LinkFree member.2) :
      LinkFree (.directory members)

theorem linkFree_empty : LinkFree empty := .directory (by simp)

variable {root : Node}

theorem LinkFree.of_lookup {members : List (String × Node)} {name : String} {child : Node}
    (h : LinkFree (.directory members)) (hlookup : members.lookup name = some child) :
    child.LinkFree := by
  obtain ⟨_, _, rfl, -⟩ := List.lookup_eq_some_iff.1 hlookup
  cases h with
  | directory h => exact h (name, child) (by simp)

theorem LinkFree.of_get? (h : root.LinkFree) {place : List String} {found : Node}
    (hfound : root.get? place = some found) : found.LinkFree := by
  induction place generalizing root with
  | nil =>
      obtain rfl := Option.some.inj ((get?_nil root).symm.trans hfound)
      exact h
  | cons name rest ih =>
      obtain ⟨members, child, rfl, hlookup, hchild⟩ := get?_cons_eq_some_iff.1 hfound
      exact ih (h.of_lookup hlookup) hchild

theorem LinkFree.get?_ne_link (h : root.LinkFree) (place : List String) (target : String) :
    root.get? place ≠ some (.link target) := by
  intro hlink
  cases h.of_get? hlink

theorem LinkFree.put {new : Node} (hnew : new.LinkFree) (place : List String) {node : Node}
    (h : node.LinkFree) : (put new place node).LinkFree := by
  induction place generalizing node with
  | nil => exact hnew
  | cons name rest ih =>
      cases h with
      | file content => exact .file content
      | @directory members h =>
          rw [Node.put]
          split
          · have hchild : ((members.lookup name).getD empty).LinkFree := by
              cases hlookup : members.lookup name with
              | none => exact linkFree_empty
              | some child => exact (LinkFree.directory h).of_lookup hlookup
            refine .directory fun member hmember => ?_
            rcases OrderedMap.eq_or_mem_of_mem_setEntry hmember with rfl | hold
            · exact ih hchild
            · exact h member hold
          · exact .directory h

/-! ## Looking up paths -/

end Node

/-- The file or directory to which a path leads. -/
def Lookup.node? : Lookup → Option Node
  | .found _ node => some node
  | _ => none

/-- The file or directory to which a path leads, with its place. -/
def Lookup.found? : Lookup → Option (List String × Node)
  | .found place node => some (place, node)
  | _ => none

theorem Lookup.node?_eq (found : Lookup) : found.node? = found.found?.map Prod.snd := by
  cases found <;> rfl

namespace Node

variable {root : Node}

/-- Segments that are names lead to the place with these names, or nowhere, if no link is met on the
way. -/
theorem found?_lookup (links : Nat) (here : List String) {segments : List String}
    (hplain : ∀ segment ∈ segments, Path.IsPlain segment)
    (hlinks : ∀ above, above ≠ [] → above <+: segments →
      ∀ target, root.get? (here ++ above) ≠ some (.link target)) :
    (root.lookup links here segments).found? =
      (root.get? (here ++ segments)).map fun node => (here ++ segments, node) := by
  fun_induction Node.lookup root links here segments with
  | case1 links here node hnode =>
      rw [List.append_nil, hnode]
      rfl
  | case2 links here hnone =>
      rw [List.append_nil, hnone]
      rfl
  | case3 links here segment rest hempty ih =>
      obtain ⟨hne, hdot, -⟩ := hplain segment List.mem_cons_self
      exact absurd hempty (not_or.2 ⟨hne, hdot⟩)
  | case4 links here rest hempty ih =>
      obtain ⟨-, -, hup⟩ := hplain ".." List.mem_cons_self
      exact absurd rfl hup
  | case5 links here segment rest hempty hup hnone hvacant =>
      rw [List.append_cons, get?_append, hnone]
      rfl
  | case6 links here segment rest hempty hup hnone hvacant =>
      rw [List.append_cons, get?_append, hnone]
      rfl
  | case7 links here segment rest hempty hup members hmembers ih =>
      rw [List.append_cons here segment rest]
      refine ih (fun other hother => hplain other (List.mem_cons_of_mem _ hother)) ?_
      intro above habove hprefix
      rw [← List.append_cons]
      exact hlinks (segment :: above) (List.cons_ne_nil _ _)
        (List.cons_prefix_cons.2 ⟨rfl, hprefix⟩)
  | case8 links here segment rest hempty hup content hfile hrest =>
      rw [List.isEmpty_iff.1 hrest, hfile]
      rfl
  | case9 links here segment rest hempty hup content hfile hrest =>
      obtain ⟨name, below, rfl⟩ := List.exists_cons_of_ne_nil (mt List.isEmpty_iff.2 hrest)
      rw [List.append_cons, get?_append, hfile]
      rfl
  | case10 here segment rest hempty hup target htarget =>
      exact absurd htarget (hlinks [segment] (List.cons_ne_nil _ _) ⟨rest, rfl⟩ target)
  | case11 here segment rest hempty hup target htarget links ih =>
      exact absurd htarget (hlinks [segment] (List.cons_ne_nil _ _) ⟨rest, rfl⟩ target)

theorem node?_lookup (links : Nat) (here : List String) {segments : List String}
    (hplain : ∀ segment ∈ segments, Path.IsPlain segment)
    (hlinks : ∀ above, above ≠ [] → above <+: segments →
      ∀ target, root.get? (here ++ above) ≠ some (.link target)) :
    (root.lookup links here segments).node? = root.get? (here ++ segments) := by
  rw [Lookup.node?_eq, found?_lookup links here hplain hlinks, Option.map_map]
  exact congrFun Option.map_id _

theorem LinkFree.lookup_ne_tooManyLinks (h : root.LinkFree) (links : Nat)
    (here segments : List String) : root.lookup links here segments ≠ .tooManyLinks := by
  fun_induction Node.lookup root links here segments with
  | case1 | case2 | case5 | case6 | case8 | case9 => simp
  | case3 _ _ _ _ _ ih => exact ih
  | case4 _ _ _ _ ih => exact ih
  | case7 _ _ _ _ _ _ _ _ ih => exact ih
  | case10 here segment rest hempty hup target htarget =>
      exact absurd htarget (h.get?_ne_link _ target)
  | case11 here segment rest hempty hup target htarget links ih =>
      exact absurd htarget (h.get?_ne_link _ target)

/-- Segments are resolved up to the end, by themselves. -/
theorem LinkFree.resolve_eq (h : root.LinkFree) (depth : Nat) (pending : List (List String))
    (here segments : List String) :
    root.resolve depth pending here segments = (Path.follow here segments, true) := by
  induction segments generalizing here with
  | nil =>
      rw [resolve]
      rfl
  | cons segment rest ih =>
      rw [resolve, Path.follow, List.foldl_cons, Path.descend]
      by_cases hempty : segment = "" ∨ segment = "."
      · rw [if_pos hempty, if_pos hempty]
        exact ih here
      · rw [if_neg hempty, if_neg hempty]
        by_cases hup : segment = ".."
        · rw [if_pos hup, if_pos hup]
          exact ih here.dropLast
        · rw [if_neg hup, if_neg hup]
          dsimp only
          split
          · next target htarget => exact absurd htarget (h.get?_ne_link _ target)
          · exact ih (here ++ [segment])

end Node

/-- The bytes of a file. -/
def Node.content? : Node → Option ByteArray
  | .file content => some content
  | _ => none

namespace FileTree

variable {tree : FileTree}

theorem linkFree_putFile (h : tree.root.LinkFree) (place : List String) (content : ByteArray) :
    (tree.putFile place content).root.LinkFree :=
  .put (.file content) place h

theorem node?_eq (tree : FileTree) (path : Path) : tree.node? path = (tree.lookup path).node? := by
  rw [node?]
  cases tree.lookup path <;> rfl

theorem bytes?_eq (tree : FileTree) (path : Path) :
    tree.bytes? path = (tree.node? path).bind Node.content? := by
  rw [bytes?]
  rcases tree.node? path with _ | _ | _ | _ <;> rfl

theorem isFile_eq (tree : FileTree) (path : Path) :
    tree.isFile path = (tree.bytes? path).isSome := by
  rw [isFile, bytes?]
  rcases tree.node? path with _ | _ | _ | _ <;> rfl

/-- What an absolute path leads to is what is at the place with its segments. -/
theorem node?_absolute (h : tree.root.LinkFree) {segments : List String}
    (hplain : ∀ segment ∈ segments, Path.IsPlain segment) :
    tree.node? (.absolute segments) = tree.root.get? segments := by
  rw [node?_eq]
  exact Node.node?_lookup maxLinks [] hplain fun above _ _ => h.get?_ne_link _

theorem bytes?_absolute (h : tree.root.LinkFree) {segments : List String}
    (hplain : ∀ segment ∈ segments, Path.IsPlain segment) :
    tree.bytes? (.absolute segments) = (tree.root.get? segments).bind Node.content? := by
  rw [bytes?_eq, node?_absolute h hplain]

theorem isEndless_eq_false (h : tree.root.LinkFree) (path : Path) :
    tree.isEndless path = false := by
  rw [isEndless]
  split
  · next hlookup => exact absurd hlookup (h.lookup_ne_tooManyLinks _ _ _)
  · rfl

/-- Each path is resolved, and to what does not depend on what is in the tree. -/
theorem resolve?_eq (h : tree.root.LinkFree) (path : Path) : tree.resolve? path =
    some (.absolute (Path.plainSegments (Path.follow (tree.start path) path.segments))) := by
  rw [resolve?, h.resolve_eq]
  dsimp only
  rw [isEndless_eq_false h]
  rfl

/-- Trees with the same current directory resolve a path alike. -/
theorem exists_resolve?_eq {tree' : FileTree} (h : tree.root.LinkFree) (h' : tree'.root.LinkFree)
    (hcurrent : tree.current = tree'.current) (path : Path) :
    ∃ here, (∀ segment ∈ here, Path.IsPlain segment) ∧
      tree.resolve? path = some (.absolute here) ∧ tree'.resolve? path = some (.absolute here) := by
  have hstart : tree.start path = tree'.start path := by rw [start, start, hcurrent]
  refine ⟨_, Path.isPlain_of_mem_plainSegments _, resolve?_eq h path, ?_⟩
  rw [resolve?_eq h', hstart]

end FileTree

end GradleWorkspace
