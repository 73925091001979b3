import GradleWorkspace.FileTree.Write

/-!
# Reading back what was written

A file that was written at a path is what the path leads to afterwards.  This is not obvious,
because the path is followed once more in the new tree, through all its links.

* `Node.get?_put_cases` says what putting a node at a place leaves elsewhere.
* `Node.lookup_put` follows a path before and after a file is put where it leads.
* `FileTree.bytes?_write` is the result about writing.
-/

namespace GradleWorkspace

namespace Node

/-! ## Places -/

@[simp] theorem get?_nil (node : Node) : node.get? [] = some node := by
  rw [get?]

/-- What is at a place below a node is in a member of the node, which is a directory. -/
theorem get?_cons_eq_some_iff {node found : Node} {name : String} {rest : List String} :
    node.get? (name :: rest) = some found ↔ ∃ members child, node = .directory members ∧
      members.lookup name = some child ∧ child.get? rest = some found := by
  rw [get?, Option.bind_eq_some_iff]
  cases node <;> simp [members]

theorem get?_append (node : Node) (before after : List String) :
    node.get? (before ++ after) = (node.get? before).bind fun child => child.get? after := by
  induction before generalizing node with
  | nil => simp
  | cons name rest ih =>
      rw [List.cons_append, get?, get?, Option.bind_assoc]
      congr 1
      funext child
      exact ih child

theorem get?_append_singleton_eq_some_iff {node child : Node} {directory : List String}
    {name : String} :
    node.get? (directory ++ [name]) = some child ↔ ∃ members,
      node.get? directory = some (.directory members) ∧ members.lookup name = some child := by
  rw [get?_append, Option.bind_eq_some_iff]
  constructor
  · rintro ⟨_, hparent, hchild⟩
    obtain ⟨members, _, rfl, hlookup, hchild⟩ := get?_cons_eq_some_iff.1 hchild
    obtain rfl := Option.some.inj ((get?_nil _).symm.trans hchild)
    exact ⟨members, hparent, hlookup⟩
  · rintro ⟨members, hparent, hlookup⟩
    exact ⟨_, hparent, get?_cons_eq_some_iff.2 ⟨members, child, rfl, hlookup, get?_nil child⟩⟩

/-- A name is only found in a directory. -/
theorem get?_append_singleton_eq_none {node : Node} {place : List String} (name : String)
    (h : (node.get? place).any isDirectory = false) : node.get? (place ++ [name]) = none := by
  rw [Option.eq_none_iff_forall_ne_some]
  intro child hchild
  obtain ⟨members, hmembers, -⟩ := get?_append_singleton_eq_some_iff.1 hchild
  simp [hmembers, isDirectory] at h

theorem wellFormed_of_get? {node found : Node} (h : node.WellFormed) {place : List String}
    (hfound : node.get? place = some found) : found.WellFormed := by
  induction place generalizing node with
  | nil =>
      obtain rfl := Option.some.inj ((get?_nil node).symm.trans hfound)
      exact h
  | cons name rest ih =>
      obtain ⟨members, child, rfl, hlookup, hchild⟩ := get?_cons_eq_some_iff.1 hfound
      exact ih (wellFormed_of_lookup h.2 hlookup).2 hchild

/-! ## Putting a node at a place -/

/-- What was put under a name in a directory is there. -/
theorem get?_put_append {node : Node} (hnode : node.WellFormed) (new : Node)
    {directory : List String} {members : List (String × Node)}
    (h : node.get? directory = some (.directory members)) {name : String}
    (hname : isMemberName name) :
    (put new (directory ++ [name]) node).get? (directory ++ [name]) = some new := by
  induction directory generalizing node with
  | nil =>
      obtain rfl := Option.some.inj ((get?_nil node).symm.trans h)
      rw [List.nil_append, put, if_pos hname, get?_cons_eq_some_iff]
      exact ⟨_, new, rfl, by simp [OrderedMap.lookup_setEntry, put], get?_nil new⟩
  | cons first rest ih =>
      obtain ⟨others, child, rfl, hlookup, hrest⟩ := get?_cons_eq_some_iff.1 h
      obtain ⟨hfirst, hchild⟩ := wellFormed_of_lookup hnode.2 hlookup
      rw [List.cons_append, put, if_pos hfirst, get?_cons_eq_some_iff]
      refine ⟨_, put new (rest ++ [name]) child, rfl, ?_, ih hchild hrest⟩
      simp [OrderedMap.lookup_setEntry, hlookup]

/-- Putting a node at a place leaves what is elsewhere, up to the members of directories. -/
theorem get?_put_cases (new : Node) {place other : List String} (h : ¬place <+: other)
    {node found : Node} (hfound : node.get? other = some found) :
    (put new place node).get? other = some found ∨
      ∃ members members', found = .directory members ∧
        (put new place node).get? other = some (.directory members') := by
  induction other generalizing node place with
  | nil =>
      obtain rfl := Option.some.inj ((get?_nil node).symm.trans hfound)
      cases place with
      | nil => exact absurd List.nil_prefix h
      | cons name rest =>
          cases node with
          | directory members =>
              rw [put]
              split <;> exact Or.inr ⟨_, _, rfl, get?_nil _⟩
          | file content => exact Or.inl rfl
          | link target => exact Or.inl rfl
  | cons first others ih =>
      obtain ⟨members, child, rfl, hlookup, hchild⟩ := get?_cons_eq_some_iff.1 hfound
      cases place with
      | nil => exact absurd List.nil_prefix h
      | cons name rest =>
          rw [put]
          split
          · by_cases heq : first = name
            · subst heq
              rw [hlookup, Option.getD_some, get?, Node.members, OrderedMap.lookup_setEntry,
                if_pos rfl, Option.bind_some]
              exact ih (by simpa using h) hchild
            · rw [get?, Node.members, OrderedMap.lookup_setEntry, if_neg heq, hlookup]
              exact Or.inl hchild
          · exact Or.inl hfound

/-- A file can be put at a place: there is one already, or there is a directory that does not
have the name but could. -/
inductive Takes (root : Node) : List String → Prop
  | file {place : List String} {content : ByteArray}
      (h : root.get? place = some (.file content)) : Takes root place
  | vacant {directory : List String} {members : List (String × Node)} {name : String}
      (h : root.get? directory = some (.directory members)) (hname : isMemberName name)
      (hnone : root.get? (directory ++ [name]) = none) : Takes root (directory ++ [name])

theorem Takes.get?_put {root : Node} {place : List String} (h : root.Takes place)
    (hroot : root.WellFormed) (new : Node) : (put new place root).get? place = some new := by
  cases h with
  | file h =>
      rcases List.eq_nil_or_concat place with rfl | ⟨directory, name, rfl⟩
      · simp [put]
      · rw [List.concat_eq_append] at h ⊢
        obtain ⟨members, hdirectory, hlookup⟩ := get?_append_singleton_eq_some_iff.1 h
        have hwell := wellFormed_of_get? hroot hdirectory
        exact get?_put_append hroot new hdirectory (wellFormed_of_lookup hwell.2 hlookup).1
  | vacant h hname hnone => exact get?_put_append hroot new h hname

/-- Nothing but a file is at such a place or below it. -/
theorem Takes.not_prefix {root : Node} {place other : List String} (h : root.Takes place)
    {found : Node} (hfound : root.get? other = some found) (hfile : found.isFile = false) :
    ¬place <+: other := by
  rintro ⟨below, rfl⟩
  rw [get?_append] at hfound
  cases h with
  | file h =>
      rw [h, Option.bind_some] at hfound
      cases below with
      | nil =>
          obtain rfl := Option.some.inj ((get?_nil _).symm.trans hfound)
          simp [isFile] at hfile
      | cons name rest =>
          obtain ⟨_, _, hdirectory, -⟩ := get?_cons_eq_some_iff.1 hfound
          simp at hdirectory
  | vacant h hname hnone => simp [hnone] at hfound

end Node

/-! ## Following a path again -/

/-- The place of the file that is written at a path that leads there. -/
def Lookup.target? : Lookup → Option (List String)
  | .found place (.file _) => some place
  | .vacant directory name => some (directory ++ [name])
  | _ => none

namespace Node

section Steps

variable {root : Node} {links : Nat} {here rest : List String} {segment : String}

theorem lookup_directory (hplain : ¬(segment = "" ∨ segment = ".")) (hup : segment ≠ "..")
    {members : List (String × Node)}
    (h : root.get? (here ++ [segment]) = some (.directory members)) :
    root.lookup links here (segment :: rest) = root.lookup links (here ++ [segment]) rest := by
  rw [lookup, if_neg hplain, if_neg hup, h]

theorem lookup_file (hplain : ¬(segment = "" ∨ segment = ".")) (hup : segment ≠ "..")
    {content : ByteArray} (h : root.get? (here ++ [segment]) = some (.file content)) :
    root.lookup links here [segment] = .found (here ++ [segment]) (.file content) := by
  rw [lookup, if_neg hplain, if_neg hup, h]
  rfl

theorem lookup_link (hplain : ¬(segment = "" ∨ segment = ".")) (hup : segment ≠ "..")
    {target : String} (h : root.get? (here ++ [segment]) = some (.link target)) :
    root.lookup (links + 1) here (segment :: rest) =
      root.lookup links (if isAbsoluteTarget target then [] else here)
        (linkSegments target ++ rest) := by
  rw [lookup, if_neg hplain, if_neg hup, h]

end Steps

variable {root : Node} {place here segments : List String} {links : Nat}

theorem takes_of_lookup (h : (root.lookup links here segments).target? = some place) :
    root.Takes place := by
  fun_induction Node.lookup root links here segments with
  | case1 links here node hnode =>
      cases node with
      | file content =>
          obtain rfl := Option.some.inj h
          exact .file hnode
      | directory members => simp [Lookup.target?] at h
      | link target => simp [Lookup.target?] at h
  | case2 | case6 | case9 | case10 => simp [Lookup.target?] at h
  | case3 _ _ _ _ _ ih => exact ih h
  | case4 _ _ _ _ ih => exact ih h
  | case5 links here segment rest hplain hup hnone hvacant =>
      obtain rfl := Option.some.inj h
      simp only [Bool.and_eq_true, Option.any_eq_true] at hvacant
      obtain ⟨⟨-, hname⟩, node, hnode, hdirectory⟩ := hvacant
      cases node with
      | directory members => exact .vacant hnode hname hnone
      | file content => simp [isDirectory] at hdirectory
      | link target => simp [isDirectory] at hdirectory
  | case7 _ _ _ _ _ _ _ _ ih => exact ih h
  | case8 links here segment rest hplain hup content hfile =>
      obtain rfl := Option.some.inj h
      exact .file hfile
  | case11 _ _ _ _ _ _ _ _ ih => exact ih h

theorem get?_of_lookup_eq_found {found : Node}
    (h : root.lookup links here segments = .found place found) : root.get? place = some found := by
  fun_induction Node.lookup root links here segments with
  | case1 links here node hnode =>
      obtain ⟨rfl, rfl⟩ := Lookup.found.inj h
      exact hnode
  | case2 | case5 | case6 | case9 | case10 => simp at h
  | case3 _ _ _ _ _ ih => exact ih h
  | case4 _ _ _ _ ih => exact ih h
  | case7 _ _ _ _ _ _ _ _ ih => exact ih h
  | case8 links here segment rest hplain hup content hfile =>
      obtain ⟨rfl, rfl⟩ := Lookup.found.inj h
      exact hfile
  | case11 _ _ _ _ _ _ _ _ ih => exact ih h

/-- If a file is put at the place to which a path leads, the path leads to it. -/
theorem lookup_put (hroot : root.WellFormed) (content : ByteArray)
    (h : (root.lookup links here segments).target? = some place) :
    (put (.file content) place root).lookup links here segments =
      .found place (.file content) := by
  -- No directory or link is at the place or below it, so those on the way stay as they are and
  -- each step leads on as before.
  have htakes := takes_of_lookup h
  have hput := htakes.get?_put hroot (.file content)
  fun_induction Node.lookup root links here segments with
  | case1 links here node hnode =>
      cases node with
      | file old =>
          obtain rfl := Option.some.inj h
          rw [lookup, hput]
      | directory members => simp [Lookup.target?] at h
      | link target => simp [Lookup.target?] at h
  | case2 | case6 | case9 | case10 => simp [Lookup.target?] at h
  | case3 links here segment rest hplain ih =>
      rw [lookup, if_pos hplain]
      exact ih h
  | case4 links here rest hplain ih =>
      rw [lookup, if_neg hplain, if_pos rfl]
      exact ih h
  | case5 links here segment rest hplain hup hnone hvacant =>
      obtain rfl := Option.some.inj h
      simp only [Bool.and_eq_true, List.isEmpty_iff] at hvacant
      rw [hvacant.1.1]
      exact lookup_file hplain hup hput
  | case7 links here segment rest hplain hup members hmembers ih =>
      have hprefix := htakes.not_prefix hmembers rfl
      rcases get?_put_cases (.file content) hprefix hmembers with hsame | ⟨_, _, -, hsame⟩ <;>
        · rw [lookup_directory hplain hup hsame]
          exact ih h
  | case8 links here segment rest hplain hup old hfile hrest =>
      obtain rfl := Option.some.inj h
      rw [List.isEmpty_iff.1 hrest]
      exact lookup_file hplain hup hput
  | case11 here segment rest hplain hup target htarget links ih =>
      have hprefix := htakes.not_prefix htarget rfl
      rcases get?_put_cases (.file content) hprefix htarget with hsame | ⟨_, _, heq, -⟩
      · rw [lookup_link hplain hup hsame]
        exact ih h
      · simp at heq

end Node

namespace FileTree

theorem wellFormed_of_node? {tree : FileTree} {path : Path} {node : Node}
    (h : tree.node? path = some node) : node.WellFormed := by
  rw [node?] at h
  split at h
  · next place found hlookup =>
    obtain rfl := Option.some.inj h
    exact Node.wellFormed_of_get? tree.wellFormed (Node.get?_of_lookup_eq_found hlookup)
  · simp at h

/-! ## Writing -/

theorem Attempt.andThen_of_error_eq_none {first : Attempt} {next : FileTree → Attempt}
    (h : (first.andThen next).error = none) : first.andThen next = next first.tree := by
  rw [andThen] at h ⊢
  split
  · next hfirst =>
    rw [if_pos hfirst] at h
    simp [h] at hfirst
  · rfl

/-- A file is written where its path leads, or not at all. -/
theorem writeIn_cases (tree : FileTree) (path : Path) :
    (∃ place, (tree.lookup path).target? = some place ∧
        ∀ content, tree.writeIn path content = { tree := tree.putFile place content }) ∨
      ∃ e, ∀ content, tree.writeIn path content = { tree, error := some e } := by
  cases hlookup : tree.lookup path with
  | found place node =>
      cases node with
      | file old => exact Or.inl ⟨place, rfl, fun content => by rw [writeIn, hlookup]⟩
      | directory members => exact Or.inr ⟨.isDirectory, fun content => by rw [writeIn, hlookup]⟩
      | link target => exact Or.inr ⟨.isDirectory, fun content => by rw [writeIn, hlookup]⟩
  | vacant directory name =>
      exact Or.inl ⟨directory ++ [name], rfl, fun content => by rw [writeIn, hlookup]⟩
  | missing => exact Or.inr ⟨.leadsNowhere, fun content => by rw [writeIn, hlookup]⟩
  | notDirectory => exact Or.inr ⟨.throughNoDirectory, fun content => by rw [writeIn, hlookup]⟩
  | tooManyLinks => exact Or.inr ⟨.tooManyLinks, fun content => by rw [writeIn, hlookup]⟩

theorem bytes?_putFile {tree : FileTree} {path : Path} {place : List String}
    (h : (tree.lookup path).target? = some place) (content : ByteArray) :
    (tree.putFile place content).bytes? path = some content := by
  have hlookup : (tree.putFile place content).lookup path = .found place (.file content) :=
    Node.lookup_put tree.wellFormed content h
  rw [bytes?, node?, hlookup]

/-- A file that was written is read back as it was written. -/
theorem bytes?_write {tree : FileTree} {path : Path} {content : ByteArray}
    (h : (tree.write path content).error = none) :
    (tree.write path content).tree.bytes? path = some content := by
  have hwrite := Attempt.andThen_of_error_eq_none h
  rw [write, hwrite]
  rw [write, hwrite] at h
  rcases writeIn_cases (tree.makeDirectories path.root path.parent.segments.reverse).tree path with
    ⟨place, hplace, hwritten⟩ | ⟨e, hfailed⟩
  · rw [hwritten]
    exact bytes?_putFile hplace content
  · simp [hfailed] at h

/-- Whether a file can be written does not depend on its content. -/
theorem error_write (tree : FileTree) (path : Path) (content content' : ByteArray) :
    (tree.write path content).error = (tree.write path content').error := by
  rw [write, write, Attempt.andThen, Attempt.andThen]
  split
  · rfl
  · rcases writeIn_cases (tree.makeDirectories path.root path.parent.segments.reverse).tree path
      with ⟨place, -, hwritten⟩ | ⟨e, hfailed⟩
    · rw [hwritten, hwritten]
    · rw [hfailed, hfailed]

end FileTree

end GradleWorkspace
