import Mathlib.Data.List.Nodup
import GradleWorkspace.Analysis
import GradleWorkspace.Proofs.Discovery.Walk

/-!
# Discovery finds no duplicates

`discover` can only fail if two modules share a name or a path, and this never happens.  The
paths differ because the directories of a tree are listed once each and no name has a slash; the
names differ because each module is given a name that is not taken.

* `Text.segments_relativeText` gets the segments back from the text of a path.
* `nodup_relativeText_candidateDirectories` says that the listed directories have different paths.
* `loadModules_cons_eq` is one step of the loop: a directory adds what is kept of its module.
* `names_loadModules` says that the modules of some directories have different names.
* `exists_discover_eq_ok` is the result.
-/

namespace GradleWorkspace

/-! ## Texts of paths -/

theorem ne_slash_of_isMemberName {name : String} (h : isMemberName name) :
    ∀ c ∈ name.toList, (c == '/') = false := by
  intro c hc
  simp only [isMemberName, Bool.and_eq_true, Bool.not_eq_true', List.contains_eq_mem,
    decide_eq_false_iff_not] at h
  simpa using ne_of_mem_of_not_mem hc h.2

theorem toList_ne_nil_of_isMemberName {name : String} (h : isMemberName name) :
    name.toList ≠ [] := by
  rintro hnil
  obtain rfl := String.toList_eq_nil_iff.1 hnil
  simp [isMemberName] at h

/-- The segments of a path can be read off its text. -/
theorem segments_relativeText {place : List String} (h : ∀ name ∈ place, isMemberName name) :
    Text.segments (· == '/') (Path.relativeText place) = place :=
  Text.segments_intercalate rfl rfl
    (fun name hname => toList_ne_nil_of_isMemberName (h name hname))
    (fun name hname => ne_slash_of_isMemberName (h name hname))

/-! ## Listed directories -/

section Candidates

variable (tree : FileTree) (root : Path) (exclude : List String)

theorem candidateDirectories_cases :
    (candidateDirectories tree root exclude).value = [[]] ∨ ∃ node : Node, node.WellFormed ∧
      (candidateDirectories tree root exclude).value = node.directories exclude := by
  rw [candidateDirectories]
  split
  · next members hnode => exact Or.inr ⟨_, FileTree.wellFormed_of_node? hnode, rfl⟩
  · exact Or.inl rfl

/-- The directories that are looked at have different paths. -/
theorem nodup_relativeText_candidateDirectories :
    ((candidateDirectories tree root exclude).value.map Path.relativeText).Nodup := by
  rcases candidateDirectories_cases tree root exclude with heq | ⟨node, hnode, heq⟩
  · simp [heq]
  · rw [heq]
    refine (Node.nodup_directories exclude hnode).map_on fun place hplace other hother htext => ?_
    have hsegments : ∀ listed ∈ node.directories exclude,
        Text.segments (· == '/') (Path.relativeText listed) = listed := fun listed hlisted =>
      segments_relativeText (Node.isMemberName_of_mem_directories exclude hnode hlisted)
    rw [← hsegments place hplace, ← hsegments other hother, htext]

end Candidates

/-! ## Modules with names of their own -/

/-- Only the name of a module may be another one than before, and it is not taken. -/
theorem of_chooseName_eq_some {taken : TakenNames} {m chosen : Module}
    (h : (chooseName taken m).value = some chosen) :
    chosen = { m with name := chosen.name } ∧ taken.lookup chosen.name = none := by
  unfold chooseName at h
  split at h
  · next hfree =>
    obtain rfl := Option.some.inj h
    exact ⟨rfl, by simpa using hfree⟩
  · dsimp only at h
    split at h
    · simp at h
    · next hfallback =>
      obtain rfl := Option.some.inj h
      exact ⟨rfl, Option.not_isSome_iff_eq_none.1 (not_or.1 hfallback).2⟩

/-- What is kept of the module in a directory, if there is one. -/
def keep (taken : TakenNames) (found : Option Module) : Logged (Option Module) :=
  found.elim (.pure none) (chooseName taken)

/-- The names that are taken after a module was kept or not. -/
def takenWith (taken : TakenNames) (kept : Option Module) : TakenNames :=
  (kept.map fun m => (m.name, m.path)).toList ++ taken

theorem of_keep_eq_some {taken : TakenNames} {found : Option Module} {m : Module}
    (h : (keep taken found).value = some m) :
    ∃ before, found = some before ∧ m = { before with name := m.name } ∧
      taken.lookup m.name = none := by
  cases found with
  | none => simp [keep, Logged.pure] at h
  | some before => exact ⟨before, rfl, of_chooseName_eq_some h⟩

theorem path_of_loadModule {tree : FileTree} {root : Path} {rootName : String}
    {directory : List String} {m : Module}
    (h : (loadModule tree root rootName directory).value = some m) :
    m.path = Path.relativeText directory := by
  unfold loadModule at h
  dsimp only at h
  split at h
  · simp [Logged.pure] at h
  · obtain rfl := Option.some.inj h
    rfl

section LoadModules

variable (tree : FileTree) (root : Path) (rootName : String)

/-- A directory adds the module that is kept of it, and its messages. -/
theorem loadModules_cons_eq (taken : TakenNames) (directory : List String)
    (rest : List (List String)) :
    loadModules tree root rootName taken (directory :: rest) =
      let load := loadModule tree root rootName directory
      let kept := keep taken load.value
      let others := loadModules tree root rootName (takenWith taken kept.value) rest
      { value := kept.value.toList ++ others.value
        messages := load.messages ++ kept.messages ++ others.messages } := by
  rw [loadModules]
  cases loadModule tree root rootName directory with
  | mk found messages =>
      cases found with
      | none => simp [bind, Logged.bind, keep, takenWith, Logged.pure]
      | some found =>
          cases hchosen : chooseName taken found with
          | mk kept notes =>
              cases kept with
              | none => simp [bind, Logged.bind, keep, takenWith, hchosen]
              | some m => simp [bind, Logged.bind, keep, takenWith, pure, Logged.pure, hchosen]

/-- A directory adds nothing to the modules, or a module with its path and a name of its own. -/
theorem loadModules_cons (taken : TakenNames) (directory : List String)
    (directories : List (List String)) :
    (loadModules tree root rootName taken (directory :: directories)).value =
        (loadModules tree root rootName taken directories).value ∨
      ∃ m : Module, m.path = Path.relativeText directory ∧ taken.lookup m.name = none ∧
        (loadModules tree root rootName taken (directory :: directories)).value =
          m :: (loadModules tree root rootName ((m.name, m.path) :: taken) directories).value := by
  rw [loadModules_cons_eq]
  dsimp only
  cases hkept : (keep taken (loadModule tree root rootName directory).value).value with
  | none => exact Or.inl rfl
  | some m =>
      obtain ⟨found, hfound, hm, hname⟩ := of_keep_eq_some hkept
      have hpath : m.path = found.path := by rw [hm]
      exact Or.inr ⟨m, hpath.trans (path_of_loadModule hfound), hname, rfl⟩

theorem paths_loadModules_sublist (taken : TakenNames) (directories : List (List String)) :
    ((loadModules tree root rootName taken directories).value.map Module.path).Sublist
      (directories.map Path.relativeText) := by
  induction directories generalizing taken with
  | nil => exact List.Sublist.slnil
  | cons directory rest ih =>
      rcases loadModules_cons tree root rootName taken directory rest with
        heq | ⟨m, hpath, -, heq⟩
      · rw [heq]
        exact (ih taken).cons _
      · rw [heq, List.map_cons, List.map_cons, hpath]
        exact (ih _).cons_cons _

/-- The modules in some directories have names of their own, which are not taken before. -/
theorem names_loadModules (taken : TakenNames) (directories : List (List String)) :
    ((loadModules tree root rootName taken directories).value.map Module.name).Nodup ∧
      ∀ m ∈ (loadModules tree root rootName taken directories).value,
        taken.lookup m.name = none := by
  induction directories generalizing taken with
  | nil => exact ⟨List.nodup_nil, by simp [loadModules, Logged.pure]⟩
  | cons directory rest ih =>
      rcases loadModules_cons tree root rootName taken directory rest with
        heq | ⟨m, -, hname, heq⟩
      · rw [heq]
        exact ih taken
      · obtain ⟨hnodup, hfree⟩ := ih ((m.name, m.path) :: taken)
        rw [heq, List.map_cons, List.nodup_cons]
        -- The name is taken when the modules after it are given theirs.
        generalize (loadModules _ _ _ ((m.name, m.path) :: taken) rest).value = others at *
        have hne : ∀ other ∈ others, other.name ≠ m.name ∧ taken.lookup other.name = none := by
          intro other hother
          have hlookup := hfree other hother
          rw [List.lookup_cons] at hlookup
          split at hlookup
          · simp at hlookup
          · next hne => exact ⟨by simpa using hne, hlookup⟩
        refine ⟨⟨fun hmem => ?_, hnodup⟩,
          List.forall_mem_cons.2 ⟨hname, fun other hother => (hne other hother).2⟩⟩
        obtain ⟨other, hother, heq⟩ := List.mem_map.1 hmem
        exact (hne other hother).1 heq

end LoadModules

/-! ## The workspace -/

theorem firstDuplicate_eq_none {names paths : List String} {modules : List Module}
    (hnames : (modules.map Module.name).Nodup) (hpaths : (modules.map Module.path).Nodup)
    (h : ∀ m ∈ modules, m.name ∉ names ∧ m.path ∉ paths) :
    Workspace.firstDuplicate names paths modules = none := by
  induction modules generalizing names paths with
  | nil => rfl
  | cons m rest ih =>
      rw [List.map_cons, List.nodup_cons] at hnames hpaths
      obtain ⟨hm, hrest⟩ := List.forall_mem_cons.1 h
      rw [Workspace.firstDuplicate, if_neg hm.1, if_neg hm.2]
      refine ih hnames.2 hpaths.2 fun other hother => ⟨?_, ?_⟩
      · have hname := ne_of_mem_of_not_mem (List.mem_map_of_mem hother) hnames.1
        simpa [hname] using (hrest other hother).1
      · have hpath := ne_of_mem_of_not_mem (List.mem_map_of_mem hother) hpaths.1
        simpa [hpath] using (hrest other hother).2

theorem exists_ofModules_eq_ok (root : String) {modules : List Module} (includes : List String)
    (hnames : (modules.map Module.name).Nodup) (hpaths : (modules.map Module.path).Nodup) :
    ∃ ws, Workspace.ofModules root modules includes = .ok ws := by
  have hnone : Workspace.firstDuplicate [] [] modules = none :=
    firstDuplicate_eq_none hnames hpaths (by simp)
  unfold Workspace.ofModules
  split
  · next hsome => simp [hnone] at hsome
  · exact ⟨_, rfl⟩

/-- A workspace is made of what it was given. -/
theorem of_ofModules_eq_ok {root : String} {modules : List Module} {includes : List String}
    {ws : Workspace} (h : Workspace.ofModules root modules includes = .ok ws) :
    ws.root = root ∧ ws.modules = modules ∧ ws.includes = includes := by
  unfold Workspace.ofModules at h
  split at h
  · simp at h
  · obtain rfl := Except.ok.inj h
    exact ⟨rfl, rfl, rfl⟩

/-- Discovery does not fail. -/
theorem exists_discover_eq_ok (tree : FileTree) (root : Path) (exclude : List String) :
    ∃ ws, (discover tree root exclude).value = .ok ws := by
  simp only [discover, Logged.value_bind, Logged.value_pure]
  refine exists_ofModules_eq_ok _ _ (names_loadModules _ _ _ _ _).1 ?_
  exact (nodup_relativeText_candidateDirectories tree root exclude).sublist
    (paths_loadModules_sublist _ _ _ _ _)

theorem discoverAt_of_discover {tree : FileTree} {directory root : Path} {exclude : List String}
    {ws : Workspace} (hroot : tree.resolve? directory = some root)
    (hws : (discover tree root exclude).value = .ok ws) :
    discoverAt tree directory exclude =
      .ok { value := ws, messages := (discover tree root exclude).messages } := by
  rw [discoverAt, hroot]
  dsimp only
  split
  · next e he => simp [hws] at he
  · next found hfound =>
    obtain rfl := Except.ok.inj (hfound.symm.trans hws)
    rfl

/-- A workspace is found wherever the path of its directory can be resolved. -/
theorem exists_discoverAt_eq_ok {tree : FileTree} {root place : Path} (exclude : List String)
    (hplace : tree.resolve? root = some place) :
    ∃ found : Logged Workspace, discoverAt tree root exclude = .ok found ∧
      (discover tree place exclude).value = .ok found.value := by
  obtain ⟨ws, hws⟩ := exists_discover_eq_ok tree place exclude
  exact ⟨_, discoverAt_of_discover hplace hws, hws⟩

end GradleWorkspace
