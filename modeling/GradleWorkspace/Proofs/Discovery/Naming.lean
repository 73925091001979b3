import Mathlib
import GradleWorkspace.Proofs.Discovery.Visible
import GradleWorkspace.Proofs.SettingsFile

/-!
# How modules get their names

A module is named by the last segment of its path, or by its whole path with hyphens if that name
is used already, and it is left out if both are used.  The names that count are those that modules
before it were given, be it the one or the other.  The module in the directory of the workspace
itself has the name that the settings file gives, or else the name of the directory.

* `IsRootName` says what the name of a workspace is, by the text of its settings file, and
  `isRootName_iff` that discovery uses this name.
* `Placement` records what was found in a directory and what became of it, and
  `Placement.Allowed` says which placements are right after the modules that were kept before.
* `allowed_choose` is about one module, `exists_placements` about a list of directories.
* `discover_places_modules` is the result for a whole workspace, with all messages.
-/

namespace GradleWorkspace

/-! ## The name of a workspace -/

/-- The text of the settings file of a workspace, which is the first of the two files that exists.
There is none if its bytes are no text. -/
def settingsText? (tree : FileTree) (root : Path) : Option String :=
  (["settings.gradle", "settings.gradle.kts"].findSome? fun name =>
    tree.bytes? (root.member name)).bind decodeText

/-- The name of a workspace: the settings file gives it, or else it is the last segment of the path
of the directory. -/
inductive IsRootName (tree : FileTree) (root : Path) : String → Prop
  | given {text name : String} (htext : settingsText? tree root = some text)
      (hname : SettingsFile.GivesName text name) : IsRootName tree root name
  | ofDirectory (h : ∀ text name, settingsText? tree root = some text →
      ¬SettingsFile.GivesName text name) :
      IsRootName tree root (root.segments.getLast?.getD "")

/-- The name of the module in the directory of the workspace itself. -/
def rootModuleName (tree : FileTree) (root : Path) : String :=
  (readSettings tree root).value.rootName.getD root.name

/-- The content of the first file that exists. -/
theorem bind_firstFile? (tree : FileTree) (directory : Path) (names : List String) :
    ((tree.firstFile? directory names).bind fun name => tree.bytes? (directory.member name)) =
      names.findSome? fun name => tree.bytes? (directory.member name) := by
  induction names with
  | nil => rfl
  | cons name names ih =>
      rw [FileTree.firstFile?, List.find?_cons, List.findSome?_cons, FileTree.isFile_eq]
      cases hcontent : tree.bytes? (directory.member name) with
      | none => exact ih
      | some content => exact hcontent

theorem rootName_readSettings (tree : FileTree) (root : Path) :
    (readSettings tree root).value.rootName =
      (settingsText? tree root).bind SettingsFile.rootName? := by
  have htext : settingsText? tree root = (tree.settingsFile? root).bind fun name =>
      (tree.bytes? (root.member name)).bind decodeText := by
    rw [settingsText?, ← bind_firstFile?, Option.bind_assoc]
    rfl
  rw [htext, readSettings]
  cases tree.settingsFile? root with
  | none => rfl
  | some name =>
      simp only [FileTree.readText, Option.bind_some]
      cases (tree.bytes? (root.member name)).bind decodeText <;> rfl

/-- A workspace has one name, and discovery uses it. -/
theorem isRootName_iff {tree : FileTree} {root : Path} {name : String} :
    IsRootName tree root name ↔ name = rootModuleName tree root := by
  rw [rootModuleName, rootName_readSettings]
  constructor
  · rintro (⟨htext, hname⟩ | hnone)
    · rw [htext, Option.bind_some, SettingsFile.rootName?_eq_some_iff.2 hname, Option.getD_some]
    · have hnot : (settingsText? tree root).bind SettingsFile.rootName? = none := by
        refine Option.bind_eq_none_iff.2 fun text htext => ?_
        exact Option.eq_none_iff_forall_ne_some.2 fun name hname =>
          hnone text name htext (SettingsFile.rootName?_eq_some_iff.1 hname)
      rw [hnot]
      rfl
  · rintro rfl
    cases hname : (settingsText? tree root).bind SettingsFile.rootName? with
    | some name =>
        obtain ⟨text, htext, hname⟩ := Option.bind_eq_some_iff.1 hname
        exact .given htext (SettingsFile.rootName?_eq_some_iff.1 hname)
    | none =>
        refine .ofDirectory fun text name htext hgiven => ?_
        rw [htext, Option.bind_some, SettingsFile.rootName?_eq_some_iff.2 hgiven] at hname
        simp at hname

/-! ## What becomes of a module -/

/-- What discovery made of a directory with a build file: the module found there, the module that
was kept, if any, and the messages about its name. -/
structure Placement where
  directory : List String
  found : Module
  kept : Option Module
  notes : List Message

namespace Placement

/-- The module that was found is the one in the directory.  It has the path of the directory and
is named by its last segment; the workspace itself has a name of its own. -/
structure IsFound (tree : FileTree) (root : Path) (rootName : String) (p : Placement) : Prop where
  loaded : (loadModule tree root rootName p.directory).value = some p.found
  name : p.found.name = p.directory.getLast?.getD rootName
  path : p.found.path = "/".intercalate p.directory

/-- The name of a module whose own name is used: the names of the directories that lead to it, with
hyphens between them. -/
def fallbackName (p : Placement) : String := "-".intercalate p.directory

/-- The warning that a module is named by its whole path. -/
def renamedNote (p : Placement) (owner : Module) : Message :=
  ⟨.warning, "Naming " ++ p.found.path ++ " " ++ Text.quoted p.fallbackName ++ ": module name " ++
    Text.quoted p.found.name ++ " already used by " ++ shownPath owner.path⟩

/-- The warning that a module is left out. -/
def skippedNote (p : Placement) (owner : Module) : Message :=
  ⟨.warning, "Skipping " ++ p.found.path ++ ": module name " ++ Text.quoted p.found.name ++
    " already used by " ++ shownPath owner.path⟩

/-- What may become of a module after the given ones were kept. -/
inductive Allowed (before : List Module) (p : Placement) : Prop
  /-- Its name is not used. -/
  | natural (hfree : p.found.name ∉ before.map Module.name) (hkept : p.kept = some p.found)
      (hnotes : p.notes = [])
  /-- Its name is used, but its path with hyphens is not. -/
  | fallback (owner : Module) (howner : owner ∈ before) (hname : owner.name = p.found.name)
      (hfree : p.fallbackName ∉ before.map Module.name)
      (hkept : p.kept = some { p.found with name := p.fallbackName })
      (hnotes : p.notes = [p.renamedNote owner])
  /-- Both are used. -/
  | skipped (owner : Module) (howner : owner ∈ before) (hname : owner.name = p.found.name)
      (hused : p.fallbackName ∈ before.map Module.name) (hkept : p.kept = none)
      (hnotes : p.notes = [p.skippedNote owner])

namespace Allowed

variable {p : Placement} {before : List Module} {owner : Module}

theorem of_free (h : p.Allowed before) (hfree : p.found.name ∉ before.map Module.name) :
    p.kept = some p.found ∧ p.notes = [] := by
  have hunused : ∀ other ∈ before, other.name ≠ p.found.name := fun other hother heq =>
    hfree (heq ▸ List.mem_map_of_mem hother)
  cases h with
  | natural _ hkept hnotes => exact ⟨hkept, hnotes⟩
  | fallback other hother hname => exact absurd hname (hunused other hother)
  | skipped other hother hname => exact absurd hname (hunused other hother)

/-- Where the names of modules are different, a name that is used has one owner. -/
theorem of_used (h : p.Allowed before) (hnodup : (before.map Module.name).Nodup)
    (howner : owner ∈ before) (hname : owner.name = p.found.name) :
    p.fallbackName ∉ before.map Module.name ∧
        p.kept = some { p.found with name := p.fallbackName } ∧ p.notes = [p.renamedNote owner] ∨
      p.fallbackName ∈ before.map Module.name ∧ p.kept = none ∧
        p.notes = [p.skippedNote owner] := by
  have hsame : ∀ other ∈ before, other.name = p.found.name → other = owner :=
    fun other hother heq => List.inj_on_of_nodup_map hnodup hother howner (heq.trans hname.symm)
  cases h with
  | natural hfree => exact absurd (List.mem_map.2 ⟨owner, howner, hname⟩) hfree
  | fallback other hother hname' hfree hkept hnotes =>
      obtain rfl := hsame other hother hname'
      exact Or.inl ⟨hfree, hkept, hnotes⟩
  | skipped other hother hname' hused hkept hnotes =>
      obtain rfl := hsame other hother hname'
      exact Or.inr ⟨hused, hkept, hnotes⟩

end Allowed

end Placement

/-! ## One module -/

/-- The names of the given modules as they are taken. -/
def takenBy (before : List Module) : TakenNames :=
  (before.map fun m => (m.name, m.path)).reverse

theorem takenBy_concat (before : List Module) (m : Module) :
    takenBy (before ++ [m]) = (m.name, m.path) :: takenBy before := by
  simp [takenBy]

theorem isSome_lookup_takenBy {before : List Module} {name : String} :
    ((takenBy before).lookup name).isSome ↔ name ∈ before.map Module.name := by
  have hsame : ∀ m : Module, name = m.name ↔ m.name = name := fun m => eq_comm
  simp [List.lookup_isSome_iff, takenBy, hsame]

theorem exists_of_lookup_takenBy {before : List Module} {name path : String}
    (h : (takenBy before).lookup name = some path) :
    ∃ owner ∈ before, owner.name = name ∧ owner.path = path := by
  obtain ⟨_, _, heq, -⟩ := List.lookup_eq_some_iff.1 h
  have hmem : (name, path) ∈ takenBy before := heq ▸ List.mem_append_right _ List.mem_cons_self
  obtain ⟨owner, howner, hentry⟩ := List.mem_map.1 (List.mem_reverse.1 hmem)
  exact ⟨owner, howner, congrArg Prod.fst hentry, congrArg Prod.snd hentry⟩

/-- The placement of a module whose name is chosen after the given modules were kept. -/
def Placement.choose (before : List Module) (directory : List String) (found : Module) :
    Placement where
  directory := directory
  found := found
  kept := (chooseName (takenBy before) found).value
  notes := (chooseName (takenBy before) found).messages

/-- In the names of directories there is no slash that a hyphen could stand for. -/
theorem hyphenated_relativeText {place : List String} (h : ∀ name ∈ place, isMemberName name) :
    hyphenated (Path.relativeText place) = "-".intercalate place := by
  refine Text.map_intercalate_of_forall rfl fun name hname c hc => if_neg ?_
  simpa using ne_slash_of_isMemberName (h name hname) c hc

/-- The choice of a name is allowed.  The workspace itself has no path to be named by, so that no
module may be kept before it. -/
theorem allowed_choose {before : List Module} {directory : List String} {found : Module}
    (hdirectory : ∀ name ∈ directory, isMemberName name)
    (hfound : found.path = Path.relativeText directory)
    (hroot : found.path = "" → before = []) :
    (Placement.choose before directory found).Allowed before := by
  have hfallback : hyphenated found.path = "-".intercalate directory := by
    rw [hfound, hyphenated_relativeText hdirectory]
  unfold Placement.choose chooseName
  rw [hfallback]
  cases hlookup : (takenBy before).lookup found.name with
  | none =>
      have hfree : found.name ∉ before.map Module.name := fun hmem => by
        simp [← isSome_lookup_takenBy, hlookup] at hmem
      exact .natural hfree rfl rfl
  | some path =>
      obtain ⟨owner, howner, hname, rfl⟩ := exists_of_lookup_takenBy hlookup
      have hpath : found.path ≠ "" := fun heq => by simp [hroot heq] at howner
      have hshown : shownPath found.path = found.path := if_neg hpath
      have howned : ownerOf (takenBy before) found.name = shownPath owner.path := by
        rw [ownerOf, hlookup]
        rfl
      simp only [Option.isNone_some, Bool.false_eq_true, if_false, hpath, false_or,
        isSome_lookup_takenBy, hshown, howned]
      split
      · next hused =>
        refine .skipped owner howner hname hused rfl ?_
        simp only [Logged.messages_bind, Logged.warn, Logged.say, Logged.messages_pure,
          List.append_nil, String.append_assoc, Placement.skippedNote]
      · next hfree =>
        refine .fallback owner howner hname hfree rfl ?_
        simp only [Logged.messages_bind, Logged.warn, Logged.say, Logged.messages_pure,
          List.append_nil, String.append_assoc, Placement.renamedNote, Placement.fallbackName]

/-! ## The modules in some directories -/

/-- Whether a directory, given by its path seen from a root, holds a build file. -/
def holdsBuildFile (tree : FileTree) (root : Path) (directory : List String) : Bool :=
  ["build.gradle", "build.gradle.kts"].any fun name =>
    tree.isFile ((directoryAt root directory).member name)

theorem holdsBuildFile_eq (tree : FileTree) (root : Path) (directory : List String) :
    holdsBuildFile tree root directory =
      (tree.buildFile? (directoryAt root directory)).isSome := by
  rw [Bool.eq_iff_iff, holdsBuildFile, List.any_eq_true]
  exact List.find?_isSome.symm

/-- A directory without a build file is passed over in silence; one with a build file has a module
with its path, named by its last segment. -/
theorem loadModule_cases (tree : FileTree) (root : Path) (rootName : String)
    (directory : List String) :
    (holdsBuildFile tree root directory = false ∧
        loadModule tree root rootName directory = .pure none) ∨
      (holdsBuildFile tree root directory = true ∧
        ∃ m, (loadModule tree root rootName directory).value = some m ∧
          m.name = directory.getLast?.getD rootName ∧ m.path = Path.relativeText directory) := by
  rw [holdsBuildFile_eq]
  unfold loadModule directoryAt
  dsimp only
  cases tree.buildFile? { root with segments := root.segments ++ directory } with
  | none => exact .inl ⟨rfl, rfl⟩
  | some buildFile => exact .inr ⟨rfl, _, rfl, rfl, rfl⟩

/-- Placements of the modules in some directories: there is one for each directory with a build
file, in their order, and each is allowed after those before it. -/
structure ArePlacements (tree : FileTree) (root : Path) (rootName : String) (before : List Module)
    (directories : List (List String)) (placements : List Placement) : Prop where
  directories : placements.map Placement.directory =
    directories.filter (holdsBuildFile tree root)
  found : ∀ p ∈ placements, p.IsFound tree root rootName
  allowed : ∀ earlier p later, placements = earlier ++ p :: later →
    p.Allowed (before ++ earlier.filterMap Placement.kept)

theorem filterMap_kept_cons (p : Placement) (placements : List Placement) :
    (p :: placements).filterMap Placement.kept =
      p.kept.toList ++ placements.filterMap Placement.kept := by
  cases hkept : p.kept <;> simp [hkept]

section ArePlacements

variable {tree : FileTree} {root : Path} {rootName : String} {before : List Module}
  {directory : List String} {rest : List (List String)} {placements : List Placement}

theorem ArePlacements.skip (hnone : holdsBuildFile tree root directory = false)
    (h : ArePlacements tree root rootName before rest placements) :
    ArePlacements tree root rootName before (directory :: rest) placements where
  directories := by rw [h.directories, List.filter_cons_of_neg (by simp [hnone])]
  found := h.found
  allowed := h.allowed

theorem ArePlacements.cons {p : Placement} (hholds : holdsBuildFile tree root p.directory = true)
    (hfound : p.IsFound tree root rootName) (hallowed : p.Allowed before)
    (h : ArePlacements tree root rootName (before ++ p.kept.toList) rest placements) :
    ArePlacements tree root rootName before (p.directory :: rest) (p :: placements) where
  directories := by rw [List.map_cons, h.directories, List.filter_cons_of_pos hholds]
  found := List.forall_mem_cons.2 ⟨hfound, h.found⟩
  allowed earlier q later heq := by
    cases earlier with
    | nil =>
        obtain ⟨rfl, -⟩ := List.cons.inj heq
        simpa using hallowed
    | cons first earlier =>
        obtain ⟨rfl, hrest⟩ := List.cons.inj heq
        rw [filterMap_kept_cons, ← List.append_assoc]
        exact h.allowed earlier q later hrest

/-- What modules are found under is determined by the directories with build files. -/
theorem ArePlacements.map_found {directories : List (List String)}
    (h : ArePlacements tree root rootName before directories placements) :
    placements.map (fun p => (p.found.name, p.found.path, p.fallbackName)) =
      (directories.filter (holdsBuildFile tree root)).map fun directory =>
        (directory.getLast?.getD rootName, "/".intercalate directory,
          "-".intercalate directory) := by
  rw [← h.directories, List.map_map]
  refine List.map_congr_left fun p hp => ?_
  rw [Function.comp_apply, (h.found p hp).name, (h.found p hp).path, Placement.fallbackName]

end ArePlacements

/-- The messages while the module in a directory is looked for, and about its name. -/
def Placement.messages (tree : FileTree) (root : Path) (rootName : String) (p : Placement) :
    List Message :=
  (loadModule tree root rootName p.directory).messages ++ p.notes

theorem takenWith_takenBy (before : List Module) (kept : Option Module) :
    takenWith (takenBy before) kept = takenBy (before ++ kept.toList) := by
  cases kept with
  | none => rw [Option.toList_none, List.append_nil]; rfl
  | some m => exact (takenBy_concat before m).symm

/-- If a module is kept, its name is taken for the modules after it. -/
theorem loadModules_cons_of_found {tree : FileTree} {root : Path} {rootName : String}
    {directory : List String} {found : Module}
    (h : (loadModule tree root rootName directory).value = some found) (before : List Module)
    (rest : List (List String)) :
    loadModules tree root rootName (takenBy before) (directory :: rest) =
      let p := Placement.choose before directory found
      let others := loadModules tree root rootName (takenBy (before ++ p.kept.toList)) rest
      { value := p.kept.toList ++ others.value
        messages := p.messages tree root rootName ++ others.messages } := by
  rw [loadModules_cons_eq]
  dsimp only
  rw [h, takenWith_takenBy]
  rfl

/-- The modules in some directories are those that are kept by placements, if the directory of the
workspace itself is the first one, should it be among them. -/
theorem exists_placements (tree : FileTree) (root : Path) (rootName : String)
    (before : List Module) (directories : List (List String))
    (hdirectories : ∀ directory ∈ directories, ∀ name ∈ directory, isMemberName name)
    (hroot : ∀ earlier directory later, directories = earlier ++ directory :: later →
      Path.relativeText directory = "" → before = [] ∧ earlier = []) :
    ∃ placements, ArePlacements tree root rootName before directories placements ∧
      loadModules tree root rootName (takenBy before) directories =
        { value := placements.filterMap Placement.kept
          messages := placements.flatMap (Placement.messages tree root rootName) } := by
  induction directories generalizing before with
  | nil => exact ⟨[], ⟨rfl, by simp, by simp⟩, rfl⟩
  | cons directory rest ih =>
      -- The workspace itself is not among the other directories, whatever is kept before them.
      have hrest : ∀ (before' : List Module) earlier other later,
          rest = earlier ++ other :: later → Path.relativeText other = "" →
            before' = [] ∧ earlier = [] := by
        intro _ earlier other later heq hempty
        have hfirst := (hroot (directory :: earlier) other later (by rw [heq]; rfl) hempty).2
        exact absurd hfirst (by simp)
      obtain ⟨hdirectory, hothers⟩ := List.forall_mem_cons.1 hdirectories
      rcases loadModule_cases tree root rootName directory with
        ⟨hnone, hload⟩ | ⟨hholds, found, hload, hname, hpath⟩
      · obtain ⟨placements, hplacements, heq⟩ := ih before hothers (hrest before)
        refine ⟨placements, hplacements.skip hnone, ?_⟩
        rw [loadModules, hload]
        exact heq
      · have hempty : found.path = "" → before = [] := fun hempty =>
          (hroot [] directory rest rfl (hpath ▸ hempty)).1
        let p := Placement.choose before directory found
        have hallowed : p.Allowed before := allowed_choose hdirectory hpath hempty
        obtain ⟨placements, hplacements, heq⟩ := ih (before ++ p.kept.toList) hothers (hrest _)
        have hfound : p.IsFound tree root rootName := ⟨hload, hname, hpath⟩
        have hcons := ArePlacements.cons (p := p) hholds hfound hallowed hplacements
        refine ⟨p :: placements, hcons, ?_⟩
        rw [loadModules_cons_of_found hload, filterMap_kept_cons, List.flatMap_cons]
        dsimp only
        rw [heq]

/-! ## The modules of a workspace -/

section Discover

variable (tree : FileTree) (root : Path) (exclude : List String)

/-- Only the first directory that is looked at is the workspace itself. -/
theorem eq_nil_of_relativeText_candidateDirectories {earlier later : List (List String)}
    {directory : List String}
    (h : (candidateDirectories tree root exclude).value = earlier ++ directory :: later)
    (hempty : Path.relativeText directory = "") : earlier = [] := by
  have hfirst : (candidateDirectories tree root exclude).value.head? = some [] := by
    unfold candidateDirectories
    split
    · rw [Node.directories]
      rfl
    · rfl
  have hnodup := nodup_relativeText_candidateDirectories tree root exclude
  rw [h] at hfirst hnodup
  cases earlier with
  | nil => rfl
  | cons first earlier =>
      obtain rfl : first = [] := by simpa using hfirst
      have hnew := (List.nodup_cons.1 hnodup).1
      exact absurd (List.mem_map.2 ⟨directory, by simp, hempty⟩) hnew

/-- Discovery does not fail, and the modules that it finds have different names and paths.  Each
directory with a build file, in the order of the walk, has one placement: its module is kept under
the last segment of its path, or under its whole path with hyphens and with one message, or it is
left out with one message, as the names of the modules kept before it demand.  In the directory of
the workspace itself, the module has the name of the workspace.  There are no other messages than
these and those about the files that were read. -/
theorem discover_places_modules :
    ∃ rootName ws placements, IsRootName tree root rootName ∧
      (discover tree root exclude).value = .ok ws ∧
      ws.names.Nodup ∧ (ws.modules.map Module.path).Nodup ∧
      ArePlacements tree root rootName [] (candidateDirectories tree root exclude).value
        placements ∧
      ws.modules = placements.filterMap Placement.kept ∧
      (discover tree root exclude).messages =
        (readSettings tree root).messages ++ (candidateDirectories tree root exclude).messages ++
          placements.flatMap (Placement.messages tree root rootName) ++
          [⟨.debug, "Discovered " ++ toString ws.modules.length ++ " modules under " ++
            root.text⟩] := by
  obtain ⟨placements, hplacements, heq⟩ := exists_placements tree root (rootModuleName tree root)
    [] (candidateDirectories tree root exclude).value
      (fun _ hdirectory => (of_mem_candidateDirectories hdirectory).2)
      fun _ _ _ hsplit hempty =>
        ⟨rfl, eq_nil_of_relativeText_candidateDirectories tree root exclude hsplit hempty⟩
  obtain ⟨ws, hws⟩ := exists_discover_eq_ok tree root exclude
  have hmodules : ws.modules = placements.filterMap Placement.kept := by
    refine (of_ofModules_eq_ok hws).2.1.trans ?_
    exact congrArg Logged.value heq
  refine ⟨rootModuleName tree root, ws, placements, isRootName_iff.2 rfl, hws, ws.nodup_names,
    ws.nodup_paths, hplacements, hmodules, ?_⟩
  have hmessages : (loadModules tree root (rootModuleName tree root) []
      (candidateDirectories tree root exclude).value).messages =
        placements.flatMap (Placement.messages tree root (rootModuleName tree root)) :=
    congrArg Logged.messages heq
  have hvalue : (loadModules tree root (rootModuleName tree root) []
      (candidateDirectories tree root exclude).value).value = ws.modules :=
    (congrArg Logged.value heq).trans hmodules.symm
  rw [← hmessages, ← hvalue]
  simp [discover, rootModuleName, Logged.debug, Logged.say]

end Discover

/-- A workspace that is named by its settings file.  Two directories have the name `api`, and a
third one has the name that the second of them is given instead. -/
def clashingTree : FileTree :=
  ((((FileTree.empty.putFile ["ws", "settings.gradle"] "rootProject.name = 'shop'".toUTF8).putFile
    ["ws", "build.gradle"] "".toUTF8).putFile
    ["ws", "apps", "api", "build.gradle"] "".toUTF8).putFile
    ["ws", "libs", "api", "build.gradle"] "".toUTF8).putFile
    ["ws", "libs-api", "build.gradle.kts"] "".toUTF8

theorem eq_shop_of_isRootName {rootName : String}
    (h : IsRootName clashingTree (.absolute ["ws"]) rootName) : rootName = "shop" := by
  have htext : settingsText? clashingTree (.absolute ["ws"]) =
      some "rootProject.name = 'shop'" := by cbv
  have hname : SettingsFile.rootName? "rootProject.name = 'shop'" = some "shop" := by
    decide +kernel
  rw [isRootName_iff.1 h, rootModuleName, rootName_readSettings, htext, Option.bind_some, hname,
    Option.getD_some]

/-- The modules with their names, their paths, and their paths with hyphens. -/
theorem map_found_clashingTree {placements : List Placement}
    (h : ArePlacements clashingTree (.absolute ["ws"]) "shop" []
      (candidateDirectories clashingTree (.absolute ["ws"]) []).value placements) :
    placements.map (fun p => (p.found.name, p.found.path, p.fallbackName)) =
      [("shop", "", ""), ("api", "apps/api", "apps-api"), ("api", "libs/api", "libs-api"),
        ("libs-api", "libs-api", "libs-api")] := by
  have hdirectories : (candidateDirectories clashingTree (.absolute ["ws"]) []).value.filter
      (holdsBuildFile clashingTree (.absolute ["ws"])) =
        [[], ["apps", "api"], ["libs", "api"], ["libs-api"]] := by cbv
  rw [h.map_found, hdirectories]
  rfl

/-- Four modules are found, of which the third has another name and the last has none. -/
theorem of_arePlacements_clashingTree {placements : List Placement}
    (h : ArePlacements clashingTree (.absolute ["ws"]) "shop" []
      (candidateDirectories clashingTree (.absolute ["ws"]) []).value placements) :
    (placements.filterMap Placement.kept).map (fun m => (m.name, m.path)) =
        [("shop", ""), ("api", "apps/api"), ("libs-api", "libs/api")] ∧
      placements.flatMap Placement.notes =
        [⟨.warning, "Naming libs/api 'libs-api': module name 'api' already used by apps/api"⟩,
          ⟨.warning, "Skipping libs-api: module name 'libs-api' already used by libs/api"⟩] := by
  have hfound := map_found_clashingTree h
  obtain ⟨shop, rest, rfl, hshop, hrest⟩ := List.map_eq_cons_iff.1 hfound
  obtain ⟨app, rest, rfl, happ, hrest⟩ := List.map_eq_cons_iff.1 hrest
  obtain ⟨lib, rest, rfl, hlib, hrest⟩ := List.map_eq_cons_iff.1 hrest
  obtain ⟨last, rest, rfl, hlast, hrest⟩ := List.map_eq_cons_iff.1 hrest
  obtain rfl := List.map_eq_nil_iff.1 hrest
  obtain ⟨hshopName, hshopPath, -⟩ := by simpa using hshop
  obtain ⟨happName, happPath, -⟩ := by simpa using happ
  obtain ⟨hlibName, hlibPath, hlibFallback⟩ := by simpa using hlib
  obtain ⟨hlastName, hlastPath, hlastFallback⟩ := by simpa using hlast
  -- What becomes of each module is determined by those that were kept before.
  have hshopAllowed : shop.Allowed [] := h.allowed [] shop _ rfl
  obtain ⟨hshopKept, hshopNotes⟩ := hshopAllowed.of_free (by simp)
  have happAllowed : app.Allowed [shop.found] := by
    simpa [hshopKept] using h.allowed [shop] app _ rfl
  obtain ⟨happKept, happNotes⟩ := happAllowed.of_free (by simp [hshopName, happName])
  have hlibAllowed : lib.Allowed [shop.found, app.found] := by
    simpa [hshopKept, happKept] using h.allowed [shop, app] lib _ rfl
  obtain ⟨hlibKept, hlibNotes⟩ :=
    ((hlibAllowed.of_used (by simp [hshopName, happName]) (by simp)
      (happName.trans hlibName.symm)).resolve_right (by simp [hshopName, happName, hlibFallback])).2
  have hlastAllowed :
      last.Allowed [shop.found, app.found, { lib.found with name := lib.fallbackName }] := by
    simpa [hshopKept, happKept, hlibKept] using h.allowed [shop, app, lib] last _ rfl
  obtain ⟨hlastKept, hlastNotes⟩ :=
    ((hlastAllowed.of_used (by simp [hshopName, happName, hlibFallback])
      (List.mem_cons_of_mem _ (List.mem_cons_of_mem _ List.mem_cons_self))
      (hlibFallback.trans hlastName.symm)).resolve_left
        (by simp [hlibFallback, hlastFallback])).2
  constructor
  · simp [hshopKept, happKept, hlibKept, hlastKept, hshopName, hshopPath, happName, happPath,
      hlibFallback, hlibPath]
  · have hrenamed : lib.renamedNote app.found = ⟨.warning,
        "Naming libs/api 'libs-api': module name 'api' already used by apps/api"⟩ := by
      rw [Placement.renamedNote, hlibFallback, hlibName, hlibPath, happPath]
      decide +kernel
    have hskipped : last.skippedNote { lib.found with name := lib.fallbackName } = ⟨.warning,
        "Skipping libs-api: module name 'libs-api' already used by libs/api"⟩ := by
      rw [Placement.skippedNote, hlastName, hlastPath, hlibPath]
      decide +kernel
    simp [hshopNotes, happNotes, hlibNotes, hlastNotes, hrenamed, hskipped]

/-- The fallback name of one module is the name of another, which is left out. -/
theorem discover_clashingTree :
    ∃ ws, (discover clashingTree (.absolute ["ws"]) []).value = .ok ws ∧
      ws.modules.map (fun m => (m.name, m.path)) =
        [("shop", ""), ("api", "apps/api"), ("libs-api", "libs/api")] ∧
      ⟨.warning, "Naming libs/api 'libs-api': module name 'api' already used by apps/api"⟩ ∈
        (discover clashingTree (.absolute ["ws"]) []).messages ∧
      ⟨.warning, "Skipping libs-api: module name 'libs-api' already used by libs/api"⟩ ∈
        (discover clashingTree (.absolute ["ws"]) []).messages := by
  obtain ⟨rootName, ws, placements, hname, hws, -, -, hplacements, hmodules, hmessages⟩ :=
    discover_places_modules clashingTree (.absolute ["ws"]) []
  obtain rfl := eq_shop_of_isRootName hname
  obtain ⟨hkept, hnotes⟩ := of_arePlacements_clashingTree hplacements
  have hmem : ∀ note ∈ placements.flatMap Placement.notes,
      note ∈ (discover clashingTree (.absolute ["ws"]) []).messages := by
    intro note hnote
    obtain ⟨p, hp, hnote⟩ := List.mem_flatMap.1 hnote
    have hmessage : note ∈ placements.flatMap
        (Placement.messages clashingTree (.absolute ["ws"]) "shop") :=
      List.mem_flatMap.2 ⟨p, hp, List.mem_append_right _ hnote⟩
    rw [hmessages]
    exact List.mem_append_left _ (List.mem_append_right _ hmessage)
  rw [hnotes] at hmem
  exact ⟨ws, hws, hmodules ▸ hkept, hmem _ (by simp), hmem _ (by simp)⟩

end GradleWorkspace
