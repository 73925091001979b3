import Mathlib.Data.List.Find
import GradleWorkspace.Proofs.Discovery
import GradleWorkspace.Proofs.FileTree.LinkFree

/-!
# Discovery sees what is visible

Whatever lies in directories that are left out, and whatever other files the visible directories
have, discovery finds the same modules under the same names and gives the same messages.

* `HaveSameScripts` compares two trees in one directory.  Each step of discovery gives the same
  result if they have the same scripts in the directories that it looks at (`loadModule_congr`,
  `loadModules_congr`, `discover_congr`).
* `LookAlike` compares two trees in all visible directories.  In trees without links it is enough
  for the steps (`LookAlike.candidateDirectories_eq`, `LookAlike.haveSameScripts`).
* `discoverAt_eq_of_lookAlike` is the result.
-/

namespace GradleWorkspace

/-! ## What each step looks at -/

/-- The names of the files that discovery reads. -/
def scriptNames : List String := buildFileNames ++ settingsFileNames

theorem isMemberName_of_mem_scriptNames {name : String} (h : name ∈ scriptNames) :
    isMemberName name := by
  have hall : ∀ name ∈ scriptNames, isMemberName name := by decide
  exact hall name h

theorem isPlain_of_mem_scriptNames {name : String} (h : name ∈ scriptNames) : Path.IsPlain name :=
  Path.isPlain_of_isMemberName (isMemberName_of_mem_scriptNames h)

theorem isPlain_of_mem_script {here place : List String} {name : String}
    (hhere : ∀ segment ∈ here, Path.IsPlain segment)
    (hplace : ∀ segment ∈ place, isMemberName segment) (hname : name ∈ scriptNames) :
    ∀ segment ∈ here ++ place ++ [name], Path.IsPlain segment := by
  simp only [List.forall_mem_append, List.forall_mem_singleton]
  exact ⟨⟨hhere, fun segment hsegment => Path.isPlain_of_isMemberName (hplace segment hsegment)⟩,
    isPlain_of_mem_scriptNames hname⟩

/-- In a directory, two trees have the same scripts with the same bytes. -/
def HaveSameScripts (tree tree' : FileTree) (directory : Path) : Prop :=
  ∀ name ∈ scriptNames, tree.bytes? (directory.member name) = tree'.bytes? (directory.member name)

/-- The path of a directory that is given by its place seen from the root. -/
def directoryAt (root : Path) (place : List String) : Path :=
  { root with segments := root.segments ++ place }

@[simp] theorem directoryAt_nil (root : Path) : directoryAt root [] = root := by
  simp [directoryAt]

theorem FileTree.readText_congr {tree tree' : FileTree} {path : Path}
    (h : tree.bytes? path = tree'.bytes? path) : tree.readText path = tree'.readText path := by
  rw [readText, readText, h]

/-- Which file is the first one depends on the files with the given names only. -/
theorem FileTree.firstFile?_congr {tree tree' : FileTree} {directory : Path} {names : List String}
    (h : ∀ name ∈ names,
      tree.bytes? (directory.member name) = tree'.bytes? (directory.member name)) :
    tree.firstFile? directory names = tree'.firstFile? directory names := by
  refine List.find?_congr fun name hname => ?_
  rw [isFile_eq, isFile_eq, h name hname]

theorem FileTree.mem_of_firstFile?_eq_some {tree : FileTree} {directory : Path}
    {names : List String} {name : String} (h : tree.firstFile? directory names = some name) :
    name ∈ names :=
  List.mem_of_find?_eq_some h

theorem Logged.bind_congr {α β : Type} {first : Logged α} {next next' : α → Logged β}
    (h : next first.value = next' first.value) : (first >>= next) = (first >>= next') := by
  simp only [Bind.bind, Logged.bind, h]

section Steps

variable {tree tree' : FileTree} {root directory : Path}

theorem HaveSameScripts.firstFile?_eq (h : HaveSameScripts tree tree' directory)
    {names : List String} (hnames : names ⊆ scriptNames) :
    tree.firstFile? directory names = tree'.firstFile? directory names :=
  FileTree.firstFile?_congr fun name hname => h name (hnames hname)

theorem HaveSameScripts.buildFile?_eq (h : HaveSameScripts tree tree' directory) :
    tree.buildFile? directory = tree'.buildFile? directory :=
  h.firstFile?_eq (List.subset_append_left _ _)

theorem HaveSameScripts.settingsFile?_eq (h : HaveSameScripts tree tree' directory) :
    tree.settingsFile? directory = tree'.settingsFile? directory :=
  h.firstFile?_eq (List.subset_append_right _ _)

theorem readFacts_congr {path : Path} (h : tree.bytes? path = tree'.bytes? path) :
    readFacts tree path = readFacts tree' path := by
  rw [readFacts, readFacts, FileTree.readText_congr h]

theorem loadModule_congr {place : List String}
    (h : HaveSameScripts tree tree' (directoryAt root place)) (rootName : String) :
    loadModule tree root rootName place = loadModule tree' root rootName place := by
  have hbuild := h.buildFile?_eq
  have hsettings := h.settingsFile?_eq
  simp only [loadModule]
  rw [directoryAt] at hbuild hsettings
  rw [hbuild, hsettings]
  split
  · rfl
  · next buildFile hfile =>
    have hname : buildFile ∈ buildFileNames := FileTree.mem_of_firstFile?_eq_some hfile
    have hbytes := h buildFile (List.mem_append_left _ hname)
    rw [directoryAt] at hbytes
    rw [readFacts_congr hbytes]

/-- The settings depend on the settings files only. -/
theorem readSettings_congr (h : ∀ name ∈ settingsFileNames,
      tree.bytes? (root.member name) = tree'.bytes? (root.member name)) :
    readSettings tree root = readSettings tree' root := by
  have hsettings : tree.settingsFile? root = tree'.settingsFile? root :=
    FileTree.firstFile?_congr h
  rw [readSettings, readSettings, hsettings]
  split
  · rfl
  · next name hfile =>
    rw [FileTree.readText_congr (h name (FileTree.mem_of_firstFile?_eq_some hfile))]

/-- The modules in directories with the same scripts are the same, under the same names. -/
theorem loadModules_congr {directories : List (List String)}
    (h : ∀ place ∈ directories, HaveSameScripts tree tree' (directoryAt root place))
    (rootName : String) (taken : TakenNames) :
    loadModules tree root rootName taken directories =
      loadModules tree' root rootName taken directories := by
  -- One module more would rename modules after it, so the names that are taken have to vary.
  induction directories generalizing taken with
  | nil => rfl
  | cons place rest ih =>
      obtain ⟨hplace, hrest⟩ := List.forall_mem_cons.1 h
      simp only [loadModules, loadModule_congr hplace, ih hrest]

theorem of_mem_candidateDirectories {exclude place : List String}
    (h : place ∈ (candidateDirectories tree root exclude).value) :
    IsVisible exclude place ∧ ∀ name ∈ place, isMemberName name := by
  rcases candidateDirectories_cases tree root exclude with heq | ⟨node, hnode, heq⟩
  · rw [heq, List.mem_singleton] at h
    simp [h]
  · rw [heq] at h
    exact ⟨((Node.mem_directories_iff_isVisible exclude hnode).1 h).2,
      Node.isMemberName_of_mem_directories exclude hnode h⟩

theorem nil_mem_candidateDirectories (tree : FileTree) (root : Path) (exclude : List String) :
    [] ∈ (candidateDirectories tree root exclude).value := by
  rw [candidateDirectories]
  split
  · exact (Node.mem_directories_iff exclude).2 (Or.inl rfl)
  · exact List.mem_singleton_self []

/-- Discovery depends on nothing but the directories that are listed and the scripts in them. -/
theorem discover_congr {exclude : List String}
    (hdirectories : candidateDirectories tree root exclude =
      candidateDirectories tree' root exclude)
    (hscripts : ∀ place ∈ (candidateDirectories tree root exclude).value,
      HaveSameScripts tree tree' (directoryAt root place)) :
    discover tree root exclude = discover tree' root exclude := by
  have hroot : HaveSameScripts tree tree' root := by
    simpa using hscripts [] (nil_mem_candidateDirectories tree root exclude)
  have hsettings : readSettings tree root = readSettings tree' root :=
    readSettings_congr fun name hname => hroot name (List.mem_append_right _ hname)
  rw [discover, discover, hsettings, ← hdirectories]
  refine Logged.bind_congr (Logged.bind_congr ?_)
  rw [loadModules_congr hscripts]

end Steps

/-! ## What is visible -/

/-- Below a place, two trees look alike to a reader who leaves out some names: the visible
directories are the same, and each of them has the same scripts with the same bytes.  A script is a
file; a name that is not used and a directory of that name are the same here. -/
structure LookAlike (exclude here : List String) (tree tree' : FileTree) : Prop where
  directories : ∀ place, IsVisible exclude place →
    (tree.root.get? (here ++ place)).any Node.isDirectory =
      (tree'.root.get? (here ++ place)).any Node.isDirectory
  scripts : ∀ place, IsVisible exclude place →
    (tree.root.get? (here ++ place)).any Node.isDirectory → ∀ name ∈ scriptNames,
      (tree.root.get? (here ++ place ++ [name])).bind Node.content? =
        (tree'.root.get? (here ++ place ++ [name])).bind Node.content?

section LookAlike

variable {exclude here : List String} {tree tree' : FileTree}

/-- The visible directories below a directory are those that are listed for it. -/
theorem FileTree.mem_directories_iff {node : Node} (hnode : tree.root.get? here = some node)
    {place : List String} (hvisible : IsVisible exclude place) :
    place ∈ node.directories exclude ↔
      (tree.root.get? (here ++ place)).any Node.isDirectory = true := by
  rw [Node.get?_append, hnode, Option.bind_some, Node.mem_directories_iff_isVisible exclude
    (Node.wellFormed_of_get? tree.wellFormed hnode), and_iff_left hvisible]

/-- Trees look alike if the same directories are listed and these have the same scripts. -/
theorem lookAlike_of_directories {places : List (List String)}
    (h : (tree.root.get? here).map (Node.directories exclude) = some places)
    (h' : (tree'.root.get? here).map (Node.directories exclude) = some places)
    (hscripts : ∀ place ∈ places, ∀ name ∈ scriptNames,
      (tree.root.get? (here ++ place ++ [name])).bind Node.content? =
        (tree'.root.get? (here ++ place ++ [name])).bind Node.content?) :
    LookAlike exclude here tree tree' := by
  obtain ⟨node, hnode, rfl⟩ := Option.map_eq_some_iff.1 h
  obtain ⟨node', hnode', hplaces⟩ := Option.map_eq_some_iff.1 h'
  constructor
  · intro place hvisible
    rw [Bool.eq_iff_iff, ← FileTree.mem_directories_iff hnode hvisible, ← hplaces,
      FileTree.mem_directories_iff hnode' hvisible]
  · intro place hvisible hdirectory
    exact hscripts place ((FileTree.mem_directories_iff hnode hvisible).2 hdirectory)

theorem candidateDirectories_absolute (hlinks : tree.root.LinkFree)
    (hplain : ∀ segment ∈ here, Path.IsPlain segment) {node : Node}
    (hnode : tree.root.get? here = some node) (hdirectory : node.isDirectory = true) :
    candidateDirectories tree (.absolute here) exclude = .pure (node.directories exclude) := by
  rw [candidateDirectories, FileTree.node?_absolute hlinks hplain, hnode]
  cases node with
  | directory members => rfl
  | file content => simp [Node.isDirectory] at hdirectory
  | link target => simp [Node.isDirectory] at hdirectory

theorem candidateDirectories_of_no_directory (hlinks : tree.root.LinkFree)
    (hplain : ∀ segment ∈ here, Path.IsPlain segment)
    (hnone : (tree.root.get? here).any Node.isDirectory = false) :
    candidateDirectories tree (.absolute here) exclude = (do
      Logged.warn ("Could not list " ++ (Path.absolute here).text)
      return [[]]) := by
  rw [candidateDirectories, FileTree.node?_absolute hlinks hplain]
  split
  · next members hnode => simp [hnode, Node.isDirectory] at hnone
  · rfl

/-- The same directories are listed in trees with the same visible directories. -/
theorem candidateDirectories_congr (hlinks : tree.root.LinkFree) (hlinks' : tree'.root.LinkFree)
    (hplain : ∀ segment ∈ here, Path.IsPlain segment)
    (h : ∀ place, IsVisible exclude place →
      (tree.root.get? (here ++ place)).any Node.isDirectory =
        (tree'.root.get? (here ++ place)).any Node.isDirectory) :
    candidateDirectories tree (.absolute here) exclude =
      candidateDirectories tree' (.absolute here) exclude := by
  have hroot := h [] (isVisible_nil exclude)
  rw [List.append_nil] at hroot
  cases hdirectory : (tree.root.get? here).any Node.isDirectory with
  | false =>
      rw [candidateDirectories_of_no_directory hlinks hplain hdirectory,
        candidateDirectories_of_no_directory hlinks' hplain (hroot.symm.trans hdirectory)]
  | true =>
      obtain ⟨node, hnode, hnodeDirectory⟩ := (Option.any_eq_true _ _).1 hdirectory
      obtain ⟨node', hnode', hnodeDirectory'⟩ :=
        (Option.any_eq_true _ _).1 (hroot.symm.trans hdirectory)
      rw [candidateDirectories_absolute hlinks hplain hnode hnodeDirectory,
        candidateDirectories_absolute hlinks' hplain hnode' hnodeDirectory']
      have hwell := Node.wellFormed_of_get? tree.wellFormed hnode
      have hwell' := Node.wellFormed_of_get? tree'.wellFormed hnode'
      rw [Node.directories_congr exclude hwell hwell' fun place hvisible => ?_]
      have hplace := h place hvisible
      rwa [Node.get?_append, Node.get?_append, hnode, hnode'] at hplace

theorem LookAlike.candidateDirectories_eq (h : LookAlike exclude here tree tree')
    (hlinks : tree.root.LinkFree) (hlinks' : tree'.root.LinkFree)
    (hplain : ∀ segment ∈ here, Path.IsPlain segment) :
    candidateDirectories tree (.absolute here) exclude =
      candidateDirectories tree' (.absolute here) exclude :=
  candidateDirectories_congr hlinks hlinks' hplain h.directories

/-- The scripts of listed directories are the same. -/
theorem LookAlike.haveSameScripts (h : LookAlike exclude here tree tree')
    (hlinks : tree.root.LinkFree) (hlinks' : tree'.root.LinkFree)
    (hplain : ∀ segment ∈ here, Path.IsPlain segment) {place : List String}
    (hplace : place ∈ (candidateDirectories tree (.absolute here) exclude).value) :
    HaveSameScripts tree tree' (directoryAt (.absolute here) place) := by
  obtain ⟨hvisible, hnames⟩ := of_mem_candidateDirectories hplace
  intro name hname
  have hscript := isPlain_of_mem_script hplain hnames hname
  have hpath : (directoryAt (.absolute here) place).member name =
      .absolute (here ++ place ++ [name]) := rfl
  rw [hpath, FileTree.bytes?_absolute hlinks hscript, FileTree.bytes?_absolute hlinks' hscript]
  cases hdirectory : (tree.root.get? (here ++ place)).any Node.isDirectory with
  | true => exact h.scripts place hvisible hdirectory name hname
  | false =>
      have hdirectory' := (h.directories place hvisible).symm.trans hdirectory
      rw [Node.get?_append_singleton_eq_none name hdirectory,
        Node.get?_append_singleton_eq_none name hdirectory']

theorem LookAlike.discover_eq (h : LookAlike exclude here tree tree')
    (hlinks : tree.root.LinkFree) (hlinks' : tree'.root.LinkFree)
    (hplain : ∀ segment ∈ here, Path.IsPlain segment) :
    discover tree (.absolute here) exclude = discover tree' (.absolute here) exclude :=
  discover_congr (h.candidateDirectories_eq hlinks hlinks' hplain) fun _ hplace =>
    h.haveSameScripts hlinks hlinks' hplain hplace

end LookAlike

/-- Discovery sees nothing but what is visible.  If two trees without links look alike below the
directory of the workspace, it finds the same workspace in both of them, with the same messages. -/
theorem discoverAt_eq_of_lookAlike {tree tree' : FileTree} (directory : Path)
    (exclude : List String) (hlinks : tree.root.LinkFree) (hlinks' : tree'.root.LinkFree)
    (hcurrent : tree.current = tree'.current)
    (hsame : ∀ root ∈ tree.resolve? directory, LookAlike exclude root.segments tree tree') :
    ∃ found, discoverAt tree directory exclude = .ok found ∧
      discoverAt tree' directory exclude = .ok found := by
  obtain ⟨here, hplain, hroot, hroot'⟩ :=
    FileTree.exists_resolve?_eq hlinks hlinks' hcurrent directory
  have halike : LookAlike exclude here tree tree' := hsame _ hroot
  have hdiscover := halike.discover_eq hlinks hlinks' hplain
  obtain ⟨found, hfound, -⟩ := exists_discoverAt_eq_ok exclude hroot
  refine ⟨found, hfound, ?_⟩
  rw [← hfound, discoverAt, hroot', discoverAt, hroot]
  dsimp only
  rw [hdiscover]

/-- A workspace with one module. -/
def tidyTree : FileTree :=
  FileTree.empty.putFile ["ws", "app", "build.gradle"] "".toUTF8

/-- The workspace with notes in its module, and with modules of the same name in a cache, in the
output of a build and in an archive. -/
def clutteredTree : FileTree :=
  (((tidyTree.putFile ["ws", "app", "notes.txt"] "".toUTF8).putFile
    ["ws", ".cache", "app", "build.gradle"] "".toUTF8).putFile
    ["ws", "app", "build", "app", "build.gradle"] "".toUTF8).putFile
    ["ws", "aged", "app", "build.gradle.kts"] "".toUTF8

theorem lookAlike_clutteredTree : LookAlike ["aged"] ["ws"] tidyTree clutteredTree := by
  have hplaces : (tidyTree.root.get? ["ws"]).map (Node.directories ["aged"]) =
      some [[], ["app"]] := by decide +kernel
  have hplaces' : (clutteredTree.root.get? ["ws"]).map (Node.directories ["aged"]) =
      some [[], ["app"]] := by decide +kernel
  refine lookAlike_of_directories hplaces hplaces' ?_
  decide +kernel

/-- The archive comes first, but is excluded, so its module does not take the name of the other. -/
theorem discoverAt_clutteredTree :
    (tidyTree.root.get? ["ws", "app", "build.gradle"]).any Node.isFile = true ∧
      (clutteredTree.root.get? ["ws", "aged", "app", "build.gradle.kts"]).any Node.isFile = true ∧
      ∃ found, discoverAt tidyTree (.absolute ["ws"]) ["aged"] = .ok found ∧
        discoverAt clutteredTree (.absolute ["ws"]) ["aged"] = .ok found := by
  have htidy : tidyTree.root.LinkFree :=
    FileTree.linkFree_putFile Node.linkFree_empty _ _
  have hcluttered : clutteredTree.root.LinkFree :=
    FileTree.linkFree_putFile (FileTree.linkFree_putFile (FileTree.linkFree_putFile
      (FileTree.linkFree_putFile htidy _ _) _ _) _ _) _ _
  have hroot : tidyTree.resolve? (.absolute ["ws"]) = some (.absolute ["ws"]) :=
    FileTree.resolve?_eq htidy _
  refine ⟨by decide +kernel, by decide +kernel, ?_⟩
  refine discoverAt_eq_of_lookAlike _ _ htidy hcluttered rfl fun root hmem => ?_
  obtain rfl := Option.some.inj (hroot.symm.trans hmem)
  exact lookAlike_clutteredTree

end GradleWorkspace
