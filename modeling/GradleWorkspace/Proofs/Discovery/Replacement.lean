import Mathlib
import GradleWorkspace.Proofs.Discovery.Naming
import GradleWorkspace.Proofs.Discovery.Visible
import GradleWorkspace.Proofs.FileTree.Replacement

/-!
# Modules with other bytes in a build file

Whatever bytes a build file is given, its directory still holds a module with the same name.  Other
modules do not depend on them, and neither do the names that modules after it are given.

* `Module.replaceFacts` gives the module at a path other facts.  No choice of a name depends on
  facts (`chooseName_replaceFacts`).
* `SameButFacts` compares two trees, directory by directory, and `SameButFacts.value_loadModules`
  and `exists_messages_loadModules` compare what the whole loop makes of them.
* `sameButFacts_of_sameBut` is about a tree and the same tree with other bytes in a build file, and
  `discoverAt_replaces_facts` is the result for a workspace.
-/

namespace GradleWorkspace

/-! ## What is read from the bytes of a build file -/

/-- The facts in the bytes of a build file with a given name; none if they are no text. -/
def factsIn (fileName : String) (content : ByteArray) : BuildFacts :=
  match decodeText content with
  | none => {}
  | some text => BuildFile.parse (Dialect.ofFileName fileName) text

/-- The warnings when bytes are read from a path: one if they are no text. -/
def readingWarnings (path : Path) (content : ByteArray) : List Message :=
  match decodeText content with
  | none => [⟨.warning, "Could not read " ++ path.text⟩]
  | some _ => []

@[simp] theorem messagesFrom_append (level : Level) (messages others : List Message) :
    messagesFrom level (messages ++ others) =
      messagesFrom level messages ++ messagesFrom level others :=
  List.filter_append ..

theorem readFacts_eq {tree : FileTree} {path : Path} {content : ByteArray}
    (h : tree.bytes? path = some content) :
    (readFacts tree path).value = factsIn path.name content ∧
      messagesFrom .warning (readFacts tree path).messages = readingWarnings path content := by
  unfold readFacts FileTree.readText factsIn readingWarnings
  rw [h, Option.bind_some]
  cases decodeText content with
  | none => exact ⟨rfl, rfl⟩
  | some text => exact ⟨rfl, rfl⟩

/-! ## Modules with other facts -/

/-- The module with other facts, if it is the one at a path. -/
def Module.replaceFacts (path : String) (facts : BuildFacts) (m : Module) : Module :=
  { m with facts := if m.path = path then facts else m.facts }

section ReplaceFacts

variable {path : String} {m : Module}

theorem Module.replaceFacts_of_ne (facts : BuildFacts) (h : m.path ≠ path) :
    m.replaceFacts path facts = m := by
  rw [replaceFacts, if_neg h]

theorem Module.replaceFacts_of_eq (facts : BuildFacts) (h : m.path = path) :
    m.replaceFacts path facts = { m with facts } := by
  rw [replaceFacts, if_pos h]

/-- A module is given the same name, with the same messages, whatever its facts are. -/
theorem chooseName_replaceFacts (taken : TakenNames) (path : String) (facts : BuildFacts)
    (m : Module) :
    chooseName taken (m.replaceFacts path facts) =
      { value := (chooseName taken m).value.map (Module.replaceFacts path facts)
        messages := (chooseName taken m).messages } := by
  unfold chooseName
  by_cases hfree : (taken.lookup m.name).isNone
  · rw [if_pos hfree]
    exact if_pos hfree
  · rw [if_neg hfree]
    refine (if_neg hfree).trans ?_
    by_cases hfallback : m.path = "" ∨ (taken.lookup (hyphenated m.path)).isSome
    · rw [if_pos hfallback]
      exact if_pos hfallback
    · rw [if_neg hfallback]
      exact if_neg hfallback

end ReplaceFacts

/-- Where paths are different, other facts go to one module. -/
theorem map_replaceFacts {before after : List Module} {m : Module}
    (h : ((before ++ m :: after).map Module.path).Nodup) (facts : BuildFacts) :
    (before ++ m :: after).map (Module.replaceFacts m.path facts) =
      before ++ { m with facts } :: after := by
  have hother : ∀ others : List Module, m.path ∉ others.map Module.path →
      others.map (Module.replaceFacts m.path facts) = others := by
    intro others hnot
    refine List.map_congr_left (fun other hother => ?_) |>.trans others.map_id
    exact other.replaceFacts_of_ne facts (ne_of_mem_of_not_mem (List.mem_map_of_mem hother) hnot)
  rw [List.map_append, List.map_cons, List.nodup_middle, List.nodup_cons, List.mem_append,
    not_or] at h
  rw [List.map_append, List.map_cons, hother before h.1.1, hother after h.1.2,
    Module.replaceFacts_of_eq facts rfl]

/-! ## One directory after another -/

theorem keep_map_replaceFacts (taken : TakenNames) (path : String) (facts : BuildFacts)
    (found : Option Module) :
    keep taken (found.map (Module.replaceFacts path facts)) =
      { value := (keep taken found).value.map (Module.replaceFacts path facts)
        messages := (keep taken found).messages } := by
  cases found with
  | none => rfl
  | some m => exact chooseName_replaceFacts taken path facts m

theorem takenWith_map_replaceFacts (taken : TakenNames) (path : String) (facts : BuildFacts)
    (kept : Option Module) :
    takenWith taken (kept.map (Module.replaceFacts path facts)) = takenWith taken kept := by
  cases kept <;> rfl

/-- A module that is kept was found in one of the directories.  Only its name may be another one. -/
theorem exists_loadModule_of_mem {tree : FileTree} {root : Path} {rootName : String} {m : Module}
    {directories : List (List String)} {taken : TakenNames}
    (h : m ∈ (loadModules tree root rootName taken directories).value) :
    ∃ directory ∈ directories, ∃ found,
      (loadModule tree root rootName directory).value = some found ∧
        m = { found with name := m.name } := by
  induction directories generalizing taken with
  | nil => simp [loadModules, Logged.pure] at h
  | cons directory rest ih =>
      rw [loadModules_cons_eq] at h
      rcases List.mem_append.1 h with hkept | hrest
      · obtain ⟨found, hfound, hm, -⟩ := of_keep_eq_some (Option.mem_toList.1 hkept)
        exact ⟨directory, List.mem_cons_self, found, hfound, hm⟩
      · obtain ⟨other, hother, found, hfound⟩ := ih hrest
        exact ⟨other, List.mem_cons_of_mem _ hother, found, hfound⟩

/-- In some directories, another tree has the same modules, but for the facts of one of them, and
reading the others gives the same messages. -/
structure SameButFacts (root : Path) (rootName : String) (directory : List String)
    (facts : BuildFacts) (directories : List (List String)) (tree tree' : FileTree) : Prop where
  value : ∀ other ∈ directories, (loadModule tree' root rootName other).value =
    (loadModule tree root rootName other).value.map
      (Module.replaceFacts (Path.relativeText directory) facts)
  messages : ∀ other ∈ directories, other ≠ directory →
    (loadModule tree' root rootName other).messages =
      (loadModule tree root rootName other).messages

section SameButFacts

variable {root : Path} {rootName : String} {directory first : List String} {facts : BuildFacts}
  {directories rest : List (List String)} {tree tree' : FileTree}

theorem SameButFacts.tail
    (h : SameButFacts root rootName directory facts (first :: rest) tree tree') :
    SameButFacts root rootName directory facts rest tree tree' where
  value other hother := h.value other (List.mem_cons_of_mem _ hother)
  messages other hother := h.messages other (List.mem_cons_of_mem _ hother)

/-- What becomes of the first directory. -/
theorem SameButFacts.keep_eq
    (h : SameButFacts root rootName directory facts (first :: rest) tree tree')
    (taken : TakenNames) :
    keep taken (loadModule tree' root rootName first).value =
      { value := (keep taken (loadModule tree root rootName first).value).value.map
          (Module.replaceFacts (Path.relativeText directory) facts)
        messages := (keep taken (loadModule tree root rootName first).value).messages } := by
  rw [h.value first List.mem_cons_self, keep_map_replaceFacts]

/-- The same modules are kept under the same names, but for the facts of one. -/
theorem SameButFacts.value_loadModules
    (h : SameButFacts root rootName directory facts directories tree tree') (taken : TakenNames) :
    (loadModules tree' root rootName taken directories).value =
      (loadModules tree root rootName taken directories).value.map
        (Module.replaceFacts (Path.relativeText directory) facts) := by
  induction directories generalizing taken with
  | nil => rfl
  | cons first rest ih =>
      simp only [loadModules_cons_eq, h.keep_eq taken, takenWith_map_replaceFacts, ih h.tail,
        List.map_append]
      congr 1
      cases (keep taken (loadModule tree root rootName first).value).value <;> rfl

theorem SameButFacts.messages_loadModules
    (h : SameButFacts root rootName directory facts directories tree tree') (taken : TakenNames)
    (hnot : directory ∉ directories) :
    (loadModules tree' root rootName taken directories).messages =
      (loadModules tree root rootName taken directories).messages := by
  induction directories generalizing taken with
  | nil => rfl
  | cons first rest ih =>
      rw [List.mem_cons, not_or] at hnot
      simp only [loadModules_cons_eq, h.keep_eq taken, takenWith_map_replaceFacts,
        ih h.tail _ hnot.2, h.messages first List.mem_cons_self (Ne.symm hnot.1)]

/-- The messages are the same before and after those about the file that is read. -/
theorem exists_messages_loadModules (tree : FileTree) (root : Path) (rootName : String)
    (taken : TakenNames) (hmem : directory ∈ directories) (hnodup : directories.Nodup) :
    ∃ earlier later, ∀ tree' facts,
      SameButFacts root rootName directory facts directories tree tree' →
        (loadModules tree' root rootName taken directories).messages =
          earlier ++ (loadModule tree' root rootName directory).messages ++ later := by
  induction directories generalizing taken with
  | nil => simp at hmem
  | cons first rest ih =>
      obtain ⟨hfirst, hrest⟩ := List.nodup_cons.1 hnodup
      let kept := keep taken (loadModule tree root rootName first).value
      by_cases heq : directory = first
      · subst heq
        refine ⟨[], kept.messages ++
          (loadModules tree root rootName (takenWith taken kept.value) rest).messages, ?_⟩
        intro tree' facts h
        simp only [loadModules_cons_eq, h.keep_eq taken, takenWith_map_replaceFacts,
          h.tail.messages_loadModules _ hfirst, List.nil_append, List.append_assoc, kept]
      · obtain ⟨earlier, later, hsplit⟩ := ih (takenWith taken kept.value)
          ((List.mem_cons.1 hmem).resolve_left heq) hrest
        refine ⟨(loadModule tree root rootName first).messages ++ kept.messages ++ earlier, later,
          ?_⟩
        intro tree' facts h
        simp only [loadModules_cons_eq, h.keep_eq taken, takenWith_map_replaceFacts,
          hsplit tree' facts h.tail, h.messages first List.mem_cons_self (Ne.symm heq),
          List.append_assoc, kept]

end SameButFacts

/-! ## Other bytes in a build file -/

/-- The text of a path that is seen from a directory does not begin with a slash. -/
theorem head?_relativeText_ne {place : List String} (h : ∀ name ∈ place, isMemberName name) :
    (Path.relativeText place).toList.head? ≠ some '/' := by
  cases place with
  | nil => simp [Path.relativeText]
  | cons name rest =>
      have hname := h name List.mem_cons_self
      obtain ⟨c, others, hc⟩ := List.exists_cons_of_ne_nil (toList_ne_nil_of_isMemberName hname)
      have hslash : (c == '/') = false :=
        ne_slash_of_isMemberName hname c (hc ▸ List.mem_cons_self)
      rw [Path.relativeText, String.toList_intercalate, List.map_cons, hc]
      cases rest <;> simpa using hslash

theorem rootOf_eq_empty {text : List Char} (h : text.head? ≠ some '/') : Path.rootOf text = "" := by
  unfold Path.rootOf
  split <;> simp_all

/-- The text of a path that is seen from a directory denotes that path. -/
theorem ofText_relativeText {place : List String} (h : ∀ name ∈ place, isMemberName name) :
    Path.ofText (Path.relativeText place) = ⟨"", place⟩ := by
  have hdots : place.filter (· ≠ ".") = place := by
    refine List.filter_eq_self.2 fun name hname => ?_
    simpa using (Path.isPlain_of_isMemberName (h name hname)).2.1
  rw [Path.ofText, rootOf_eq_empty (head?_relativeText_ne h), segments_relativeText h, hdots]

theorem under_ofText_relativeText (here : List String) {place : List String}
    (h : ∀ name ∈ place, isMemberName name) :
    (Path.absolute here).under (.ofText (Path.relativeText place)) = .absolute (here ++ place) := by
  rw [ofText_relativeText h]
  rfl

theorem loadModule_of_buildFile? {tree : FileTree} {root : Path} {directory : List String}
    {file : String} (h : tree.buildFile? (directoryAt root directory) = some file)
    (rootName : String) :
    loadModule tree root rootName directory = (do
      let facts ← readFacts tree ((directoryAt root directory).member file)
      return some {
        name := directory.getLast?.getD rootName
        path := Path.relativeText directory
        dialect := (Dialect.ofFileName file).name
        facts
        buildFile := some (Path.relativeText (directory ++ [file]))
        settingsFile := (tree.settingsFile? (directoryAt root directory)).map fun name =>
          Path.relativeText (directory ++ [name]) }) := by
  unfold directoryAt at h ⊢
  rw [loadModule, h]

section SameBut

variable {tree tree' : FileTree} {here directory other : List String} {file rootName : String}
  {content : ByteArray}
  (h : tree.SameBut (here ++ directory ++ [file]) content tree') (hlinks : tree.root.LinkFree)
  (hhere : ∀ segment ∈ here, Path.IsPlain segment)
include h hlinks hhere

/-- Each other directory has the same scripts. -/
theorem haveSameScripts_of_sameBut (hother : ∀ name ∈ other, isMemberName name)
    (hne : other ≠ directory) :
    HaveSameScripts tree tree' (directoryAt (.absolute here) other) := by
  intro name hname
  have hplace : here ++ other ++ [name] ≠ here ++ directory ++ [file] := by
    intro heq
    obtain ⟨hbefore, -⟩ := List.append_inj' heq rfl
    exact hne (List.append_cancel_left hbefore)
  exact (h.bytes?_of_ne hlinks (isPlain_of_mem_script hhere hother hname) hplace).symm

theorem firstFile?_of_sameBut (hother : ∀ name ∈ other, isMemberName name) {names : List String}
    (hnames : names ⊆ scriptNames) :
    tree'.firstFile? (directoryAt (.absolute here) other) names =
      tree.firstFile? (directoryAt (.absolute here) other) names := by
  refine List.find?_congr fun name hname => ?_
  exact h.isFile_eq hlinks (isPlain_of_mem_script hhere hother (hnames hname))

/-- The settings are the same, since the file is a build file. -/
theorem readSettings_of_sameBut (hfile : file ∈ buildFileNames) :
    readSettings tree' (.absolute here) = readSettings tree (.absolute here) := by
  refine readSettings_congr fun name hname => ?_
  have hplain : ∀ segment ∈ here ++ [name], Path.IsPlain segment := by
    have hscript := isPlain_of_mem_script hhere (by simp : ∀ segment ∈ [], isMemberName segment)
      (List.mem_append_right buildFileNames hname)
    rwa [List.append_nil] at hscript
  refine h.bytes?_of_ne hlinks hplain fun heq => ?_
  obtain ⟨-, hlast⟩ := List.append_inj' heq rfl
  obtain rfl := List.singleton_inj.1 hlast
  have hdistinct : ∀ other ∈ settingsFileNames, other ∉ buildFileNames := by decide
  exact hdistinct name hname hfile

theorem rootModuleName_of_sameBut (hfile : file ∈ buildFileNames) :
    rootModuleName tree' (.absolute here) = rootModuleName tree (.absolute here) := by
  rw [rootModuleName, rootModuleName, readSettings_of_sameBut h hlinks hhere hfile]

theorem candidateDirectories_of_sameBut (exclude : List String) :
    candidateDirectories tree' (.absolute here) exclude =
      candidateDirectories tree (.absolute here) exclude :=
  candidateDirectories_congr h.linkFree hlinks hhere fun _ _ => h.directories _

variable (hdirectory : ∀ name ∈ directory, isMemberName name)
  (hbuild : tree.buildFile? (directoryAt (.absolute here) directory) = some file)
include hdirectory hbuild

/-- The directory has the same module but for the facts, which are those in the other bytes. -/
theorem loadModule_of_sameBut (rootName : String) :
    (loadModule tree' (.absolute here) rootName directory).value =
      (loadModule tree (.absolute here) rootName directory).value.map
        (Module.replaceFacts (Path.relativeText directory) (factsIn file content)) ∧
    messagesFrom .warning (loadModule tree' (.absolute here) rootName directory).messages =
      readingWarnings ((directoryAt (.absolute here) directory).member file) content := by
  have hname : file ∈ buildFileNames := FileTree.mem_of_firstFile?_eq_some hbuild
  have hsettings := firstFile?_of_sameBut h hlinks hhere hdirectory
    (List.subset_append_right buildFileNames settingsFileNames)
  have hbuild' := (firstFile?_of_sameBut h hlinks hhere hdirectory
    (List.subset_append_left buildFileNames settingsFileNames)).trans hbuild
  have hbytes : tree'.bytes? ((directoryAt (.absolute here) directory).member file) =
      some content :=
    h.bytes?_self (isPlain_of_mem_script hhere hdirectory (List.mem_append_left _ hname))
  obtain ⟨hfacts, hwarnings⟩ := readFacts_eq hbytes
  rw [loadModule_of_buildFile? hbuild, loadModule_of_buildFile? hbuild']
  constructor
  · rw [Path.name_member] at hfacts
    simp only [Logged.value_bind, Logged.value_pure, Option.map_some, Module.replaceFacts, if_true,
      hfacts, FileTree.settingsFile?, hsettings]
  · rw [Logged.messages_bind, Logged.messages_pure, List.append_nil]
    exact hwarnings

/-- All directories have the same modules but for the facts of this one. -/
theorem sameButFacts_of_sameBut (rootName : String) {directories : List (List String)}
    (hdirectories : ∀ other ∈ directories, ∀ name ∈ other, isMemberName name) :
    SameButFacts (.absolute here) rootName directory (factsIn file content) directories tree
      tree' := by
  constructor
  · intro other hother
    by_cases hne : other = directory
    · subst hne
      exact (loadModule_of_sameBut h hlinks hhere hdirectory hbuild rootName).1
    · have hsame := haveSameScripts_of_sameBut h hlinks hhere (hdirectories other hother) hne
      rw [← loadModule_congr hsame]
      cases hfound : (loadModule tree (.absolute here) rootName other).value with
      | none => rfl
      | some found =>
          have hpath : found.path ≠ Path.relativeText directory := by
            intro heq
            rw [path_of_loadModule hfound] at heq
            have hsegments := congrArg (Text.segments (· == '/')) heq
            rw [segments_relativeText (hdirectories other hother),
              segments_relativeText hdirectory] at hsegments
            exact hne hsegments
          rw [Option.map_some, found.replaceFacts_of_ne _ hpath]
  · intro other hother hne
    have hsame := haveSameScripts_of_sameBut h hlinks hhere (hdirectories other hother) hne
    rw [loadModule_congr hsame]

end SameBut

/-! ## The workspace -/

section Discover

variable {tree : FileTree} {root : Path} {exclude : List String}

theorem of_discover_eq_ok {ws : Workspace} (h : (discover tree root exclude).value = .ok ws) :
    ws.root = root.text ∧
      ws.modules = (loadModules tree root (rootModuleName tree root) []
        (candidateDirectories tree root exclude).value).value ∧
      ws.includes = (readSettings tree root).value.includes :=
  of_ofModules_eq_ok h

theorem warnings_discover (tree : FileTree) (root : Path) (exclude : List String) :
    messagesFrom .warning (discover tree root exclude).messages =
      messagesFrom .warning ((readSettings tree root).messages ++
        (candidateDirectories tree root exclude).messages) ++
      messagesFrom .warning (loadModules tree root (rootModuleName tree root) []
        (candidateDirectories tree root exclude).value).messages := by
  simp [discover, rootModuleName, Logged.debug, Logged.say, messagesFrom, Level.rank]

theorem nodup_candidateDirectories (tree : FileTree) (root : Path) (exclude : List String) :
    (candidateDirectories tree root exclude).value.Nodup :=
  (nodup_relativeText_candidateDirectories tree root exclude).of_map _

/-- The directory of a module of the workspace, and the name of the build file there. -/
theorem exists_directory_of_mem_modules {ws : Workspace} {m : Module}
    (h : (discover tree root exclude).value = .ok ws) (hm : m ∈ ws.modules) :
    ∃ directory ∈ (candidateDirectories tree root exclude).value, ∃ file,
      tree.buildFile? (directoryAt root directory) = some file ∧
        m.path = Path.relativeText directory ∧
        m.buildFile = some (Path.relativeText (directory ++ [file])) := by
  rw [(of_discover_eq_ok h).2.1] at hm
  obtain ⟨directory, hdirectory, found, hfound, hsame⟩ := exists_loadModule_of_mem hm
  cases hbuild : tree.buildFile? (directoryAt root directory) with
  | none =>
      unfold directoryAt at hbuild
      rw [loadModule, hbuild] at hfound
      simp [Logged.pure] at hfound
  | some file =>
      rw [loadModule_of_buildFile? hbuild] at hfound
      obtain rfl := Option.some.inj hfound
      refine ⟨directory, hdirectory, file, hbuild, ?_, ?_⟩
      · rw [hsame]
      · rw [hsame]

end Discover

section Replaced

variable {tree : FileTree} {here directory : List String} {file : String} {exclude : List String}
  (hlinks : tree.root.LinkFree) (hhere : ∀ segment ∈ here, Path.IsPlain segment)
  (hmem : directory ∈ (candidateDirectories tree (.absolute here) exclude).value)
  (hbuild : tree.buildFile? (directoryAt (.absolute here) directory) = some file)
include hlinks hhere hmem hbuild

theorem exists_file_of_buildFile? :
    ∃ old, tree.root.get? (here ++ directory ++ [file]) = some (.file old) := by
  have hname : file ∈ buildFileNames := FileTree.mem_of_firstFile?_eq_some hbuild
  have hscript := isPlain_of_mem_script hhere (of_mem_candidateDirectories hmem).2
    (List.mem_append_left _ hname)
  have hfile : tree.isFile ((directoryAt (.absolute here) directory).member file) = true := by
    simpa using List.find?_some hbuild
  change tree.isFile (.absolute (here ++ directory ++ [file])) = true at hfile
  rw [FileTree.isFile_eq, FileTree.bytes?_absolute hlinks hscript,
    Option.isSome_iff_exists] at hfile
  obtain ⟨old, hold⟩ := hfile
  obtain ⟨node, hnode, hcontent⟩ := Option.bind_eq_some_iff.1 hold
  cases node with
  | file content => exact ⟨content, hnode⟩
  | directory members => simp [Node.content?] at hcontent
  | link target => simp [Node.content?] at hcontent

theorem sameButFacts_candidateDirectories {content : ByteArray} {tree' : FileTree}
    (h : tree.SameBut (here ++ directory ++ [file]) content tree') :
    SameButFacts (.absolute here) (rootModuleName tree (.absolute here)) directory
      (factsIn file content) (candidateDirectories tree (.absolute here) exclude).value
      tree tree' :=
  sameButFacts_of_sameBut h hlinks hhere (of_mem_candidateDirectories hmem).2 hbuild _
    fun _ hother => (of_mem_candidateDirectories hother).2

/-- With other bytes in the build file of a module, the same workspace is found but for the facts of
the module. -/
theorem discover_of_sameBut {content : ByteArray} {tree' : FileTree}
    (h : tree.SameBut (here ++ directory ++ [file]) content tree') {ws : Workspace}
    (hws : (discover tree (.absolute here) exclude).value = .ok ws) {before after : List Module}
    {m : Module} (hmodules : ws.modules = before ++ m :: after)
    (hpath : m.path = Path.relativeText directory) :
    ∃ ws', (discover tree' (.absolute here) exclude).value = .ok ws' ∧ ws'.root = ws.root ∧
      ws'.includes = ws.includes ∧
      ws'.modules = before ++ { m with facts := factsIn file content } :: after := by
  have hname : file ∈ buildFileNames := FileTree.mem_of_firstFile?_eq_some hbuild
  have hsettings := readSettings_of_sameBut h hlinks hhere hname
  have hsame := sameButFacts_candidateDirectories hlinks hhere hmem hbuild h
  obtain ⟨hroot, hfound, hincludes⟩ := of_discover_eq_ok hws
  obtain ⟨ws', hws'⟩ := exists_discover_eq_ok tree' (.absolute here) exclude
  obtain ⟨hroot', hfound', hincludes'⟩ := of_discover_eq_ok hws'
  refine ⟨ws', hws', hroot'.trans hroot.symm, ?_, ?_⟩
  · rw [hincludes', hsettings, hincludes]
  · rw [hfound', candidateDirectories_of_sameBut h hlinks hhere,
      rootModuleName_of_sameBut h hlinks hhere hname, hsame.value_loadModules, ← hfound, ← hpath,
      hmodules]
    exact map_replaceFacts (hmodules ▸ ws.nodup_paths) _

/-- The same warnings are given before and after those about the build file. -/
theorem exists_warnings_discover :
    ∃ earlier later, ∀ content tree',
      tree.SameBut (here ++ directory ++ [file]) content tree' →
        messagesFrom .warning (discover tree' (.absolute here) exclude).messages =
          earlier ++
            readingWarnings ((directoryAt (.absolute here) directory).member file) content ++
            later := by
  have hname : file ∈ buildFileNames := FileTree.mem_of_firstFile?_eq_some hbuild
  have hdirectory := (of_mem_candidateDirectories hmem).2
  obtain ⟨earlier, later, hsplit⟩ := exists_messages_loadModules tree (.absolute here)
    (rootModuleName tree (.absolute here)) [] hmem (nodup_candidateDirectories tree _ exclude)
  refine ⟨messagesFrom .warning ((readSettings tree (.absolute here)).messages ++
    (candidateDirectories tree (.absolute here) exclude).messages) ++
      messagesFrom .warning earlier, messagesFrom .warning later, ?_⟩
  intro content tree' h
  have hsame := sameButFacts_candidateDirectories hlinks hhere hmem hbuild h
  rw [warnings_discover, readSettings_of_sameBut h hlinks hhere hname,
    candidateDirectories_of_sameBut h hlinks hhere, rootModuleName_of_sameBut h hlinks hhere hname,
    hsplit tree' _ hsame, messagesFrom_append _ (earlier ++ _), messagesFrom_append _ earlier,
    (loadModule_of_sameBut h hlinks hhere hdirectory hbuild _).2]
  simp only [List.append_assoc]

end Replaced

/-- A build file that is replaced harms no module but its own.  In a tree without links, whatever
bytes are written to the build file of a module, the same workspace is found but for the facts of
that module, which are those in the new bytes, or none if these are no text.  There are the same
warnings, but for one about the file that is given if and only if its bytes are no text. -/
theorem discoverAt_replaces_facts {tree : FileTree} (directory : Path) (exclude : List String)
    (hlinks : tree.root.LinkFree) :
    ∃ found root, discoverAt tree directory exclude = .ok found ∧
      tree.resolve? directory = some root ∧
      ∀ before m after, found.value.modules = before ++ m :: after →
        ∃ file path old earlier later, m.buildFile = some file ∧ path = root.under (.ofText file) ∧
          tree.bytes? path = some old ∧ m.facts = factsIn path.name old ∧
          messagesFrom .warning found.messages = earlier ++ readingWarnings path old ++ later ∧
          ∀ content, (tree.writeIn path content).error = none ∧
            (tree.writeIn path content).tree.bytes? path = some content ∧
            ∃ found', discoverAt (tree.writeIn path content).tree directory exclude = .ok found' ∧
              found'.value.root = found.value.root ∧
              found'.value.includes = found.value.includes ∧
              found'.value.modules =
                before ++ { m with facts := factsIn path.name content } :: after ∧
              messagesFrom .warning found'.messages =
                earlier ++ readingWarnings path content ++ later := by
  obtain ⟨here, hhere, hroot⟩ : ∃ here, (∀ segment ∈ here, Path.IsPlain segment) ∧
      tree.resolve? directory = some (.absolute here) :=
    ⟨_, Path.isPlain_of_mem_plainSegments _, FileTree.resolve?_eq hlinks directory⟩
  obtain ⟨ws, hws⟩ := exists_discover_eq_ok tree (.absolute here) exclude
  refine ⟨_, _, discoverAt_of_discover hroot hws, hroot, ?_⟩
  intro before m after hmodules
  have hm : m ∈ ws.modules := hmodules ▸ List.mem_append_right before List.mem_cons_self
  obtain ⟨place, hmem, file, hbuild, hpath, hfile⟩ := exists_directory_of_mem_modules hws hm
  have hname : file ∈ scriptNames :=
    List.mem_append_left _ (FileTree.mem_of_firstFile?_eq_some hbuild)
  have hplace := (of_mem_candidateDirectories hmem).2
  have hscript := isPlain_of_mem_script hhere hplace hname
  obtain ⟨old, hold⟩ := exists_file_of_buildFile? hlinks hhere hmem hbuild
  have hself := FileTree.sameBut_self hlinks hold
  obtain ⟨earlier, later, hwarnings⟩ := exists_warnings_discover hlinks hhere hmem hbuild
  have hlast : (Path.absolute (here ++ place ++ [file])).name = file :=
    Path.name_member (directoryAt (.absolute here) place) file
  refine ⟨_, .absolute (here ++ place ++ [file]), old, earlier, later, hfile, ?_,
    hself.bytes?_self hscript, ?_, hwarnings old tree hself, ?_⟩
  · rw [under_ofText_relativeText here, List.append_assoc]
    exact List.forall_mem_append.2 ⟨hplace,
      List.forall_mem_singleton.2 (isMemberName_of_mem_scriptNames hname)⟩
  · obtain ⟨ws', hws', -, -, hmodules'⟩ :=
      discover_of_sameBut hlinks hhere hmem hbuild hself hws hmodules hpath
    obtain rfl := Except.ok.inj (hws.symm.trans hws')
    have htail := List.append_cancel_left (hmodules.symm.trans hmodules')
    rw [hlast]
    exact congrArg Module.facts (List.cons.inj htail).1
  · intro content
    have hput := FileTree.sameBut_putFile hlinks hold content
    obtain ⟨ws', hws', hroot', hincludes', hmodules'⟩ :=
      discover_of_sameBut hlinks hhere hmem hbuild hput hws hmodules hpath
    rw [FileTree.writeIn_absolute hlinks hold content hscript]
    refine ⟨rfl, hput.bytes?_self hscript, _,
      discoverAt_of_discover ((hput.resolve?_eq hlinks directory).trans hroot) hws', hroot',
      hincludes', ?_, hwarnings content _ hput⟩
    rw [hlast]
    exact hmodules'

theorem modules_tidyTree {ws : Workspace}
    (h : (discover tidyTree (.absolute ["ws"]) []).value = .ok ws) :
    ∃ m, ws.modules = [m] ∧ m.buildFile = some "app/build.gradle" := by
  have hdirectories : candidateDirectories tidyTree (.absolute ["ws"]) [] =
      .pure [[], ["app"]] := by cbv
  have hnone : tidyTree.buildFile? (directoryAt (.absolute ["ws"]) []) = none := by cbv
  have hsome : tidyTree.buildFile? (directoryAt (.absolute ["ws"]) ["app"]) =
      some "build.gradle" := by cbv
  have hroot (rootName : String) :
      loadModule tidyTree (.absolute ["ws"]) rootName [] = .pure none := by
    unfold directoryAt at hnone
    rw [loadModule, hnone]
  have hmodules := (of_discover_eq_ok h).2.1
  rw [hdirectories] at hmodules
  simp only [Logged.pure, loadModules_cons_eq, hroot, loadModule_of_buildFile? hsome] at hmodules
  exact ⟨_, hmodules, rfl⟩

/-- A byte that begins no text makes the module one without facts, and is reported. -/
theorem discoverAt_unreadable_tidyTree :
    tidyTree.root.LinkFree ∧ decodeText ⟨#[0xff]⟩ = none ∧
      ∃ found m, discoverAt tidyTree (.absolute ["ws"]) [] = .ok found ∧ found.value.modules = [m] ∧
        ∃ found', discoverAt
            (tidyTree.writeIn (.absolute ["ws", "app", "build.gradle"]) ⟨#[0xff]⟩).tree
            (.absolute ["ws"]) [] = .ok found' ∧
          found'.value.modules = [{ m with facts := {} }] ∧
          ⟨.warning, "Could not read /ws/app/build.gradle"⟩ ∈
            messagesFrom .warning found'.messages := by
  have hlinks : tidyTree.root.LinkFree := FileTree.linkFree_putFile Node.linkFree_empty _ _
  have hplace : tidyTree.resolve? (.absolute ["ws"]) = some (.absolute ["ws"]) :=
    FileTree.resolve?_eq hlinks _
  have hpath : (Path.absolute ["ws"]).under (.ofText "app/build.gradle") =
      .absolute ["ws", "app", "build.gradle"] := by decide +kernel
  have hnone : decodeText ⟨#[0xff]⟩ = none := by decide +kernel
  obtain ⟨ws, hws⟩ := exists_discover_eq_ok tidyTree (.absolute ["ws"]) []
  obtain ⟨m, hm, hfile⟩ := modules_tidyTree hws
  obtain ⟨found, root, hfound, hroot, hreplaced⟩ :=
    discoverAt_replaces_facts (.absolute ["ws"]) [] hlinks
  obtain rfl := Option.some.inj (hroot.symm.trans hplace)
  obtain rfl := Except.ok.inj (hfound.symm.trans (discoverAt_of_discover hplace hws))
  obtain ⟨file, path, old, earlier, later, hfile', rfl, -, -, -, hcontent⟩ := hreplaced [] m [] hm
  obtain rfl := Option.some.inj (hfile'.symm.trans hfile)
  rw [hpath] at hcontent
  obtain ⟨-, -, found', hfound', -, -, hmodules, hwarnings⟩ := hcontent ⟨#[0xff]⟩
  refine ⟨hlinks, hnone, _, m, hfound, hm, found', hfound', ?_, ?_⟩
  · rw [hmodules, factsIn, hnone]
    rfl
  · have htext : (Path.absolute ["ws", "app", "build.gradle"]).text = "/ws/app/build.gradle" := by
      decide +kernel
    rw [hwarnings, readingWarnings, hnone, htext]
    exact List.mem_append_left _ (List.mem_append_right _ List.mem_cons_self)

end GradleWorkspace
