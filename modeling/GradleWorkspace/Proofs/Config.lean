import Mathlib
import GradleWorkspace.Config
import GradleWorkspace.Proofs.FileTree.LinkFree

/-!
# Which configuration is loaded

`Config.load` takes the first table that one of two files holds, and from that table each setting
that has the right type.  It ends with a configuration, unless it comes to a file of one of two
kinds, which stop it.

There are three groups.

* The files.  `Holds` and `Stops` say what a file has to be to give a table or to stop the loading,
  and `readTable_cases` that the reader of a file does nothing else.
* Their order.  `Chosen` and `Fails` say the same of a list of files, of which the first that holds
  a table counts, and `firstTable_cases` goes through the list.
* The settings.  `HasSettings` says how a table, or none, determines a configuration, each setting
  on its own.

`load_falls_back` puts them together.
-/

namespace GradleWorkspace.Config

/-! ## Files -/

/-- Some bytes hold a table under a key: they are the UTF-8 text of a TOML document, in which the
key leads to the table. -/
def HoldsTable (content : ByteArray) (key : Toml.Key) (table : Toml.Table) : Prop :=
  ∃ text document, String.fromUTF8? content = some text ∧ Toml.parse text = .ok document ∧
    Toml.Table.table? key document = some table

/-- Some bytes stop whoever reads them: they are not UTF-8, or the reading of their text ends at an
integer with too many digits. -/
@[mk_iff]
inductive StopsReader (content : ByteArray) : ConfigError → Prop
  | notText (htext : String.fromUTF8? content = none) : StopsReader content .notText
  | tooManyDigits {text : String} {count : Nat} (htext : String.fromUTF8? content = some text)
      (hparse : Toml.parse text = .error (.tooManyDigits count)) :
      StopsReader content (.tooManyDigits count)

/-- The table in a file is read exactly if its bytes hold one and do not stop the reader. -/
theorem tableIn_cases (path : Path) (key : Toml.Key) (content : ByteArray) :
    (∃ e, tableIn path key content = .error e ∧ StopsReader content e ∧
        ∀ table, ¬HoldsTable content key table) ∨
      ∃ found, tableIn path key content = .ok found ∧ (∀ e, ¬StopsReader content e) ∧
        ∀ table, HoldsTable content key table ↔ found.value = some table := by
  simp only [stopsReader_iff, HoldsTable]
  unfold tableIn
  cases htext : String.fromUTF8? content with
  | none => exact Or.inl ⟨_, rfl, by simp, by simp⟩
  | some text =>
      dsimp only
      cases hparse : Toml.parse text with
      | error e =>
          cases e with
          | malformed => exact Or.inr ⟨_, rfl, by simp [hparse], by simp [hparse, unreadable]⟩
          | tooManyDigits count =>
              exact Or.inl ⟨_, rfl, by simp [hparse], by simp [hparse]⟩
      | ok document =>
          dsimp only
          cases htable : Toml.Table.table? key document with
          | none => exact Or.inr ⟨_, rfl, by simp [hparse], by simp [hparse, htable, Logged.pure]⟩
          | some settings => exact Or.inr ⟨_, rfl, by simp [hparse], by simp [hparse, htable]⟩

/-- A path leads to a file that holds a table under a key. -/
def Holds (tree : FileTree) (path : Path) (key : Toml.Key) (table : Toml.Table) : Prop :=
  ∃ content, tree.bytes? path = some content ∧ HoldsTable content key table

/-- A path leads to a file that stops whoever reads it. -/
def Stops (tree : FileTree) (path : Path) (e : ConfigError) : Prop :=
  ∃ content, tree.bytes? path = some content ∧ StopsReader content e

section Text

variable {tree : FileTree} {path : Path} {content : ByteArray} {text : String}

theorem holds_iff_of_text (hcontent : tree.bytes? path = some content)
    (htext : String.fromUTF8? content = some text) {key : Toml.Key} {table : Toml.Table} :
    Holds tree path key table ↔
      ∃ document, Toml.parse text = .ok document ∧ Toml.Table.table? key document = some table := by
  constructor
  · rintro ⟨_, hcontent', _, document, htext', hparse, htable⟩
    obtain rfl := Option.some.inj (hcontent.symm.trans hcontent')
    obtain rfl := Option.some.inj (htext.symm.trans htext')
    exact ⟨document, hparse, htable⟩
  · rintro ⟨document, hparse, htable⟩
    exact ⟨content, hcontent, text, document, htext, hparse, htable⟩

theorem stops_iff_of_text (hcontent : tree.bytes? path = some content)
    (htext : String.fromUTF8? content = some text) {e : ConfigError} :
    Stops tree path e ↔
      ∃ count, Toml.parse text = .error (.tooManyDigits count) ∧ e = .tooManyDigits count := by
  constructor
  · rintro ⟨_, hcontent', hstops⟩
    obtain rfl := Option.some.inj (hcontent.symm.trans hcontent')
    cases hstops with
    | notText hnone => simp [hnone] at htext
    | tooManyDigits htext' hparse =>
        obtain rfl := Option.some.inj (htext.symm.trans htext')
        exact ⟨_, hparse, rfl⟩
  · rintro ⟨count, hparse, rfl⟩
    exact ⟨content, hcontent, .tooManyDigits htext hparse⟩

end Text

/-- Reading the table at a path stops if there is a file that stops it.  Otherwise it ends with the
table that the file holds, or with none if there is no such file. -/
theorem readTable_cases (tree : FileTree) (path : Path) (key : Toml.Key) :
    (∃ e, readTable tree path key = .error e ∧ Stops tree path e ∧
        ∀ table, ¬Holds tree path key table) ∨
      ∃ found, readTable tree path key = .ok found ∧ (∀ e, ¬Stops tree path e) ∧
        ∀ table, Holds tree path key table ↔ found.value = some table := by
  simp only [Stops, Holds, FileTree.bytes?_eq]
  unfold readTable
  cases tree.node? path with
  | none => exact Or.inr ⟨_, rfl, by simp, by simp [Logged.pure]⟩
  | some node =>
      cases node with
      | file content => simpa [Node.content?] using tableIn_cases path key content
      | link target =>
          exact Or.inr ⟨_, rfl, by simp [Node.content?], by simp [Node.content?, unreadable]⟩
      | directory members =>
          exact Or.inr ⟨_, rfl, by simp [Node.content?], by simp [Node.content?, unreadable]⟩

theorem Stops.eq {tree : FileTree} {path : Path} {e e' : ConfigError} (h : Stops tree path e)
    (h' : Stops tree path e') : e = e' := by
  obtain ⟨content, hcontent, hstops⟩ := h
  obtain ⟨content', hcontent', hstops'⟩ := h'
  obtain rfl := Option.some.inj (hcontent.symm.trans hcontent')
  cases hstops <;> cases hstops' <;> simp_all

/-! ## The order of the files -/

/-- A file in a directory, and the key of a table in it. -/
abbrev Source := String × Toml.Key

/-- The table that some files in a directory hold: that of the first file that holds one. -/
inductive Chosen (tree : FileTree) (directory : Path) : List Source → Option Toml.Table → Prop
  | none : Chosen tree directory [] none
  | here {name : String} {key : Toml.Key} {rest : List Source} {table : Toml.Table}
      (htable : Holds tree (directory.member name) key table) :
      Chosen tree directory ((name, key) :: rest) (some table)
  | later {name : String} {key : Toml.Key} {rest : List Source} {found : Option Toml.Table}
      (hnone : ∀ table, ¬Holds tree (directory.member name) key table)
      (hrest : Chosen tree directory rest found) :
      Chosen tree directory ((name, key) :: rest) found

/-- The first file that stops the reader comes before any that holds a table. -/
inductive Fails (tree : FileTree) (directory : Path) : List Source → ConfigError → Prop
  | here {name : String} {key : Toml.Key} {rest : List Source} {e : ConfigError}
      (hstops : Stops tree (directory.member name) e) :
      Fails tree directory ((name, key) :: rest) e
  | later {name : String} {key : Toml.Key} {rest : List Source} {e : ConfigError}
      (hgoes : ∀ e, ¬Stops tree (directory.member name) e)
      (hnone : ∀ table, ¬Holds tree (directory.member name) key table)
      (hrest : Fails tree directory rest e) :
      Fails tree directory ((name, key) :: rest) e

theorem fails_cons_iff {tree : FileTree} {directory : Path} {name : String} {key : Toml.Key}
    {rest : List Source} {e : ConfigError} :
    Fails tree directory ((name, key) :: rest) e ↔
      Stops tree (directory.member name) e ∨
        (∀ e, ¬Stops tree (directory.member name) e) ∧
          (∀ table, ¬Holds tree (directory.member name) key table) ∧
          Fails tree directory rest e := by
  constructor
  · intro h
    cases h with
    | here hstops => exact Or.inl hstops
    | later hgoes hnone hrest => exact Or.inr ⟨hgoes, hnone, hrest⟩
  · rintro (hstops | ⟨hgoes, hnone, hrest⟩)
    · exact .here hstops
    · exact .later hgoes hnone hrest

/-- The first table is looked for up to the file that holds it or stops the reader. -/
theorem firstTable_cases (tree : FileTree) (directory : Path) (sources : List Source) :
    (∃ e, firstTable tree directory sources = .error e ∧
        ∀ e', Fails tree directory sources e' ↔ e' = e) ∨
      ∃ found, firstTable tree directory sources = .ok found ∧
        (∀ e, ¬Fails tree directory sources e) ∧ Chosen tree directory sources found.value := by
  induction sources with
  | nil =>
      refine Or.inr ⟨_, rfl, ?_, .none⟩
      rintro e ⟨⟩
  | cons source rest ih =>
      obtain ⟨name, key⟩ := source
      simp only [fails_cons_iff]
      unfold firstTable
      rcases readTable_cases tree (directory.member name) key with
        ⟨e, hread, hstops, hnone⟩ | ⟨first, hread, hgoes, hholds⟩
      · refine Or.inl ⟨e, by rw [hread]; rfl, fun e' => ⟨?_, ?_⟩⟩
        · rintro (hstops' | ⟨hgoes, -⟩)
          · exact hstops'.eq hstops
          · exact absurd hstops (hgoes e)
        · rintro rfl
          exact Or.inl hstops
      · rw [hread]
        cases hfirst : first.value with
        | some table =>
            have htable : Holds tree (directory.member name) key table := (hholds table).2 hfirst
            refine Or.inr ⟨first, ?_, ?_, ?_⟩
            · simp only [bind, Except.bind, hfirst, pure, Except.pure]
            · rintro e (hstops | ⟨-, hnone, -⟩)
              · exact hgoes e hstops
              · exact hnone table htable
            · rw [hfirst]
              exact .here htable
        | none =>
            have hnone : ∀ table, ¬Holds tree (directory.member name) key table := by
              intro table htable
              simp [(hholds table).1 htable] at hfirst
            rcases ih with ⟨e, hrest, hfails⟩ | ⟨found, hrest, hfails, hchosen⟩
            · refine Or.inl ⟨e, ?_, ?_⟩
              · simp only [bind, Except.bind, hfirst, hrest]
              · intro e'
                rw [← hfails e']
                constructor
                · rintro (hstops | ⟨-, -, h⟩)
                  · exact absurd hstops (hgoes e')
                  · exact h
                · exact fun h => Or.inr ⟨hgoes, hnone, h⟩
            · refine Or.inr ⟨{ found with messages := first.messages ++ found.messages }, ?_, ?_,
                .later hnone hchosen⟩
              · simp only [bind, Except.bind, hfirst, hrest, pure, Except.pure]
              · rintro e (hstops | ⟨-, -, h⟩)
                · exact hgoes e hstops
                · exact hfails e h

/-! ## The settings -/

/-- A setting takes its value from a table: what stands there under the name of the setting, if it
has the shape of a value of the right type, and otherwise the default.  There may be no table. -/
structure Takes {α : Type} (table : Option Toml.Table) (name : String) (shape : α → Toml.Value)
    (fallback taken : α) : Prop where
  of_shape : ∀ value, table.bind (fun settings => settings.lookup name) = some (shape value) →
    taken = value
  of_default : (¬∃ value, table.bind (fun settings => settings.lookup name) =
    some (shape value)) → taken = fallback

/-- A configuration has the settings of a table: `exclude` is to be an array of texts, and `strict`
a truth value. -/
structure HasSettings (table : Option Toml.Table) (config : Config) : Prop where
  exclude : Takes table "exclude" (fun texts : List String => .array (texts.map .string)) []
    config.exclude
  strict : Takes table "strict" Toml.Value.boolean false config.strict

theorem value_setting {α : Type} (name : String) (fallback : α) (read : Toml.Value → Option α)
    (table : Toml.Table) :
    (setting name fallback read table).value = ((table.lookup name).bind read).getD fallback := by
  unfold setting
  cases table.lookup name with
  | none => rfl
  | some value =>
      dsimp only
      cases hread : read value with
      | none => simp [hread]
      | some found => simp [hread, Logged.pure]

theorem takes_setting {α : Type} {name : String} {fallback : α} {read : Toml.Value → Option α}
    {shape : α → Toml.Value} (table : Toml.Table)
    (hread : ∀ found value, read found = some value ↔ found = shape value) :
    Takes (some table) name shape fallback (setting name fallback read table).value := by
  rw [value_setting]
  constructor
  · intro value hvalue
    rw [Option.bind_some] at hvalue
    rw [hvalue, Option.bind_some, (hread _ _).2 rfl, Option.getD_some]
  · intro hnone
    cases hvalue : (table.lookup name).bind read with
    | none => rfl
    | some value =>
        obtain ⟨found, hfound, hshape⟩ := Option.bind_eq_some_iff.1 hvalue
        rw [hread] at hshape
        exact absurd ⟨value, by rw [Option.bind_some, hfound, hshape]⟩ hnone

theorem texts?_eq_some_iff {items : List Toml.Value} {texts : List String} :
    texts? items = some texts ↔ items = texts.map .string := by
  fun_induction texts? items generalizing texts with
  | case1 => simp [eq_comm]
  | case2 text items ih =>
      cases texts with
      | nil => simp
      | cons first others => simp [ih, and_comm]
  | case3 value items hvalue =>
      cases texts with
      | nil => simp
      | cons first others => simpa using fun hfirst => absurd hfirst (hvalue first)

theorem readExclude_eq_some_iff (value : Toml.Value) (texts : List String) :
    readExclude value = some texts ↔ value = .array (texts.map .string) := by
  cases value <;> simp [readExclude, texts?_eq_some_iff]

theorem readStrict_eq_some_iff (value : Toml.Value) (b : Bool) :
    readStrict value = some b ↔ value = .boolean b := by
  cases value <;> simp [readStrict]

theorem hasSettings_ofTable (table : Toml.Table) :
    HasSettings (some table) (ofTable table).value where
  exclude := takes_setting table readExclude_eq_some_iff
  strict := takes_setting table readStrict_eq_some_iff

theorem hasSettings_none : HasSettings none {} := by
  constructor <;> constructor <;> simp

/-! ## The configuration -/

/-- Loading the configuration fails exactly if one of the two files stops it: the file of the
program, or else `pyproject.toml` if the file of the program goes through and holds no table.  In
all other cases it ends with a configuration.  The settings are those of the table `gradlegraph` in
the file of the program if this holds one, else of the table `tool.gradlegraph` in `pyproject.toml`
if this holds one, and else the defaults; each setting that has the wrong type has its default
too. -/
theorem load_falls_back (tree : FileTree) (directory : Path) :
    (∀ e, load tree directory = .error e ↔
        Fails tree directory
          [(".gradlegraph.toml", ["gradlegraph"]), ("pyproject.toml", ["tool", "gradlegraph"])] e) ∧
      ((¬∃ e, Fails tree directory
          [(".gradlegraph.toml", ["gradlegraph"]), ("pyproject.toml", ["tool", "gradlegraph"])] e) →
        ∃ found table, load tree directory = .ok found ∧
          Chosen tree directory
            [(".gradlegraph.toml", ["gradlegraph"]), ("pyproject.toml", ["tool", "gradlegraph"])]
            table ∧
          HasSettings table found.value) := by
  change (∀ e, load tree directory = .error e ↔ Fails tree directory sources e) ∧
    ((¬∃ e, Fails tree directory sources e) → ∃ found table, load tree directory = .ok found ∧
      Chosen tree directory sources table ∧ HasSettings table found.value)
  unfold load
  rcases firstTable_cases tree directory sources with
    ⟨e, hfirst, hfails⟩ | ⟨found, hfirst, hfails, hchosen⟩ <;> rw [hfirst]
  · refine ⟨fun e' => ?_, fun hnone => absurd ⟨e, (hfails e).2 rfl⟩ hnone⟩
    rw [hfails]
    simp [bind, Except.bind, eq_comm]
  · refine ⟨fun e => iff_of_false (by simp [bind, Except.bind, pure, Except.pure]) (hfails e),
      fun _ => ⟨_, found.value, rfl, hchosen, ?_⟩⟩
    rw [Logged.value_bind]
    cases found.value with
    | none => exact hasSettings_none
    | some table => exact hasSettings_ofTable table

/-- A file that is no TOML document: it spells a truth value in capitals. -/
def malformedText : String := "[gradlegraph]\nstrict = True\n"

/-- A file with a list in which not all items are texts, and with a truth value. -/
def mixedText : String := "[tool.gradlegraph]\nexclude = [\"old\", 1]\nstrict = true\n"

/-- The table in this file. -/
def mixedTable : Toml.Table :=
  [("exclude", .array [.string "old", .integer 1]), ("strict", .boolean true)]

/-- A tree with a workspace that has these two files. -/
def mixedTree : FileTree :=
  (FileTree.empty.putFile ["ws", ".gradlegraph.toml"] malformedText.toUTF8).putFile
    ["ws", "pyproject.toml"] mixedText.toUTF8

/-- The first file neither stops the reader nor holds a table. -/
theorem own_mixedTree :
    (∀ e, ¬Stops mixedTree ((Path.absolute ["ws"]).member ".gradlegraph.toml") e) ∧
      ∀ table, ¬Holds mixedTree ((Path.absolute ["ws"]).member ".gradlegraph.toml")
        ["gradlegraph"] table := by
  have hbytes : mixedTree.bytes? ((Path.absolute ["ws"]).member ".gradlegraph.toml") =
      some malformedText.toUTF8 := by cbv
  have htext : String.fromUTF8? malformedText.toUTF8 = some malformedText := by decide +kernel
  have hparse : Toml.parse malformedText = .error .malformed := by cbv
  constructor
  · intro e hstops
    obtain ⟨count, hcount, -⟩ := (stops_iff_of_text hbytes htext).1 hstops
    simp [hparse] at hcount
  · intro table htable
    obtain ⟨document, hdocument, -⟩ := (holds_iff_of_text hbytes htext).1 htable
    simp [hparse] at hdocument

/-- The second file holds the table with the list and the truth value. -/
theorem shared_mixedTree :
    (∀ e, ¬Stops mixedTree ((Path.absolute ["ws"]).member "pyproject.toml") e) ∧
      ∀ table, Holds mixedTree ((Path.absolute ["ws"]).member "pyproject.toml")
        ["tool", "gradlegraph"] table ↔ mixedTable = table := by
  have hbytes : mixedTree.bytes? ((Path.absolute ["ws"]).member "pyproject.toml") =
      some mixedText.toUTF8 := by cbv
  have htext : String.fromUTF8? mixedText.toUTF8 = some mixedText := by decide +kernel
  have hparse : Toml.parse mixedText =
      .ok [("tool", .table [("gradlegraph", .table mixedTable)])] := by cbv
  constructor
  · intro e hstops
    obtain ⟨count, hcount, -⟩ := (stops_iff_of_text hbytes htext).1 hstops
    simp [hparse] at hcount
  · intro table
    rw [holds_iff_of_text hbytes htext, hparse]
    constructor
    · rintro ⟨document, hdocument, htable⟩
      obtain rfl := Except.ok.inj hdocument
      exact Option.some.inj htable
    · rintro rfl
      exact ⟨_, rfl, rfl⟩

/-- The list counts as missing, the truth value is taken all the same. -/
theorem load_mixedTree :
    (¬∃ e, Fails mixedTree (.absolute ["ws"])
        [(".gradlegraph.toml", ["gradlegraph"]), ("pyproject.toml", ["tool", "gradlegraph"])] e) ∧
      ∃ found, load mixedTree (.absolute ["ws"]) = .ok found ∧
        found.value = { exclude := [], strict := true } := by
  obtain ⟨hownStops, hownHolds⟩ := own_mixedTree
  obtain ⟨hsharedStops, hsharedHolds⟩ := shared_mixedTree
  have hgoes : ¬∃ e, Fails mixedTree (.absolute ["ws"])
      [(".gradlegraph.toml", ["gradlegraph"]), ("pyproject.toml", ["tool", "gradlegraph"])] e := by
    rintro ⟨e, hfails⟩
    obtain hstops | ⟨-, -, hfails⟩ := fails_cons_iff.1 hfails
    · exact hownStops e hstops
    · obtain hstops | ⟨-, -, hnil⟩ := fails_cons_iff.1 hfails
      · exact hsharedStops e hstops
      · cases hnil
  obtain ⟨found, table, hload, hchosen, hsettings⟩ :=
    (load_falls_back mixedTree (.absolute ["ws"])).2 hgoes
  obtain rfl : table = some mixedTable := by
    cases hchosen with
    | here htable => exact absurd htable (hownHolds _)
    | later _ hchosen =>
        cases hchosen with
        | here htable => rw [(hsharedHolds _).1 htable]
        | later hnone _ => exact absurd ((hsharedHolds _).2 rfl) (hnone _)
  have hmixed : ¬∃ texts : List String, (some mixedTable).bind (fun settings =>
      settings.lookup "exclude") = some (.array (texts.map .string)) := by
    rintro ⟨texts, htexts⟩
    have hitems : [.string "old", .integer 1] = texts.map Toml.Value.string :=
      Toml.Value.array.inj (Option.some.inj htexts)
    rcases texts with _ | ⟨first, _ | ⟨second, others⟩⟩ <;> simp at hitems
  have hexclude : found.value.exclude = [] := hsettings.exclude.of_default hmixed
  have hstrict : found.value.strict = true := hsettings.strict.of_shape true rfl
  refine ⟨hgoes, found, hload, ?_⟩
  rw [← hexclude, ← hstrict]

/-- A configuration file that is not UTF-8 stops the loading, although there are defaults. -/
theorem undecodable_file_stops_load :
    ¬∃ found, load (FileTree.empty.putFile ["ws", ".gradlegraph.toml"] ⟨#[0xff]⟩)
      (.absolute ["ws"]) = .ok found := by
  have hbytes : (FileTree.empty.putFile ["ws", ".gradlegraph.toml"] ⟨#[0xff]⟩).bytes?
      ((Path.absolute ["ws"]).member ".gradlegraph.toml") = some ⟨#[0xff]⟩ := by cbv
  have htext : String.fromUTF8? ⟨#[0xff]⟩ = none := by decide +kernel
  rintro ⟨found, hload⟩
  unfold load at hload
  rcases firstTable_cases (FileTree.empty.putFile ["ws", ".gradlegraph.toml"] ⟨#[0xff]⟩)
    (.absolute ["ws"]) sources with ⟨e, hfirst, -⟩ | ⟨first, -, hfails, -⟩
  · rw [hfirst] at hload
    simp [bind, Except.bind] at hload
  · exact hfails _ (.here ⟨_, hbytes, .notText htext⟩)

end GradleWorkspace.Config
