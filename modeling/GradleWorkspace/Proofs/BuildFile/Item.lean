import Mathlib.Data.List.Nodup
import GradleWorkspace.Proofs.BuildFile.Dependencies
import GradleWorkspace.Proofs.BuildFile.Lines

/-!
# What a build file consists of

An `Item` is a block of a build file in the Kotlin dialect, or the assignment of a property.  For
each item this file says what the readers find in it.

* `Item.text` is the text of an item.  A keyword begins only the block that it is for
  (`Item.yields_opening_of_ne`).
* `Item.outside` and `Item.shown` are what is left of an item when plugins and properties are
  looked for.
* Plugins are found in their block only (`Item.yields_pluginForm`), and the value of a property in
  its assignment only (`Item.yields_assignment_outside`, `Item.yields_assignment_shown`).
* `repositories_append` is about the block of repositories.
-/

namespace GradleWorkspace.BuildFile

open Script Text

/-! ## Items -/

/-- A block of a build file, or the assignment of a property. -/
inductive Item
  | plugins (ids : List String)
  | property (name value : String)
  | repositories (names : List String)
  | dependencies (dependencies : List Dependency)
  deriving DecidableEq, Repr

/-- The statement that declares a dependency. -/
def declaring : Dependency → Statement
  | .external configuration group artifact version =>
    .artifact configuration (coordinate group artifact version)
  | .project configuration path => .reference configuration path

/-- The line that declares a repository, by its name if it is well known. -/
def repositoryLine (indent : Nat) (repository : String) : List Char :=
  if repository ∈ wellKnownRepositories then callLine indent repository []
  else callLine indent "maven" (doubleQuoted repository)

/-- The line that declares a plugin. -/
def pluginLine (indent : Nat) (id : String) : List Char :=
  callLine indent "id" (doubleQuoted id)

namespace Item

/-- The text of an item, with indented lines inside a block. -/
def text (indent : Nat) : Item → List Char
  | plugins ids => blockText "plugins" ('\n' :: ids.flatMap (pluginLine indent))
  | property name value => propertyLine name value
  | repositories names => blockText "repositories" ('\n' :: names.flatMap (repositoryLine indent))
  | dependencies items =>
    blockText "dependencies" (statementLines .kotlinCall indent (items.map declaring))

/-- Whether an item is a block without statements. -/
def isEmpty : Item → Bool
  | plugins ids => ids.isEmpty
  | property _ _ => false
  | repositories names => names.isEmpty
  | dependencies items => items.isEmpty

end Item

/-- The names and strings of a dependency are of the right characters, the segments of a
coordinate have no colons, and the path of a module begins with one. -/
def IsWritable : Dependency → Prop
  | .external configuration group artifact version =>
    IsConfiguration configuration ∧
      ∀ segment ∈ [group, artifact, version], IsLiteral segment ∧ ':' ∉ segment.toList
  | .project configuration path =>
    IsConfiguration configuration ∧ IsLiteral path ∧ path.toList.head? = some ':'

instance (dependency : Dependency) : Decidable (IsWritable dependency) :=
  match dependency with
  | .external _ _ _ _ => inferInstanceAs (Decidable (_ ∧ _))
  | .project _ _ => inferInstanceAs (Decidable (_ ∧ _))

/-- The strings of an item are of the right characters. -/
def Item.Writable : Item → Prop
  | plugins ids => ∀ id ∈ ids, IsLiteral id
  | property name value => name ∈ propertyNames ∧ IsLiteral value
  | repositories names => ∀ name ∈ names, IsLiteral name
  | dependencies items => ∀ dependency ∈ items, IsWritable dependency

instance (item : Item) : Decidable item.Writable :=
  match item with
  | .plugins _ => inferInstanceAs (Decidable (∀ _ ∈ _, _))
  | .property _ _ => inferInstanceAs (Decidable (_ ∧ _))
  | .repositories _ => inferInstanceAs (Decidable (∀ _ ∈ _, _))
  | .dependencies _ => inferInstanceAs (Decidable (∀ _ ∈ _, _))

/-! ## The texts of items -/

variable (indent : Nat)

theorem isWord_wellKnown : ∀ name ∈ wellKnownRepositories, IsWord name.toList := by
  decide

theorem isWord_propertyNames : ∀ name ∈ propertyNames, IsWord name.toList := by decide

theorem isWord_id : IsWord "id".toList := by decide

theorem isWord_plugins : IsWord "plugins".toList := by decide

theorem isWord_repositories : IsWord "repositories".toList := by decide

theorem flat_pluginLine {id : String} (h : IsLiteral id) : Flat (pluginLine indent id) :=
  flat_callLine indent isWord_id (h.flat .kotlinCall)

theorem flat_repositoryLine {repository : String} (h : IsLiteral repository) :
    Flat (repositoryLine indent repository) := by
  unfold repositoryLine
  split
  · next hknown => exact flat_callLine indent (isWord_wellKnown repository hknown) flat_nil
  · exact flat_callLine indent isWord_maven (h.flat .kotlinCall)

/-- Lines that call functions with given names. -/
def CallLines (callees : List String) {α : Type} (line : α → List Char) (items : List α) : Prop :=
  ∀ item ∈ items, ∃ callee ∈ callees, ∃ argument, line item = callLine indent callee argument ∧
    ∀ c ∈ argument, c ∉ ['(', '{', '=']

theorem callLines_plugins {ids : List String} (h : ∀ id ∈ ids, IsLiteral id) :
    CallLines indent ["id"] (pluginLine indent) ids :=
  fun id hid => ⟨_, List.mem_singleton_self _, _, rfl, (h id hid).notMem_doubleQuoted⟩

theorem callLines_repositories {names : List String} (h : ∀ name ∈ names, IsLiteral name) :
    CallLines indent ("maven" :: wellKnownRepositories) (repositoryLine indent) names := by
  intro name hname
  unfold repositoryLine
  split
  · next hknown => exact ⟨_, List.mem_cons_of_mem _ hknown, _, rfl, by simp⟩
  · exact ⟨_, List.mem_cons_self, _, rfl, (h name hname).notMem_doubleQuoted⟩

theorem isWord_callee : ∀ callee ∈ "id" :: "maven" :: wellKnownRepositories,
    IsWord callee.toList := by decide

/-- In lines that call other functions, nothing is found. -/
theorem yields_callLines_of_ne {α β : Type} {signs : List Char} {read : Reader α}
    {starts : Option Char → Bool} {name : String} {callees : List String} {line : β → List Char}
    {items : List β} (h : BeginsWith name signs read) (hname : IsWord name.toList)
    (hsigns : ∀ sign ∈ signs, sign ∈ ['(', '{', '='])
    (hcallees : ∀ callee ∈ callees, IsWord callee.toList ∧ ¬name.toList <:+ callee.toList)
    (hstarts : starts (some '\n') = true) (hlines : CallLines indent callees line items) :
    Yields starts read ('\n' :: items.flatMap line) [] := by
  have hread := (h.needsSign hname fun c hc => isWordChar_sign c (hsigns c hc)).needsWord
  refine yields_nil_lines hread hstarts fun item hitem => ?_
  obtain ⟨callee, hcallee, argument, hline, hargument⟩ := hlines item hitem
  obtain ⟨hword, hne⟩ := hcallees callee hcallee
  rw [hline]
  exact yields_nil_callLine
    (silent_callLine_of_ne h hname hsigns hword hne hargument indent) hstarts

theorem isLiteral_coordinate {group artifact version : String}
    (h : ∀ segment ∈ [group, artifact, version], IsLiteral segment) :
    IsLiteral (coordinate group artifact version) := by
  have hshape : (coordinate group artifact version).toList =
      group.toList ++ ([':'] ++ (artifact.toList ++ ([':'] ++ version.toList))) := by
    simp [coordinate]
  have hcolon : ∀ c ∈ [':'], isLiteralChar c = true := by decide
  refine ⟨by simp [hshape], ?_⟩
  rw [hshape]
  simp only [List.forall_mem_append]
  exact ⟨(h group (by simp)).2, hcolon, (h artifact (by simp)).2, hcolon, (h version (by simp)).2⟩

theorem writable_declaring {dependency : Dependency} (h : IsWritable dependency) :
    (declaring dependency).Writable := by
  cases dependency with
  | external configuration group artifact version =>
      exact ⟨h.1, isLiteral_coordinate fun segment hsegment => (h.2 segment hsegment).1⟩
  | project configuration path => exact h

theorem writable_of_mem_map {items : List Dependency}
    (h : ∀ dependency ∈ items, IsWritable dependency) :
    ∀ statement ∈ items.map declaring, statement.Writable := by
  intro statement hmem
  obtain ⟨dependency, hdependency, rfl⟩ := List.mem_map.1 hmem
  exact writable_declaring (h dependency hdependency)

namespace Item

/-- The keyword of a block. -/
def keyword? : Item → Option String
  | plugins _ => some "plugins"
  | property _ _ => none
  | repositories _ => some "repositories"
  | dependencies _ => some "dependencies"

/-- What the file shows outside the block of dependencies. -/
def outside : Item → List Char
  | dependencies _ => blockText "dependencies" []
  | item => item.text indent

/-- What the file shows outside the block of dependencies and outside all braces. -/
def shown : Item → List Char
  | plugins ids => blockText "plugins" (('\n' :: ids.flatMap (pluginLine indent)).map blank)
  | property name value => propertyLine name value
  | repositories names =>
    blockText "repositories" (('\n' :: names.flatMap (repositoryLine indent)).map blank)
  | dependencies _ => blockText "dependencies" []

variable {indent} {item : Item}

/-- An item is an assignment or a block without braces in its body. -/
theorem property_or_block (indent : Nat) (h : item.Writable) :
    (∃ name value, item = property name value ∧ name ∈ propertyNames ∧ IsLiteral value) ∨
      ∃ keyword body, item.keyword? = some keyword ∧ item.text indent = blockText keyword body ∧
        Flat body := by
  cases item with
  | plugins ids =>
      exact Or.inr ⟨_, _, rfl, rfl, flat_lines fun id hid => flat_pluginLine indent (h id hid)⟩
  | property name value => exact Or.inl ⟨name, value, rfl, h⟩
  | repositories names =>
      exact Or.inr ⟨_, _, rfl, rfl,
        flat_lines fun name hname => flat_repositoryLine indent (h name hname)⟩
  | dependencies items =>
      exact Or.inr ⟨_, _, rfl, rfl,
        flat_statementLines .kotlinCall indent (writable_of_mem_map h)⟩

theorem isWord_of_keyword? {keyword : String} (h : item.keyword? = some keyword) :
    IsWord keyword.toList := by
  cases item <;> simp only [keyword?, Option.some.injEq, reduceCtorEq] at h <;> subst h
  · exact isWord_plugins
  · exact isWord_repositories
  · exact isWord_dependencies

/-- The keywords of blocks. -/
theorem mem_of_keyword? {keyword : String} (h : item.keyword? = some keyword) :
    keyword ∈ ["plugins", "repositories", "dependencies"] := by
  cases item <;> simp_all [keyword?]

/-- No keyword is the end of another one. -/
theorem not_suffix_of_keyword? {other : Item} {keyword keyword' : String}
    (h : item.keyword? = some keyword) (h' : other.keyword? = some keyword')
    (hne : keyword ≠ keyword') : ¬keyword.toList <:+ keyword'.toList := by
  have hnone : ∀ k ∈ ["plugins", "repositories", "dependencies"],
      ∀ k' ∈ ["plugins", "repositories", "dependencies"], k ≠ k' →
        ¬k.toList <:+ k'.toList := by decide
  exact hnone keyword (mem_of_keyword? h) keyword' (mem_of_keyword? h') hne

theorem uncommented_text (indent : Nat) (h : item.Writable) : Uncommented (item.text indent) := by
  rcases property_or_block indent h with
    ⟨name, value, rfl, hname, hvalue⟩ | ⟨keyword, body, hkeyword, htext, hbody⟩
  · exact (flat_propertyLine (isWord_propertyNames name hname) hvalue).uncommented
  · rw [htext]
    exact uncommented_blockText (isWord_of_keyword? hkeyword) hbody.uncommented

theorem mask_propertyLine {name value : String} (hname : IsWord name.toList)
    (hvalue : IsLiteral value) :
    mask (propertyLine name value) =
      (name.toList ++ ([' ', '=', ' '] ++ '"' :: value.toList.map blank)) ++ ['"', '\n'] := by
  have hcode : ∀ c ∈ name.toList, isCode c = true :=
    fun c hc => isCode_of_isWordChar (hname.2 c hc)
  have hplain : ∀ c ∈ value.toList, isPlain c = true :=
    fun c hc => isPlain_of_isLiteralChar (hvalue.2 c hc)
  rw [mask, propertyLine, maskFrom_code_append hcode, maskFrom_code_append (by decide),
    doubleQuoted, maskFrom_string_append (by decide) hplain hvalue.1,
    @maskFrom_code ['\n'] (by decide)]
  simp [inQuotes]

/-- In an item, only the block with its own keyword begins. -/
theorem yields_opening_of_ne (indent : Nat) {keyword : String} {block : Item}
    (hkeyword : block.keyword? = some keyword) (h : item.Writable)
    (hne : item.keyword? ≠ some keyword) :
    Yields isNameBorder (readOpening keyword) (mask (item.text indent)) [] := by
  have hword := isWord_of_keyword? hkeyword
  rcases property_or_block indent h with
    ⟨name, value, rfl, hname, hvalue⟩ | ⟨keyword', body, hkeyword', htext, hbody⟩
  · have hname := isWord_propertyNames name hname
    have hread := needsSign_readOpening hword
    have hsilent : Silent (readOpening keyword) (mask (propertyLine name value)) := by
      rw [mask_propertyLine hname hvalue]
      refine silent_of_forall_notMem hread (fun c hc hsign => ?_) (by decide) (by decide)
      obtain rfl : c = '{' := by simpa using hsign
      simp only [List.mem_append, List.mem_cons, List.mem_map, List.not_mem_nil, or_false] at hc
      rcases hc with hc | hc | hc | ⟨d, -, hd⟩
      · exact notMem_of_isWord hname _ hc (by decide)
      · revert hc
        decide
      · revert hc
        decide
      · unfold blank at hd
        split at hd <;> revert hd <;> decide
    refine hsilent.yields fun c hc => ?_
    rw [mask_propertyLine hname hvalue] at hc
    obtain rfl : '\n' = c := by simpa [List.getLast?_cons] using hc
    exact isNameBorder_lineEnd
  · rw [htext]
    refine yields_blockText_of_ne hword (isWord_of_keyword? hkeyword') ?_ hbody
    exact not_suffix_of_keyword? hkeyword hkeyword' fun heq => hne (heq ▸ hkeyword')

/-! ## Plugins and properties of an item -/

/-- The plugins that an item declares. -/
def pluginIds : Item → List (List Char)
  | plugins ids => ids.map String.toList
  | _ => []

/-- The values that an item gives to a property. -/
def valuesOf (name : String) : Item → List (List Char)
  | property other value => if other = name then [value.toList] else []
  | _ => []

theorem isNameBorder_brace_lineEnd : ∀ c ∈ ['{', '\n'], isNameBorder (some c) = true := by
  decide

theorem isWordBorder_lineEnd : isWordBorder (some '\n') = true := by decide

theorem isWordBorder_brace_lineEnd : ∀ c ∈ ['{', '\n'], isWordBorder (some c) = true := by
  decide

/-- Of the plugins of an item, all are declared by `id`, and none by `kotlin`. -/
theorem yields_pluginForm {name : String} (hname : name ∈ ["id", "kotlin"]) (h : item.Writable) :
    Yields isNameBorder (call name literal) (item.outside indent)
      (if name = "id" then item.pluginIds else []) := by
  have hwords : ∀ name ∈ ["id", "kotlin"], IsWord name.toList := by decide
  have hsigns : ∀ sign ∈ ['('], sign ∈ ['(', '{', '='] := by decide
  have hword := hwords name hname
  have hbegins := beginsWith_call name literal
  have hread := hbegins.needsSign hword (by decide)
  cases item with
  | plugins ids =>
      refine yields_blockText hread (by decide) isWord_plugins isNameBorder_brace_lineEnd ?_
      split
      · next hid =>
        subst hid
        rw [pluginIds, List.map_eq_flatMap]
        exact yields_lines hread.needsWord isNameBorder_lineEnd fun id hmem =>
          yields_plugin indent isWord_id (h id hmem)
      · next hother =>
        have hkotlin : name = "kotlin" := by simpa [hother] using hname
        subst hkotlin
        exact yields_callLines_of_ne indent hbegins hword hsigns (by decide)
          isNameBorder_lineEnd (callLines_plugins indent h)
  | property other value =>
      have hsilent := silent_propertyLine_of_notMem hread (by decide)
        (isWord_propertyNames other h.1) h.2
      simp only [pluginIds, ite_self]
      exact yields_nil_propertyLine hsilent isNameBorder_lineEnd
  | repositories names =>
      have hcallees : ∀ name ∈ ["id", "kotlin"], ∀ callee ∈ "maven" :: wellKnownRepositories,
          IsWord callee.toList ∧ ¬name.toList <:+ callee.toList := by decide
      simp only [pluginIds, ite_self]
      exact yields_blockText hread (by decide) isWord_repositories isNameBorder_brace_lineEnd
        (yields_callLines_of_ne indent hbegins hword hsigns (hcallees name hname)
          isNameBorder_lineEnd (callLines_repositories indent h))
  | dependencies items =>
      simp only [pluginIds, ite_self]
      exact yields_blockText hread (by decide) isWord_dependencies isNameBorder_brace_lineEnd
        yields_nil

section Assignments

variable {name : String} {value : Reader (List Char)}

/-- In the blocks outside that of dependencies, no property is set. -/
theorem yields_assignment_block (hname : name ∈ propertyNames) (h : item.Writable)
    (hblock : item.keyword?.isSome) :
    Yields isWordBorder (readAssignment name value) (item.outside indent) [] := by
  have hbegins := beginsWith_readAssignment name value
  have hword := isWord_propertyNames name hname
  have hread := hbegins.needsSign hword (by decide)
  have hsigns : ∀ sign ∈ ['='], sign ∈ ['(', '{', '='] := by decide
  have hcallees : ∀ name ∈ propertyNames, ∀ callee ∈ "id" :: "maven" :: wellKnownRepositories,
      IsWord callee.toList ∧ ¬name.toList <:+ callee.toList := by decide
  cases item with
  | plugins ids =>
      exact yields_blockText hread (by decide) isWord_plugins isWordBorder_brace_lineEnd
        (yields_callLines_of_ne indent hbegins hword hsigns
          (fun callee hmem => hcallees name hname callee (by simp_all)) isWordBorder_lineEnd
          (callLines_plugins indent h))
  | property other value => simp [keyword?] at hblock
  | repositories names =>
      exact yields_blockText hread (by decide) isWord_repositories isWordBorder_brace_lineEnd
        (yields_callLines_of_ne indent hbegins hword hsigns
          (fun callee hmem => hcallees name hname callee (List.mem_cons_of_mem _ hmem))
          isWordBorder_lineEnd (callLines_repositories indent h))
  | dependencies items =>
      exact yields_blockText hread (by decide) isWord_dependencies isWordBorder_brace_lineEnd
        yields_nil

/-- In an assignment to another property, a property is not set. -/
theorem yields_assignment_of_ne {other text : String} (hname : name ∈ propertyNames)
    (hother : other ∈ propertyNames) (htext : IsLiteral text) (hne : other ≠ name) :
    Yields isWordBorder (readAssignment name value) (propertyLine other text) [] := by
  have hsuffix : ∀ name ∈ propertyNames, ∀ other ∈ propertyNames, other ≠ name →
      ¬name.toList <:+ other.toList := by decide
  exact yields_nil_propertyLine
    (silent_propertyLine_of_ne (beginsWith_readAssignment name value)
      (isWord_propertyNames name hname) (isWord_propertyNames other hother)
      (hsuffix name hname other hother hne) htext) isWordBorder_lineEnd

/-- Blanked text sets no property. -/
theorem yields_blanks {α : Type} {read : Reader α} (hread : NeedsWord read) (text : List Char) :
    Yields isWordBorder read (text.map blank) [] := by
  have hblank : ∀ c ∈ text.map blank, isWordChar c = false := by
    intro c hc
    obtain ⟨d, -, rfl⟩ := List.mem_map.1 hc
    unfold blank
    split <;> decide
  refine (hread.silent hblank).yields fun c hc => ?_
  have hc := hblank c (List.mem_of_getLast? hc)
  simp [isWordBorder, hc]

/-- What is assigned to a property on the line of an assignment. -/
theorem yields_assignment_property {other text : String} (hname : name ∈ propertyNames)
    (h : (property other text).Writable)
    (hvalue : value = literal ∨ (property other text).valuesOf name = []) :
    Yields isWordBorder (readAssignment name value) (propertyLine other text)
      ((property other text).valuesOf name) := by
  rw [valuesOf]
  split
  · next heq =>
    obtain rfl : value = literal := hvalue.resolve_right (by simp [valuesOf, heq])
    rw [heq]
    exact yields_assignment (isWord_propertyNames name hname) h.2
  · next hne => exact yields_assignment_of_ne hname h.1 h.2 hne

theorem yields_assignment_outside (hname : name ∈ propertyNames) (h : item.Writable)
    (hvalue : value = literal ∨ item.valuesOf name = []) :
    Yields isWordBorder (readAssignment name value) (item.outside indent) (item.valuesOf name) := by
  cases item with
  | property other text => exact yields_assignment_property hname h hvalue
  | plugins ids => exact yields_assignment_block hname h rfl
  | repositories names => exact yields_assignment_block hname h rfl
  | dependencies items => exact yields_assignment_block hname h rfl

theorem yields_assignment_shown (hname : name ∈ propertyNames) (h : item.Writable)
    (hvalue : value = literal ∨ item.valuesOf name = []) :
    Yields isWordBorder (readAssignment name value) (item.shown indent) (item.valuesOf name) := by
  have hread := (beginsWith_readAssignment name value).needsSign (isWord_propertyNames name hname)
    (by decide)
  cases item with
  | property other text => exact yields_assignment_property hname h hvalue
  | plugins ids =>
      exact yields_blockText hread (by decide) isWord_plugins isWordBorder_brace_lineEnd
        (yields_blanks hread.needsWord _)
  | repositories names =>
      exact yields_blockText hread (by decide) isWord_repositories isWordBorder_brace_lineEnd
        (yields_blanks hread.needsWord _)
  | dependencies items =>
      exact yields_blockText hread (by decide) isWord_dependencies isWordBorder_brace_lineEnd
        yields_nil

end Assignments

theorem uncommented_outside (h : item.Writable) : Uncommented (item.outside indent) := by
  cases item with
  | dependencies items => exact uncommented_blockText isWord_dependencies uncommented_nil
  | plugins ids => exact uncommented_text indent h
  | property name value => exact uncommented_text indent h
  | repositories names => exact uncommented_text indent h

theorem outlines_outside (h : item.Writable) :
    Outlines (item.outside indent) (item.shown indent) := by
  cases item with
  | plugins ids =>
      exact outlines_blockText isWord_plugins
        (.flat (flat_lines fun id hid => flat_pluginLine indent (h id hid)))
  | property name value =>
      exact (flat_propertyLine (isWord_propertyNames name h.1) h.2).outlines
  | repositories names =>
      exact outlines_blockText isWord_repositories
        (.flat (flat_lines fun name hname => flat_repositoryLine indent (h name hname)))
  | dependencies items => exact outlines_blockText isWord_dependencies (.flat flat_nil)

end Item

/-! ## Repositories of a block -/

theorem withoutRepeats_of_nodup {names : List String} (h : names.Nodup) :
    withoutRepeats names = names := by
  unfold withoutRepeats
  induction names with
  | nil => rfl
  | cons name rest ih =>
      obtain ⟨hname, hrest⟩ := List.nodup_cons.1 h
      have hfilter : rest.filter (fun other => !other == name) = rest := by
        rw [List.filter_eq_self]
        rintro other hother
        have hne : other ≠ name := ne_of_mem_of_not_mem hother hname
        simpa using hne
      rw [List.eraseDups_cons, hfilter, ih hrest]

theorem yields_namedRepository_line {name repository : String}
    (hname : name ∈ wellKnownRepositories) (h : IsLiteral repository) :
    Yields isNameBorder (readNamedRepository name) (repositoryLine indent repository)
      (if repository = name then [()] else []) := by
  split
  · next heq =>
    rw [heq, repositoryLine, if_pos hname]
    exact yields_namedRepository indent (isWord_wellKnown name hname)
  · next hne =>
    have hsuffix : ∀ name ∈ wellKnownRepositories, ∀ callee ∈ "maven" :: wellKnownRepositories,
        callee ≠ name → ¬name.toList <:+ callee.toList := by decide
    have hcallee : ∃ callee argument, repositoryLine indent repository =
        callLine indent callee argument ∧ callee ∈ "maven" :: wellKnownRepositories ∧
          callee ≠ name ∧ ∀ c ∈ argument, c ∉ ['(', '{', '='] := by
      unfold repositoryLine
      split
      · next hknown => exact ⟨_, _, rfl, List.mem_cons_of_mem _ hknown, hne, by simp⟩
      · next hunknown =>
        refine ⟨_, _, rfl, List.mem_cons_self, ?_, h.notMem_doubleQuoted⟩
        rintro rfl
        exact absurd hname (by decide)
    obtain ⟨callee, argument, hline, hcallee, hother, hargument⟩ := hcallee
    rw [hline]
    exact yields_nil_callLine (silent_callLine_of_ne (beginsWith_readNamedRepository name)
      (isWord_wellKnown name hname) (by decide)
      (isWord_callee callee (List.mem_cons_of_mem _ hcallee))
      (hsuffix name hname callee hcallee hother) hargument indent) isNameBorder_lineEnd

theorem yields_mavenCall_line {repository : String} (h : IsLiteral repository) :
    Yields isNameBorder readMavenCall (repositoryLine indent repository)
      (if repository ∈ wellKnownRepositories then [] else [repository.toList]) := by
  unfold repositoryLine
  split
  · next hknown =>
    have hsuffix : ∀ callee ∈ wellKnownRepositories, ¬"maven".toList <:+ callee.toList := by decide
    exact yields_nil_callLine (silent_callLine_of_ne beginsWith_readMavenCall isWord_maven
      (by decide) (isWord_wellKnown repository hknown) (hsuffix repository hknown) (by simp) indent)
      isNameBorder_lineEnd
  · exact yields_mavenCall indent h

theorem map_addresses (names : List String) :
    (names.flatMap fun repository =>
      if repository ∈ wellKnownRepositories then [] else [repository.toList]).map String.ofList =
        names.filter fun name => name ∉ wellKnownRepositories := by
  induction names with
  | nil => rfl
  | cons name rest ih =>
      rw [List.flatMap_cons, List.map_append, ih, List.filter_cons]
      split <;> simp_all

/-- The repositories in a script whose block `repositories` is read as a list of names, where the
address of a repository without a name is set in a block or in a call. -/
theorem repositories_eq {script body : List Char} {names : List String}
    (hbody : blockBody "repositories" script = some body) (hnodup : names.Nodup)
    (hnamed : ∀ name ∈ wellKnownRepositories,
      findValues isNameBorder (readNamedRepository name) body =
        names.flatMap fun repository => if repository = name then [()] else [])
    (haddresses : findValues isNameBorder readMavenBlock body ++
      findValues isNameBorder readMavenCall body = names.flatMap fun repository =>
        if repository ∈ wellKnownRepositories then [] else [repository.toList]) :
    repositories script =
      wellKnownRepositories.filter (fun name => name ∈ names) ++
        names.filter fun name => name ∉ wellKnownRepositories := by
  have hused : ∀ name ∈ wellKnownRepositories,
      (!(find isNameBorder (readNamedRepository name) body).isEmpty) = decide (name ∈ names) := by
    intro name hname
    have hempty := congrArg List.isEmpty (hnamed name hname)
    rw [findValues, List.isEmpty_map] at hempty
    rw [hempty, Bool.eq_iff_iff]
    simp
  rw [repositories, hbody]
  simp only [haddresses, map_addresses, List.filter_congr hused]
  refine withoutRepeats_of_nodup (List.nodup_append'.2 ⟨?_, ?_, ?_⟩)
  · exact List.Nodup.filter _ (by decide)
  · exact hnodup.filter _
  · intro name hname hother
    simp_all

/-- The repositories in a script with a single block `repositories`. -/
theorem repositories_append {before after : List Char} {names : List String}
    (h : ∀ name ∈ names, IsLiteral name) (hnodup : names.Nodup)
    (hsurrounds : Surrounds "repositories" before after) :
    repositories (before ++
        blockText "repositories" ('\n' :: names.flatMap (repositoryLine indent)) ++ after) =
      wellKnownRepositories.filter (fun name => name ∈ names) ++
        names.filter fun name => name ∉ wellKnownRepositories := by
  have hflat := flat_lines fun name hname => flat_repositoryLine indent (h name hname)
  have hbody := blockBody_append isWord_repositories hsurrounds (hflat.isBody isWord_repositories)
  refine repositories_eq hbody hnodup (fun name hname => ?_) ?_
  · have hread := (beginsWith_readNamedRepository name).needsSign (isWord_wellKnown name hname)
      (by decide)
    exact (yields_lines hread.needsWord isNameBorder_lineEnd fun repository hmem =>
      yields_namedRepository_line indent hname (h repository hmem)).findValues_eq rfl
  have hblocks : findValues isNameBorder readMavenBlock
      ('\n' :: names.flatMap (repositoryLine indent)) = [] := by
    have hread := beginsWith_readMavenBlock.needsSign isWord_maven (by decide)
    refine (yields_nil_lines hread.needsWord isNameBorder_lineEnd
      fun repository hmem => ?_).findValues_eq rfl
    obtain ⟨callee, hcallee, argument, hline, hargument⟩ :=
      callLines_repositories indent h repository hmem
    rw [hline]
    exact yields_nil_callLine (silent_callLine_of_notMem hread (by decide)
      (isWord_callee callee (List.mem_cons_of_mem _ hcallee)) hargument indent)
      isNameBorder_lineEnd
  have hread := beginsWith_readMavenCall.needsSign isWord_maven (by decide)
  have hcalls := (yields_lines hread.needsWord isNameBorder_lineEnd fun repository hmem =>
    yields_mavenCall_line indent (h repository hmem)).findValues_eq rfl
  rw [hblocks, hcalls, List.nil_append]

end GradleWorkspace.BuildFile
