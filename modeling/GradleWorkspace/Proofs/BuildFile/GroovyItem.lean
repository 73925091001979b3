import GradleWorkspace.Proofs.BuildFile.GroovyLines

/-!
# Items in the Groovy dialect

For each item of a build file this file says what the readers find in it when it is written in the
Groovy dialect.

* `Item.groovyText` is the text of an item.  The block of repositories has braces in its body, so
  that the body is `Balanced` and not `Flat`.
* `Item.yields_nil_groovyOutside` says where nothing is read: a reader whose word does not stand in
  the fixed parts of an item finds nothing, if it finds nothing in the strings.
* `Item.Unambiguous` excludes the strings that the readers of Groovy mistake for something else.
* `Item.yields_pluginCommand`, `Item.yields_assignment_groovyOutside` and
  `groovyRepositories_append` say what is read of an item as it is written.
-/

namespace GradleWorkspace.BuildFile

open Script Text

/-! ## The texts of items -/

namespace Item

/-- The text of an item, with indented lines inside a block. -/
def groovyText (indent : Nat) : Item → List Char
  | plugins ids => blockText "plugins" ('\n' :: ids.flatMap (pluginCommand indent))
  | property name value => propertyCommand name value
  | repositories names =>
    blockText "repositories" ('\n' :: names.flatMap (repositoryCommand indent))
  | dependencies items =>
    blockText "dependencies" (statementLines .groovyCommand indent (items.map declaring))

/-- What the file shows outside the block of dependencies. -/
def groovyOutside (indent : Nat) : Item → List Char
  | dependencies _ => blockText "dependencies" []
  | item => item.groovyText indent

/-- What the file shows outside the block of dependencies and outside all braces. -/
def groovyShown (indent : Nat) : Item → List Char
  | plugins ids => blockText "plugins" (('\n' :: ids.flatMap (pluginCommand indent)).map blank)
  | property name value => propertyCommand name value
  | repositories names =>
    blockText "repositories" (('\n' :: names.flatMap (repositoryCommand indent)).map blank)
  | dependencies _ => blockText "dependencies" []

/-- No value and no address ends in the word `id`, and no configuration in the word `project`. -/
def Unambiguous : Item → Prop
  | plugins _ => True
  | property _ value => ¬EndsIn "id".toList value.toList
  | repositories names => ∀ name ∈ names, ¬EndsIn "id".toList name.toList
  | dependencies items =>
    ∀ dependency ∈ items, ¬"project".toList <:+ dependency.configuration.toList

instance (item : Item) : Decidable item.Unambiguous :=
  match item with
  | plugins _ => inferInstanceAs (Decidable True)
  | property _ _ => inferInstanceAs (Decidable (¬_))
  | repositories _ => inferInstanceAs (Decidable (∀ _ ∈ _, _))
  | dependencies _ => inferInstanceAs (Decidable (∀ _ ∈ _, _))

end Item

variable (indent : Nat)

/-! ## Where nothing is read -/

/-- The words in the block of plugins, with the signs after them. -/
def pluginParts : List (List Char) := ["plugins".toList ++ [' ', '{'], "id ".toList ++ ['\'']]

/-- The words in the block of repositories, with the signs after them. -/
def repositoryParts : List (List Char) :=
  ("repositories".toList ++ [' ', '{']) :: (mavenFront ++ ['\'']) ::
    wellKnownRepositories.map fun known => known.toList ++ ['(', ')', '\n']

/-- The words around the block of dependencies, with the signs after them. -/
def dependencyParts : List (List Char) := ["dependencies".toList ++ [' ', '{']]

section Nothing

variable {α : Type} {name : String} {signs : List Char} {read : Reader α}
  {starts : Option Char → Bool}

theorem yields_nil_knownLine {known : String} (h : BeginsWith name signs read)
    (hname : IsWord name.toList)
    (havoids : avoids name signs (known.toList ++ ['(', ')', '\n']) = true)
    (hstarts : starts (some '\n') = true) : Yields starts read (callLine indent known []) [] := by
  refine yields_nil_callLine ?_ hstarts
  refine (silent_indentation (h.needsWord hname) indent).append
    (silent_of_avoids h hname (fun c hc => ?_) havoids)
  obtain rfl : '\n' = c := by simpa using hc
  decide

theorem silent_opening_of_avoids {keyword : String} (h : BeginsWith name signs read)
    (hname : IsWord name.toList)
    (havoids : avoids name signs (keyword.toList ++ [' ', '{']) = true) :
    Silent read (keyword.toList ++ [' ', '{']) := by
  refine silent_of_avoids h hname (fun c hc => ?_) havoids
  obtain rfl : '{' = c := by simpa using hc
  decide

namespace Item

/-- The parts of an item that are no strings and have words. -/
def fixedParts : Item → List (List Char)
  | plugins _ => pluginParts
  | property name _ => [assignmentFront name ++ ['\'']]
  | repositories _ => repositoryParts
  | dependencies _ => dependencyParts

/-- The strings of an item outside the block of dependencies. -/
def strings : Item → List String
  | plugins ids => ids
  | property _ value => [value]
  | repositories names => names
  | dependencies _ => []

variable {indent} {item : Item}

/-- A reader whose word does not stand in the fixed parts of an item finds nothing in the item, if
it finds nothing in the strings. -/
theorem yields_nil_groovyOutside (h : BeginsWith name signs read) (hname : IsWord name.toList)
    (hparts : ∀ part ∈ item.fixedParts, avoids name signs part = true)
    (hstrings : ∀ text ∈ item.strings, Yields starts read (text.toList ++ ['\'']) [])
    (hstarts : ∀ c ∈ ['{', '\'', '\n'], starts (some c) = true) :
    Yields starts read (item.groovyOutside indent) [] := by
  have hread := h.needsWord hname
  have hsub : ∀ c ∈ ['{', '\n'], c ∈ ['{', '\'', '\n'] := by decide
  have hbrace : ∀ c ∈ ['{', '\n'], starts (some c) = true := fun c hc => hstarts c (hsub c hc)
  have hquote : ∀ c ∈ ['\'', '\n'], starts (some c) = true :=
    fun c hc => hstarts c (List.mem_cons_of_mem _ hc)
  have hlineEnd := hstarts '\n' (by simp)
  have hopening : ∀ keyword : String, keyword.toList ++ [' ', '{'] ∈ item.fixedParts →
      Silent read (keyword.toList ++ [' ', '{']) := fun keyword hpart =>
    silent_opening_of_avoids h hname (hparts _ hpart)
  cases item with
  | plugins ids =>
      refine yields_blockText_of_silent hread (hopening "plugins" List.mem_cons_self) hbrace
        (yields_nil_lines hread hlineEnd fun id hid => ?_)
      exact yields_nil_quotedLine indent h hname
        (hparts _ (List.mem_cons_of_mem _ List.mem_cons_self)) (hstrings id hid) (by decide) rfl
        hquote
  | property other value =>
      exact yields_nil_quotedLine 0 h hname (hparts _ List.mem_cons_self)
        (hstrings value List.mem_cons_self) (by decide) rfl hquote
  | repositories names =>
      refine yields_blockText_of_silent hread (hopening "repositories" List.mem_cons_self) hbrace
        (yields_nil_lines hread hlineEnd fun repository hmem => ?_)
      unfold repositoryCommand
      split
      · next hknown =>
        exact yields_nil_knownLine indent h hname
          (hparts _ (List.mem_cons_of_mem _ (List.mem_cons_of_mem _ (List.mem_map_of_mem hknown))))
          hlineEnd
      · exact yields_nil_quotedLine indent h hname
          (hparts _ (List.mem_cons_of_mem _ List.mem_cons_self)) (hstrings repository hmem)
          (by decide) rfl hquote
  | dependencies items =>
      exact yields_blockText_of_silent hread (hopening "dependencies" List.mem_cons_self) hbrace
        yields_nil

end Item

end Nothing

/-! ## Plugins and properties of an item -/

namespace Item

variable {indent} {item : Item}

theorem isNameBorder_signs : ∀ c ∈ ['{', '\'', '\n'], isNameBorder (some c) = true := by decide

theorem isWordBorder_signs : ∀ c ∈ ['{', '\'', '\n'], isWordBorder (some c) = true := by decide

/-- The plugins of an item are declared by commands. -/
theorem yields_pluginCommand (h : item.Writable) (hitem : item.Unambiguous) :
    Yields isNameBorder readPluginCommand (item.groovyOutside indent) item.pluginIds := by
  have hbegins := beginsWith_readPluginCommand
  have hread := hbegins.needsWord isWord_id
  have hparts : ∀ part ∈ repositoryParts ++ dependencyParts,
      avoids "id" ['(', '"', '\''] part = true := by decide
  have hfront : ∀ name ∈ propertyNames,
      avoids "id" ['(', '"', '\''] (assignmentFront name ++ ['\'']) = true := by decide
  cases item with
  | plugins ids =>
      have hopening : Silent readPluginCommand ("plugins".toList ++ [' ', '{']) :=
        silent_opening_of_avoids hbegins isWord_id (by decide)
      refine yields_blockText_of_silent hread hopening isNameBorder_brace_lineEnd ?_
      rw [pluginIds, List.map_eq_flatMap]
      exact yields_lines hread isNameBorder_lineEnd fun id hid =>
        yields_quotedLine indent hread (readPluginCommand_append (h id hid)) (by decide) rfl
          (by decide)
  | property name value =>
      refine yields_nil_groovyOutside hbegins isWord_id
        (by simpa [fixedParts] using hfront name h.1) (fun text htext => ?_) isNameBorder_signs
      obtain rfl := List.mem_singleton.1 htext
      exact yields_content_readPluginCommand h.2 hitem
  | repositories names =>
      exact yields_nil_groovyOutside hbegins isWord_id
        (fun part hpart => hparts part (List.mem_append_left _ hpart))
        (fun text htext => yields_content_readPluginCommand (h text htext) (hitem text htext))
        isNameBorder_signs
  | dependencies items =>
      exact yields_nil_groovyOutside hbegins isWord_id
        (fun part hpart => hparts part (List.mem_append_right _ hpart)) (by simp [strings])
        isNameBorder_signs

/-- The fixed parts of an item are those of a block, or the front of an assignment. -/
theorem cases_of_mem_fixedParts (h : item.Writable) {part : List Char}
    (hpart : part ∈ item.fixedParts) :
    part ∈ pluginParts ++ repositoryParts ++ dependencyParts ∨
      ∃ name value, item = property name value ∧ name ∈ propertyNames ∧
        part = assignmentFront name ++ ['\''] := by
  cases item with
  | plugins ids => exact Or.inl (List.mem_append_left _ (List.mem_append_left _ hpart))
  | property name value => exact Or.inr ⟨name, value, rfl, h.1, List.mem_singleton.1 hpart⟩
  | repositories names => exact Or.inl (List.mem_append_left _ (List.mem_append_right _ hpart))
  | dependencies items => exact Or.inl (List.mem_append_right _ hpart)

theorem isLiteral_of_mem_strings (h : item.Writable) : ∀ text ∈ item.strings, IsLiteral text := by
  intro text htext
  cases item with
  | plugins ids => exact h text htext
  | property name value => exact List.mem_singleton.1 htext ▸ h.2
  | repositories names => exact h text htext
  | dependencies items => simp [strings] at htext

/-- No plugin is declared by its application. -/
theorem yields_pluginApplication (h : item.Writable) :
    Yields isNameBorder readPluginApplication (item.groovyOutside indent) [] := by
  have hparts : ∀ part ∈ pluginParts ++ repositoryParts ++ dependencyParts,
      avoids "apply" ['p'] part = true := by decide
  have hfront : ∀ name ∈ propertyNames,
      avoids "apply" ['p'] (assignmentFront name ++ ['\'']) = true := by decide
  refine yields_nil_groovyOutside beginsWith_readPluginApplication (by decide) ?_
    (fun text htext => yields_content_of_silent (silent_content_readPluginApplication
      (isLiteral_of_mem_strings h text htext)) (by decide)) isNameBorder_signs
  intro part hpart
  rcases cases_of_mem_fixedParts h hpart with hblock | ⟨name, _, -, hname, rfl⟩
  · exact hparts part hblock
  · exact hfront name hname

section Assignments

variable {name : String} {value : Reader (List Char)}

/-- In an item that does not set a property, nothing is assigned to it. -/
theorem yields_nil_assignment (hname : name ∈ propertyNames) (h : item.Writable)
    (hvalues : item.valuesOf name = []) :
    Yields isWordBorder (readAssignment name value) (item.groovyOutside indent) [] := by
  have hparts : ∀ name ∈ propertyNames, ∀ part ∈ pluginParts ++ repositoryParts ++ dependencyParts,
      avoids name ['='] part = true := by decide
  have hfront : ∀ name ∈ propertyNames, ∀ other ∈ propertyNames, other ≠ name →
      avoids name ['='] (assignmentFront other ++ ['\'']) = true := by decide
  have hword := isWord_propertyNames name hname
  have hbegins := beginsWith_readAssignment name value
  refine yields_nil_groovyOutside hbegins hword ?_
    (fun text htext => yields_content_of_silent ((isLiteral_of_mem_strings h text
      htext).silent_content hbegins hword (by decide)) (by decide)) isWordBorder_signs
  intro part hpart
  rcases cases_of_mem_fixedParts h hpart with hblock | ⟨other, text, rfl, hother, rfl⟩
  · exact hparts name hname part hblock
  · refine hfront name hname other hother ?_
    rintro rfl
    simp [valuesOf] at hvalues

theorem yields_assignment_groovyOutside (indent : Nat) (hname : name ∈ propertyNames)
    (h : item.Writable)
    (hvalue : value = literal ∨ item.valuesOf name = []) :
    Yields isWordBorder (readAssignment name value) (item.groovyOutside indent)
      (item.valuesOf name) := by
  by_cases hvalues : item.valuesOf name = []
  · rw [hvalues]
    exact yields_nil_assignment hname h hvalues
  · obtain rfl : value = literal := hvalue.resolve_right hvalues
    have hword := isWord_propertyNames name hname
    have hread := (beginsWith_readAssignment name literal).needsWord hword
    cases item with
    | property other text =>
        obtain rfl : other = name := by
          by_contra hne
          exact hvalues (if_neg hne)
        rw [valuesOf, if_pos rfl]
        refine yields_quotedLine 0 hread (fun rest => ?_) (by decide) rfl (by decide)
        rw [assignmentFront, List.append_assoc]
        exact readAssignment_append .groovyCommand h.2 rest
    | plugins ids => exact absurd rfl hvalues
    | repositories names => exact absurd rfl hvalues
    | dependencies items => exact absurd rfl hvalues

theorem yields_assignment_groovyShown (hname : name ∈ propertyNames) (h : item.Writable)
    (hvalue : value = literal ∨ item.valuesOf name = []) :
    Yields isWordBorder (readAssignment name value) (item.groovyShown indent)
      (item.valuesOf name) := by
  have hread := (beginsWith_readAssignment name value).needsSign (isWord_propertyNames name hname)
    (by decide)
  cases item with
  | property other text => exact yields_assignment_groovyOutside indent hname h hvalue
  | plugins ids =>
      exact yields_blockText hread (by decide) isWord_plugins isWordBorder_brace_lineEnd
        (yields_blanks hread.needsWord _)
  | repositories names =>
      exact yields_blockText hread (by decide) isWord_repositories isWordBorder_brace_lineEnd
        (yields_blanks hread.needsWord _)
  | dependencies items =>
      exact yields_blockText hread (by decide) isWord_dependencies isWordBorder_brace_lineEnd
        yields_nil

end Assignments

/-! ## The text of an item -/

theorem uncommented_groovyText (h : item.Writable) : Uncommented (item.groovyText indent) := by
  cases item with
  | plugins ids =>
      exact uncommented_blockText isWord_plugins
        (flat_lines fun id hid => flat_pluginCommand indent (h id hid)).uncommented
  | property name value =>
      exact (flat_propertyCommand (isWord_propertyNames name h.1) h.2).uncommented
  | repositories names =>
      exact uncommented_blockText isWord_repositories
        (balanced_repositoryCommands indent h).uncommented
  | dependencies items =>
      exact uncommented_blockText isWord_dependencies
        (flat_statementLines .groovyCommand indent (writable_of_mem_map h)).uncommented

theorem uncommented_groovyOutside (h : item.Writable) :
    Uncommented (item.groovyOutside indent) := by
  cases item with
  | dependencies items => exact uncommented_blockText isWord_dependencies uncommented_nil
  | plugins ids => exact uncommented_groovyText h
  | property name value => exact @uncommented_groovyText indent _ h
  | repositories names => exact uncommented_groovyText h

theorem outlines_groovyOutside (h : item.Writable) :
    Outlines (item.groovyOutside indent) (item.groovyShown indent) := by
  cases item with
  | plugins ids =>
      exact outlines_blockText isWord_plugins
        (.flat (flat_lines fun id hid => flat_pluginCommand indent (h id hid)))
  | property name value =>
      exact (flat_propertyCommand (isWord_propertyNames name h.1) h.2).outlines
  | repositories names =>
      exact outlines_blockText isWord_repositories (balanced_repositoryCommands indent h)
  | dependencies items => exact outlines_blockText isWord_dependencies (.flat flat_nil)

/-! ## Openings of blocks -/

/-- Whatever the keyword, no block begins in the lines of repositories. -/
theorem isBody_repositoryCommands (indent : Nat) {keyword : String}
    (hkeyword : item.keyword? = some keyword) {names : List String}
    (h : ∀ name ∈ names, IsLiteral name) :
    IsBody keyword ('\n' :: names.flatMap (repositoryCommand indent)) := by
  have hbegins := beginsWith_readOpening keyword
  have hword := isWord_of_keyword? hkeyword
  have hread := hbegins.needsWord hword
  have hparts : ∀ keyword ∈ ["plugins", "repositories", "dependencies"],
      ∀ part ∈ repositoryParts.tail, avoids keyword ['{'] part = true := by decide
  have hparts := hparts keyword (mem_of_keyword? hkeyword)
  have hline : ∀ name ∈ names, Yields isNameBorder (readOpening keyword)
      (mask (repositoryCommand indent name)) [] := by
    intro name hname
    unfold repositoryCommand
    split
    · next hknown =>
      have hcode : ∀ c ∈ callLine indent name [], isCode c = true := by
        intro c hc
        simp only [callLine, List.mem_append, List.mem_replicate, List.mem_cons, List.nil_append,
          List.not_mem_nil, or_false] at hc
        rcases hc with ⟨-, rfl⟩ | hc | rfl | rfl | rfl
        · decide
        · exact isCode_of_isWordChar ((isWord_wellKnown name hknown).2 c hc)
        · decide
        · decide
        · decide
      rw [mask, maskFrom_code hcode]
      exact yields_nil_knownLine indent hbegins hword
        (hparts _ (List.mem_cons_of_mem _ (List.mem_map_of_mem hknown))) (by decide)
    · rw [mask_quotedLine indent (by decide)
        (fun c hc => isPlain_of_isLiteralChar ((h name hname).2 c hc)) (h name hname).1 (by decide)]
      exact yields_nil_quotedLine indent hbegins hword (hparts _ List.mem_cons_self)
        (yields_content_of_silent (silent_blanks hread _) (by decide)) (by decide) rfl (by decide)
  have hclosing : Yields isNameBorder (readOpening keyword) ['}', '\n'] [] :=
    hread.yields (by decide) rfl isNameBorder_lineEnd
  have hmask : mask ('\n' :: names.flatMap (repositoryCommand indent)) =
      '\n' :: names.flatMap fun name => mask (repositoryCommand indent name) := by
    rw [mask, maskFrom_code_cons (by decide), maskFrom_flatMap blank fun name hname =>
      (balanced_repositoryCommand indent (h name hname)).uncommented.endsInCode]
    rfl
  refine ⟨balanced_repositoryCommands indent h, ?_⟩
  rw [hmask]
  exact (yields_nil_lines hread isNameBorder_lineEnd hline).append hclosing

/-- In an item, only the block with its own keyword begins. -/
theorem yields_opening_groovyText_of_ne (indent : Nat) {keyword : String} {block : Item}
    (hkeyword : block.keyword? = some keyword) (h : item.Writable)
    (hne : item.keyword? ≠ some keyword) :
    Yields isNameBorder (readOpening keyword) (mask (item.groovyText indent)) [] := by
  have hword := isWord_of_keyword? hkeyword
  have hsuffix : ∀ keyword', item.keyword? = some keyword' →
      ¬keyword.toList <:+ keyword'.toList := fun keyword' hkeyword' =>
    not_suffix_of_keyword? hkeyword hkeyword' fun heq => hne (heq ▸ hkeyword')
  cases item with
  | plugins ids =>
      exact yields_blockText_of_ne hword isWord_plugins (hsuffix _ rfl)
        (flat_lines fun id hid => flat_pluginCommand indent (h id hid))
  | property name value =>
      have hbegins := beginsWith_readOpening keyword
      have hparts : ∀ keyword ∈ ["plugins", "repositories", "dependencies"],
          ∀ name ∈ propertyNames, avoids keyword ['{'] (assignmentFront name ++ ['\'']) = true := by
        decide
      rw [groovyText, propertyCommand,
        mask_quotedLine 0 (isCode_assignmentFront (isWord_propertyNames name h.1))
          (fun c hc => isPlain_of_isLiteralChar (h.2.2 c hc)) h.2.1 (by decide)]
      exact yields_nil_quotedLine 0 hbegins hword
        (hparts keyword (mem_of_keyword? hkeyword) name h.1)
        (yields_content_of_silent (silent_blanks (hbegins.needsWord hword) _) (by decide))
        (by decide) rfl (by decide)
  | repositories names =>
      exact (isBody_repositoryCommands indent hkeyword h).yields_blockText_of_ne hword
        isWord_repositories (hsuffix _ rfl)
  | dependencies items =>
      exact yields_blockText_of_ne hword isWord_dependencies (hsuffix _ rfl)
        (flat_statementLines .groovyCommand indent (writable_of_mem_map h))

end Item

/-! ## Repositories of a block -/

section Repository

variable {name repository : String}

/-- A repository is used by its name on the line that declares it so. -/
theorem yields_namedRepository_command (hname : name ∈ wellKnownRepositories)
    (h : IsLiteral repository) :
    Yields isNameBorder (readNamedRepository name) (repositoryCommand indent repository)
      (if repository = name then [()] else []) := by
  have hbegins := beginsWith_readNamedRepository name
  have hword := isWord_wellKnown name hname
  split
  · next heq =>
    rw [heq, repositoryCommand, if_pos hname]
    exact yields_namedRepository indent hword
  · next hne =>
    have hother : ∀ name ∈ wellKnownRepositories, ∀ known ∈ wellKnownRepositories, known ≠ name →
        avoids name ['(', '{'] (known.toList ++ ['(', ')', '\n']) = true := by decide
    have hfront : ∀ name ∈ wellKnownRepositories,
        avoids name ['(', '{'] (mavenFront ++ ['\'']) = true := by decide
    unfold repositoryCommand
    split
    · next hknown =>
      exact yields_nil_knownLine indent hbegins hword (hother name hname repository hknown hne)
        (by decide)
    · exact yields_nil_quotedLine indent hbegins hword (hfront name hname)
        (yields_content_of_silent (h.silent_content hbegins hword (by decide)) (by decide))
        (by decide) rfl (by decide)

theorem yields_mavenBlock_command (h : IsLiteral repository) :
    Yields isNameBorder readMavenBlock (repositoryCommand indent repository)
      (if repository ∈ wellKnownRepositories then [] else [repository.toList]) := by
  have hbegins := beginsWith_readMavenBlock
  have hparts : ∀ known ∈ wellKnownRepositories,
      avoids "maven" ['{'] (known.toList ++ ['(', ')', '\n']) = true := by decide
  unfold repositoryCommand
  split
  · next hknown =>
    exact yields_nil_knownLine indent hbegins isWord_maven (hparts repository hknown) (by decide)
  · exact yields_quotedLine indent (hbegins.needsWord isWord_maven) (readMavenBlock_append h)
      (by decide) rfl (by decide)

/-- No repository is declared by a call with its address. -/
theorem yields_mavenCall_command (h : IsLiteral repository) :
    Yields isNameBorder readMavenCall (repositoryCommand indent repository) [] := by
  have hbegins := beginsWith_readMavenCall
  have hparts : ∀ part ∈ repositoryParts, avoids "maven" ['('] part = true := by decide
  unfold repositoryCommand
  split
  · next hknown =>
    exact yields_nil_knownLine indent hbegins isWord_maven
      (hparts _ (List.mem_cons_of_mem _ (List.mem_cons_of_mem _ (List.mem_map_of_mem hknown))))
      (by decide)
  · exact yields_nil_quotedLine indent hbegins isWord_maven
      (hparts _ (List.mem_cons_of_mem _ List.mem_cons_self))
      (yields_content_of_silent (h.silent_content hbegins isWord_maven (by decide)) (by decide))
      (by decide) rfl (by decide)

end Repository

/-- The repositories in a script with a single block `repositories`. -/
theorem groovyRepositories_append {before after : List Char} {names : List String}
    (h : ∀ name ∈ names, IsLiteral name) (hnodup : names.Nodup)
    (hsurrounds : Surrounds "repositories" before after) :
    repositories (before ++
        blockText "repositories" ('\n' :: names.flatMap (repositoryCommand indent)) ++ after) =
      wellKnownRepositories.filter (fun name => name ∈ names) ++
        names.filter fun name => name ∉ wellKnownRepositories := by
  have hkeyword : (Item.repositories names).keyword? = some "repositories" := rfl
  have hbody := blockBody_append isWord_repositories hsurrounds
    (Item.isBody_repositoryCommands indent hkeyword h)
  have hmaven := beginsWith_readMavenBlock.needsWord isWord_maven
  refine repositories_eq hbody hnodup (fun name hname => ?_) ?_
  · have hread := (beginsWith_readNamedRepository name).needsWord (isWord_wellKnown name hname)
    exact (yields_lines hread isNameBorder_lineEnd fun repository hmem =>
      yields_namedRepository_command indent hname (h repository hmem)).findValues_eq rfl
  · have hblocks := (yields_lines hmaven isNameBorder_lineEnd fun repository hmem =>
      yields_mavenBlock_command indent (h repository hmem)).findValues_eq rfl
    have hcalls := (yields_nil_lines (beginsWith_readMavenCall.needsWord isWord_maven)
      isNameBorder_lineEnd fun repository hmem =>
        yields_mavenCall_command indent (h repository hmem)).findValues_eq rfl
    rw [hblocks, hcalls, List.append_nil]

end GradleWorkspace.BuildFile
