import GradleWorkspace.BuildFile.Parser
import GradleWorkspace.Proofs.BuildFile.Item
import GradleWorkspace.Proofs.OrderedMap

/-!
# Reading what was written

Facts about a build are written as a build file in the Kotlin dialect and read again.

* `BuildFacts.items` are the items that state facts, and `States` says that a file consists of
  these items in some order.
* Reading finds in each item just what it states, and puts together what the items state.  The
  order of the items does not matter, because no reader mistakes one item for another.
* `parse_items` is the round trip: the facts come back, arranged in the order of extraction.
-/

namespace GradleWorkspace

open Script Text BuildFile

namespace BuildFacts

/-- The items that state facts. -/
def items (facts : BuildFacts) : List Item :=
  [.plugins facts.plugins, .repositories facts.repositories, .dependencies facts.dependencies] ++
    facts.properties.entries.map fun (name, value) => .property name value

/-- Facts that can be written: their strings are of the right characters, and no plugin and no
repository is listed twice. -/
structure Writable (facts : BuildFacts) : Prop where
  items : ∀ item ∈ facts.items, item.Writable
  nodup_plugins : facts.plugins.Nodup
  nodup_repositories : facts.repositories.Nodup

/-- Facts in the order in which they are extracted: the well-known repositories before the other
ones, the published artifacts before the modules, and the properties in a fixed order. -/
def arranged (facts : BuildFacts) : BuildFacts where
  plugins := facts.plugins
  dependencies :=
    facts.dependencies.filter (fun dependency => dependency.coordinate?.isSome) ++
      facts.dependencies.filter fun dependency => dependency.projectPath?.isSome
  repositories :=
    wellKnownRepositories.filter (fun name => name ∈ facts.repositories) ++
      facts.repositories.filter fun name => name ∉ wellKnownRepositories
  properties := .ofList <| propertyNames.filterMap fun name =>
    (facts.properties.get? name).map fun value => (name, value)

end BuildFacts

namespace BuildFile

/-- Items state facts if they are those of the facts in some order, where blocks without
statements may be missing. -/
structure States (items : List Item) (facts : BuildFacts) : Prop where
  nodup : items.Nodup
  mem_items : ∀ item ∈ items, item ∈ facts.items
  complete : ∀ item ∈ facts.items, item ∈ items ∨ item.isEmpty = true

/-! ## Plugins and properties of a file -/

variable (indent : Nat)

section File

variable {items : List Item}

theorem plugins_outside (h : ∀ item ∈ items, item.Writable) :
    plugins .kotlin (items.flatMap (Item.outside indent)) =
      withoutRepeats ((items.flatMap Item.pluginIds).map String.ofList) := by
  have hid : Yields isNameBorder (call "id" literal) (items.flatMap (Item.outside indent)) _ :=
    Yields.flatMap fun item hitem => Item.yields_pluginForm (by simp) (h item hitem)
  have hkotlin : Yields isNameBorder (call "kotlin" literal)
      (items.flatMap (Item.outside indent)) _ :=
    Yields.flatMap fun item hitem => Item.yields_pluginForm (by simp) (h item hitem)
  have hnone : (items.flatMap fun item => if "kotlin" = "id" then item.pluginIds else []) = [] :=
    List.flatMap_eq_nil_iff.2 fun _ _ => if_neg (by decide)
  rw [hnone] at hkotlin
  simp [plugins, pluginForms, hid.findValues_eq rfl, hkotlin.findValues_eq rfl]

theorem assigned?_eq_head? {name : String} {text : List Char} {values : List (List Char)}
    (hliteral : Yields isWordBorder (readAssignment name literal) text values)
    (hnone : values = [] → ∀ value, Yields isWordBorder (readAssignment name value) text []) :
    assigned? name text = values.head? := by
  cases values with
  | nil =>
      have hvalues := fun value => (hnone rfl value).findValues_eq rfl
      simp [assigned?, hvalues]
  | cons first rest => simp [assigned?, hliteral.findValues_eq rfl]

/-- A property has the first value that an item gives to it, if the readers of assignments find in
each item what it gives, outside all braces as well as inside. -/
theorem property?_flatMap {outside shown : Item → List Char} {name : String}
    (hcode : ∀ item ∈ items, EndsInCode (outside item))
    (houtlines : ∀ item ∈ items, Outlines (outside item) (shown item))
    (h : ∀ item ∈ items, ∀ value, value = literal ∨ item.valuesOf name = [] →
      Yields isWordBorder (readAssignment name value) (outside item) (item.valuesOf name) ∧
        Yields isWordBorder (readAssignment name value) (shown item) (item.valuesOf name)) :
    property? name (items.flatMap outside) =
      (items.flatMap (Item.valuesOf name)).head?.map String.ofList := by
  have hnone : items.flatMap (Item.valuesOf name) = [] →
      ∀ item ∈ items, item.valuesOf name = [] := List.flatMap_eq_nil_iff.1
  have hshown : assigned? name (items.flatMap shown) =
      (items.flatMap (Item.valuesOf name)).head? := by
    refine assigned?_eq_head? (Yields.flatMap fun item hitem =>
      (h item hitem literal (Or.inl rfl)).2) fun hempty value => ?_
    rw [← hempty]
    exact Yields.flatMap fun item hitem =>
      (h item hitem value (Or.inr (hnone hempty item hitem))).2
  have houtside : assigned? name (items.flatMap outside) =
      (items.flatMap (Item.valuesOf name)).head? := by
    refine assigned?_eq_head? (Yields.flatMap fun item hitem =>
      (h item hitem literal (Or.inl rfl)).1) fun hempty value => ?_
    rw [← hempty]
    exact Yields.flatMap fun item hitem =>
      (h item hitem value (Or.inr (hnone hempty item hitem))).1
  rw [property?, topLevel_flatMap hcode houtlines, hshown, houtside, Option.or_self]

theorem property?_outside {name : String} (hname : name ∈ propertyNames)
    (h : ∀ item ∈ items, item.Writable) :
    property? name (items.flatMap (Item.outside indent)) =
      (items.flatMap (Item.valuesOf name)).head?.map String.ofList :=
  property?_flatMap (fun item hitem => (Item.uncommented_outside (h item hitem)).endsInCode)
    (fun item hitem => Item.outlines_outside (h item hitem)) fun item hitem _ hvalue =>
      ⟨Item.yields_assignment_outside hname (h item hitem) hvalue,
        Item.yields_assignment_shown hname (h item hitem) hvalue⟩

/-! ## The whole file -/

/-- If one item only has values, these are all. -/
theorem flatMap_eq_of_forall_ne {α β : Type} {items : List α} (values : α → List β) (item : α)
    (hnodup : items.Nodup) (h : ∀ other ∈ items, other ≠ item → values other = [])
    (hitem : item ∈ items ∨ values item = []) : items.flatMap values = values item := by
  by_cases hmem : item ∈ items
  · obtain ⟨before, after, rfl⟩ := List.append_of_mem hmem
    have hnotMem := (List.nodup_cons.1 (List.nodup_middle.1 hnodup)).1
    have hbefore : before.flatMap values = [] := List.flatMap_eq_nil_iff.2 fun other hother =>
      h other (List.mem_append_left _ hother) fun heq =>
        hnotMem (heq ▸ List.mem_append_left _ hother)
    have hafter : after.flatMap values = [] := List.flatMap_eq_nil_iff.2 fun other hother =>
      h other (List.mem_append_right _ (List.mem_cons_of_mem _ hother)) fun heq =>
        hnotMem (heq ▸ List.mem_append_right _ hother)
    rw [List.flatMap_append, List.flatMap_cons, hbefore, hafter, List.nil_append, List.append_nil]
  · rw [hitem.resolve_left hmem, List.flatMap_eq_nil_iff]
    exact fun other hother => h other hother (ne_of_mem_of_not_mem hother hmem)

variable {facts : BuildFacts}

theorem eq_of_keyword?_eq {item other : Item} {keyword : String} (hitem : item ∈ facts.items)
    (hother : other ∈ facts.items) (hkeyword : item.keyword? = some keyword)
    (hkeyword' : other.keyword? = some keyword) : item = other := by
  have hsame := hkeyword.trans hkeyword'.symm
  simp only [BuildFacts.items, List.mem_append, List.mem_cons, List.not_mem_nil, or_false,
    List.mem_map] at hitem hother
  rcases hitem with (rfl | rfl | rfl) | ⟨_, -, rfl⟩ <;>
    rcases hother with (rfl | rfl | rfl) | ⟨_, -, rfl⟩ <;>
      first
      | rfl
      | simp [Item.keyword?] at hsame hkeyword

/-- A block of the facts stands in the file at one place, or it is empty and missing. -/
theorem States.exists_append_or_isEmpty (h : States items facts) {item : Item} {keyword : String}
    (hitem : item ∈ facts.items) (hkeyword : item.keyword? = some keyword) :
    (∃ before after, items = before ++ item :: after ∧
      ∀ other ∈ before ++ after, other.keyword? ≠ some keyword) ∨
    (item.isEmpty = true ∧ ∀ other ∈ items, other.keyword? ≠ some keyword) := by
  by_cases hmem : item ∈ items
  · obtain ⟨before, after, rfl⟩ := List.append_of_mem hmem
    refine Or.inl ⟨before, after, rfl, fun other hother hsame => ?_⟩
    have hall : other ∈ before ++ item :: after := by
      rcases List.mem_append.1 hother with hbefore | hafter
      · exact List.mem_append_left _ hbefore
      · exact List.mem_append_right _ (List.mem_cons_of_mem _ hafter)
    obtain rfl := eq_of_keyword?_eq (h.mem_items other hall) hitem hsame hkeyword
    have hnodup := (List.nodup_middle.1 h.nodup)
    exact (List.nodup_cons.1 hnodup).1 hother
  · refine Or.inr ⟨(h.complete item hitem).resolve_left hmem, fun other hother hsame => hmem ?_⟩
    obtain rfl := eq_of_keyword?_eq (h.mem_items other hother) hitem hsame hkeyword
    exact hother

/-- All items of the facts, in any order, state them. -/
theorem States.of_perm (h : items.Perm facts.items) : States items facts where
  nodup := by
    have hproperties : (facts.properties.entries.map fun (name, value) =>
        Item.property name value).Nodup := by
      refine List.Nodup.map ?_ (List.Nodup.of_map _ facts.properties.nodup_keys)
      rintro ⟨name, value⟩ ⟨name', value'⟩ heq
      simpa using heq
    refine h.nodup_iff.2
      (List.nodup_append'.2 ⟨by simp, hproperties, fun item hblock hproperty => ?_⟩)
    obtain ⟨entry, -, rfl⟩ := List.mem_map.1 hproperty
    simp at hblock
  mem_items _ hitem := h.mem_iff.1 hitem
  complete _ hitem := Or.inl (h.mem_iff.2 hitem)

/-- The texts of items stand side by side: each of them leaves the reading outside comments and
strings, and a keyword begins only the block that it is for. -/
structure Separates (text : Item → List Char) (items : List Item) : Prop where
  uncommented : ∀ item ∈ items, Uncommented (text item)
  yields_opening : ∀ item ∈ items, ∀ (block : Item) (keyword : String),
    block.keyword? = some keyword → item.keyword? ≠ some keyword →
      Yields isNameBorder (readOpening keyword) (mask (text item)) []

theorem separates_text (h : ∀ item ∈ items, item.Writable) :
    Separates (Item.text indent) items where
  uncommented item hitem := Item.uncommented_text indent (h item hitem)
  yields_opening item hitem _ _ hkeyword hne :=
    Item.yields_opening_of_ne indent hkeyword (h item hitem) hne

section Separates

variable {text : Item → List Char}

/-- In a file without a block of a keyword, no such block begins. -/
theorem Separates.yields_nil (h : Separates text items) (block : Item) {keyword : String}
    (hkeyword : block.keyword? = some keyword) {part : List Item} (hpart : part ⊆ items)
    (hne : ∀ item ∈ part, item.keyword? ≠ some keyword) :
    Yields isNameBorder (readOpening keyword) (mask (part.flatMap text)) [] := by
  rw [mask, maskFrom_flatMap blank fun item hitem => (h.uncommented item (hpart hitem)).endsInCode]
  have hnone : Yields isNameBorder (readOpening keyword)
      (part.flatMap fun item => mask (text item)) (part.flatMap fun _ => []) :=
    Yields.flatMap fun item hitem =>
      h.yields_opening item (hpart hitem) block keyword hkeyword (hne item hitem)
  rwa [List.flatMap_eq_nil_iff.2 fun _ _ => rfl] at hnone

/-- A block of the facts stands in the file with no other block of its keyword around it, or it is
empty and no block of its keyword is found. -/
theorem States.surrounds_or_findBlock_eq_none (hitems : States items facts)
    (h : Separates text items) {block : Item} {keyword : String} (hblock : block ∈ facts.items)
    (hkeyword : block.keyword? = some keyword) :
    (∃ before after, items = before ++ block :: after ∧
      (∀ other ∈ before ++ after, other.keyword? ≠ some keyword) ∧
        Surrounds keyword (before.flatMap text) (after.flatMap text)) ∨
    (block.isEmpty = true ∧ (∀ other ∈ items, other.keyword? ≠ some keyword) ∧
      findBlock keyword (items.flatMap text) = none) := by
  rcases hitems.exists_append_or_isEmpty hblock hkeyword with
    ⟨before, after, rfl, hne⟩ | ⟨hempty, hne⟩
  · have hbefore : before ⊆ before ++ block :: after := List.subset_append_left _ _
    have hafter : after ⊆ before ++ block :: after := fun item hitem => by simp [hitem]
    refine Or.inl ⟨before, after, rfl, hne, ?_, ?_, ?_⟩
    · exact (uncommented_flatMap fun item hitem => h.uncommented item (hbefore hitem)).endsInCode
    · exact h.yields_nil block hkeyword hbefore fun item hitem =>
        hne item (List.mem_append_left _ hitem)
    · exact h.yields_nil block hkeyword hafter fun item hitem =>
        hne item (List.mem_append_right _ hitem)
  · exact Or.inr ⟨hempty, hne,
      findBlock_eq_none (h.yields_nil block hkeyword (List.Subset.refl _) hne)⟩

end Separates

/-- The statements of dependencies are read as the dependencies that they declare. -/
theorem filterMap_external?_declaring {items : List Dependency}
    (h : ∀ dependency ∈ items, IsWritable dependency) :
    (items.map declaring).filterMap Statement.external? =
      items.filter fun dependency => dependency.coordinate?.isSome := by
  rw [List.filterMap_map, ← List.filterMap_eq_filter]
  refine List.filterMap_congr fun dependency hmem => ?_
  cases dependency with
  | external configuration group artifact version =>
      have hsegment : ∀ segment ∈ [group, artifact, version], IsSegment segment := by
        intro segment hsegment
        obtain ⟨hliteral, hcolon⟩ := (h _ hmem).2 segment hsegment
        refine ⟨hliteral.1, fun c hc => ?_⟩
        have hne : c ≠ ':' := ne_of_mem_of_not_mem hc hcolon
        simpa using hne
      have hcoordinate := coordinateIn?_eq_some_iff.2 ⟨rfl, hsegment group (by simp),
        hsegment artifact (by simp), hsegment version (by simp)⟩
      simp [declaring, Statement.external?, hcoordinate, Dependency.coordinate?, Option.guard]
  | project configuration path =>
      simp [declaring, Statement.external?, Dependency.coordinate?, Option.guard]

theorem filterMap_project?_declaring (items : List Dependency) :
    (items.map declaring).filterMap Statement.project? =
      items.filter fun dependency => dependency.projectPath?.isSome := by
  rw [List.filterMap_map, ← List.filterMap_eq_filter]
  refine List.filterMap_congr fun dependency _ => ?_
  cases dependency <;>
    simp [declaring, Statement.project?, Dependency.projectPath?, Option.guard]

theorem States.writable (hitems : States items facts) (hfacts : facts.Writable) :
    ∀ item ∈ items, item.Writable :=
  fun item hitem => hfacts.items item (hitems.mem_items item hitem)

section Blocks

variable {text outside : Item → List Char} (form : Form)

theorem dependencies_flatMap (hfacts : facts.Writable) (hitems : States items facts)
    (h : Separates text items)
    (htext : text (.dependencies facts.dependencies) = blockText "dependencies"
      (statementLines form indent (facts.dependencies.map declaring)))
    (hproject : form.dialect = .groovy → ∀ dependency ∈ facts.dependencies,
      ¬"project".toList <:+ dependency.configuration.toList) :
    dependencies form.dialect (items.flatMap text) = facts.arranged.dependencies := by
  have hmem : Item.dependencies facts.dependencies ∈ facts.items := by simp [BuildFacts.items]
  have hwritable : ∀ dependency ∈ facts.dependencies, IsWritable dependency :=
    hfacts.items _ hmem
  rw [BuildFacts.arranged]
  rcases hitems.surrounds_or_findBlock_eq_none h hmem rfl with
    ⟨before, after, rfl, -, hsurrounds⟩ | ⟨hempty, -, hnone⟩
  · have hdependencies := dependencies_append form indent (writable_of_mem_map hwritable)
      (fun hdialect statement hstatement => by
        obtain ⟨dependency, hdependency, rfl⟩ := List.mem_map.1 hstatement
        have hends := hproject hdialect dependency hdependency
        cases dependency <;> exact hends) hsurrounds
    rw [List.flatMap_append, List.flatMap_cons, ← List.append_assoc, htext]
    rw [filterMap_external?_declaring hwritable, filterMap_project?_declaring] at hdependencies
    exact hdependencies
  · have hnil : facts.dependencies = [] := by simpa [Item.isEmpty] using hempty
    simp [dependencies, blockBody, hnone, hnil]

theorem repositories_flatMap (hitems : States items facts) (h : Separates text items)
    (htext : ∀ before after, Surrounds "repositories" before after →
      repositories (before ++ text (.repositories facts.repositories) ++ after) =
        facts.arranged.repositories) :
    repositories (items.flatMap text) = facts.arranged.repositories := by
  have hmem : Item.repositories facts.repositories ∈ facts.items := by simp [BuildFacts.items]
  rcases hitems.surrounds_or_findBlock_eq_none h hmem rfl with
    ⟨before, after, rfl, -, hsurrounds⟩ | ⟨hempty, -, hnone⟩
  · rw [List.flatMap_append, List.flatMap_cons, ← List.append_assoc]
    exact htext _ _ hsurrounds
  · have hnil : facts.repositories = [] := by simpa [Item.isEmpty] using hempty
    simp [BuildFacts.arranged, repositories, blockBody, hnone, hnil]

theorem withoutBlockBody_flatMap (hfacts : facts.Writable) (hitems : States items facts)
    (h : Separates text items)
    (htext : text (.dependencies facts.dependencies) = blockText "dependencies"
      (statementLines form indent (facts.dependencies.map declaring)))
    (hblock : outside (.dependencies facts.dependencies) = blockText "dependencies" [])
    (houtside : ∀ item, item.keyword? ≠ some "dependencies" → text item = outside item) :
    withoutBlockBody "dependencies" (items.flatMap text) = items.flatMap outside := by
  have hmem : Item.dependencies facts.dependencies ∈ facts.items := by simp [BuildFacts.items]
  have hsame : ∀ others : List Item, (∀ item ∈ others, item.keyword? ≠ some "dependencies") →
      others.flatMap text = others.flatMap outside := fun others hothers =>
    List.flatMap_congr fun item hitem => houtside item (hothers item hitem)
  rcases hitems.surrounds_or_findBlock_eq_none h hmem rfl with
    ⟨before, after, rfl, hne, hsurrounds⟩ | ⟨-, hne, hnone⟩
  · have hbody := withoutBlockBody_append isWord_dependencies hsurrounds
      (flat_statementLines form indent (writable_of_mem_map (hfacts.items _ hmem)))
    rw [List.flatMap_append, List.flatMap_cons, ← List.append_assoc, List.flatMap_append,
      List.flatMap_cons, ← List.append_assoc, htext, hblock,
      ← hsame before fun item hitem => hne item (List.mem_append_left _ hitem),
      ← hsame after fun item hitem => hne item (List.mem_append_right _ hitem)]
    exact hbody
  · rw [withoutBlockBody, hnone]
    exact hsame items hne

end Blocks

theorem dependencies_items (hfacts : facts.Writable) (hitems : States items facts) :
    dependencies .kotlin (items.flatMap (Item.text indent)) = facts.arranged.dependencies :=
  dependencies_flatMap indent .kotlinCall hfacts hitems
    (separates_text indent (hitems.writable hfacts)) rfl (by simp [Form.dialect])

theorem repositories_items (hfacts : facts.Writable) (hitems : States items facts) :
    repositories (items.flatMap (Item.text indent)) = facts.arranged.repositories := by
  have hwritable : ∀ name ∈ facts.repositories, IsLiteral name :=
    hfacts.items (.repositories facts.repositories) (by simp [BuildFacts.items])
  exact repositories_flatMap hitems (separates_text indent (hitems.writable hfacts))
    fun _ _ => repositories_append indent hwritable hfacts.nodup_repositories

theorem withoutBlockBody_items (hfacts : facts.Writable) (hitems : States items facts) :
    withoutBlockBody "dependencies" (items.flatMap (Item.text indent)) =
      items.flatMap (Item.outside indent) := by
  refine withoutBlockBody_flatMap indent .kotlinCall hfacts hitems
    (separates_text indent (hitems.writable hfacts)) rfl rfl fun item hitem => ?_
  cases item with
  | dependencies items => exact absurd rfl hitem
  | plugins ids => rfl
  | property name value => rfl
  | repositories names => rfl

theorem pluginIds_items (hitems : States items facts) :
    items.flatMap Item.pluginIds = facts.plugins.map String.toList := by
  have hmem : Item.plugins facts.plugins ∈ facts.items := by simp [BuildFacts.items]
  refine flatMap_eq_of_forall_ne Item.pluginIds (.plugins facts.plugins) hitems.nodup
    (fun other hother hne => ?_) ?_
  · cases other with
    | plugins ids =>
        exact absurd (eq_of_keyword?_eq (hitems.mem_items _ hother) hmem rfl rfl) hne
    | property name value => rfl
    | repositories names => rfl
    | dependencies items => rfl
  · refine (hitems.complete _ hmem).imp_right fun hempty => ?_
    have hnil : facts.plugins = [] := by simpa [Item.isEmpty] using hempty
    simp [Item.pluginIds, hnil]

/-- The values of a property in the file are the one that it has in the facts. -/
theorem valuesOf_items (hitems : States items facts) (name : String) :
    (items.flatMap (Item.valuesOf name)).head?.map String.ofList = facts.properties.get? name := by
  have hentry : ∀ {value}, Item.property name value ∈ facts.items ↔
      facts.properties.get? name = some value := by
    intro value
    rw [OrderedMap.get?_eq_some_iff]
    simp [BuildFacts.items]
  cases hvalue : facts.properties.get? name with
  | none =>
      have hnone : items.flatMap (Item.valuesOf name) = [] := by
        refine List.flatMap_eq_nil_iff.2 fun item hitem => ?_
        cases item with
        | property other text =>
            refine if_neg ?_
            rintro rfl
            have hsome := hentry.1 (hitems.mem_items _ hitem)
            simp [hvalue] at hsome
        | plugins ids => rfl
        | repositories names => rfl
        | dependencies items => rfl
      rw [hnone]
      rfl
  | some value =>
      have hmem : Item.property name value ∈ facts.items := hentry.2 hvalue
      have hvalues := flatMap_eq_of_forall_ne (Item.valuesOf name) (.property name value)
        hitems.nodup (fun other hother hne => ?_)
        ((hitems.complete _ hmem).imp_right (by simp [Item.isEmpty]))
      · rw [hvalues]
        simp [Item.valuesOf]
      · cases other with
        | property other text =>
            refine if_neg ?_
            rintro rfl
            have hsome := hentry.1 (hitems.mem_items _ hother)
            rw [hvalue, Option.some_inj] at hsome
            exact hne (by rw [hsome])
        | plugins ids => rfl
        | repositories names => rfl
        | dependencies items => rfl

/-- Facts that are written as a build file, item by item in any order, are read back from it. -/
theorem parse_items (hfacts : facts.Writable) (hitems : States items facts) :
    parse .kotlin (String.ofList (items.flatMap (Item.text indent))) = facts.arranged := by
  have hwritable := hitems.writable hfacts
  have hscript : stripComments (items.flatMap (Item.text indent)) =
      items.flatMap (Item.text indent) :=
    (uncommented_flatMap fun item hitem =>
      Item.uncommented_text indent (hwritable item hitem)).stripComments_eq
  have hplugins : plugins .kotlin (items.flatMap (Item.outside indent)) = facts.plugins := by
    rw [plugins_outside indent hwritable, pluginIds_items hitems, List.map_map]
    simpa [Function.comp_def] using withoutRepeats_of_nodup hfacts.nodup_plugins
  have hproperties : (propertyNames.filterMap fun name =>
      (property? name (items.flatMap (Item.outside indent))).map fun value => (name, value)) =
        propertyNames.filterMap fun name =>
          (facts.properties.get? name).map fun value => (name, value) := by
    refine List.filterMap_congr fun name hname => ?_
    rw [property?_outside indent hname hwritable, valuesOf_items hitems]
  rw [parse, String.toList_ofList, hscript]
  simp only [withoutBlockBody_items indent hfacts hitems, hplugins, hproperties,
    dependencies_items indent hfacts hitems, repositories_items indent hfacts hitems]
  rfl

end File

/-- Facts with something of each kind, and with well-known repositories among the others. -/
def mixedFacts : BuildFacts where
  plugins := ["java-library", "com.acme.conventions"]
  dependencies := [.project "api" ":libs:core",
    .external "implementation" "org.slf4j" "slf4j-api" "2.0",
    .project "testImplementation" ":libs:testing"]
  repositories := ["https://repo.acme.com/maven", "google", "mavenCentral"]
  properties :=
    { entries := [("version", "1.0-rc"), ("group", "com.acme")], nodup_keys := by decide }

/-- The items of `mixedFacts` in another order. -/
def mixedItems : List Item :=
  [.dependencies mixedFacts.dependencies, .property "version" "1.0-rc",
    .repositories mixedFacts.repositories, .plugins mixedFacts.plugins,
    .property "group" "com.acme"]

theorem parse_mixedItems :
    (mixedFacts.Writable ∧ States mixedItems mixedFacts) ∧
    parse .kotlin (String.ofList (mixedItems.flatMap (Item.text 4))) =
      { plugins := ["java-library", "com.acme.conventions"]
        dependencies := [.external "implementation" "org.slf4j" "slf4j-api" "2.0",
          .project "api" ":libs:core", .project "testImplementation" ":libs:testing"]
        repositories := ["mavenCentral", "google", "https://repo.acme.com/maven"]
        properties := .ofList [("group", "com.acme"), ("version", "1.0-rc")] } := by
  have hfacts : mixedFacts.Writable := ⟨by decide, by decide, by decide⟩
  have hitems : States mixedItems mixedFacts := .of_perm (by decide)
  exact ⟨⟨hfacts, hitems⟩, (parse_items 4 hfacts hitems).trans (by decide)⟩

end BuildFile

end GradleWorkspace
