import Mathlib.Data.List.Nodup
import GradleWorkspace.Proofs.BuildFile.Declaration
import GradleWorkspace.Proofs.OrderedMap
import GradleWorkspace.Text.Fields

/-!
# Facts that were read are well formed

Whatever the text of a build file is, the facts that are read from it have a certain form.  The
graph of modules and the reports rely on it.

* `Dependency.WellFormed` and `BuildFacts.WellFormed` state the form.
* The theorems on readers say what form their values have: plugins, addresses, values of
  properties, dependencies.
* `parse_wellFormed` puts them together.
-/

namespace GradleWorkspace

open Script Text

/-! ## The form of facts -/

/-- A text without quotes that is not empty. -/
def IsUnquoted (text : String) : Prop := IsContent text.toList

/-- The configuration is a word.  The parts of a coordinate are not empty and have neither quotes
nor colons nor blanks, so that the coordinate can be taken apart again; a path is not empty and has
no quotes. -/
def Dependency.WellFormed : Dependency → Prop
  | .external configuration group artifact version =>
    IsWord configuration.toList ∧
    (∀ segment ∈ [group, artifact, version],
      segment.toList ≠ [] ∧
        ∀ c ∈ segment.toList, isQuote c = false ∧ c ≠ ':' ∧ isBlank c = false) ∧
    (fields (· == ':') (coordinate group artifact version).toList).map String.ofList =
      [group, artifact, version]
  | .project configuration path => IsWord configuration.toList ∧ IsUnquoted path

/-- Plugins and repositories are listed once, artifacts stand before modules, the properties are
known ones in a fixed order, and all texts are as they can stand in a build file. -/
structure BuildFacts.WellFormed (facts : BuildFacts) : Prop where
  nodup_plugins : facts.plugins.Nodup
  plugins : ∀ id ∈ facts.plugins, IsUnquoted id
  nodup_repositories : facts.repositories.Nodup
  repositories : ∀ name ∈ facts.repositories, IsUnquoted name
  dependencies : ∀ dependency ∈ facts.dependencies, dependency.WellFormed
  artifacts_first : ∃ artifacts modules, facts.dependencies = artifacts ++ modules ∧
    (∀ dependency ∈ artifacts, dependency.coordinate?.isSome) ∧
    ∀ dependency ∈ modules, dependency.projectPath?.isSome
  keys_properties : facts.properties.keys.Sublist BuildFile.propertyNames
  properties : ∀ value ∈ facts.properties.values, IsUnquoted value

theorem nodup_withoutRepeats (items : List String) : (withoutRepeats items).Nodup := by
  unfold withoutRepeats
  induction hlength : items.length using Nat.strong_induction_on generalizing items with
  | _ length ih =>
      cases items with
      | nil => exact List.nodup_nil
      | cons item rest =>
          have hshorter : (rest.filter fun other => !other == item).length < length := by
            have hfilter := List.length_filter_le (fun other => !other == item) rest
            rw [List.length_cons] at hlength
            omega
          rw [List.eraseDups_cons, List.nodup_cons]
          refine ⟨fun hmem => ?_, ih _ hshorter _ rfl⟩
          simp [List.mem_eraseDups] at hmem

theorem forall_mem_withoutRepeats {property : String → Prop} {items : List String}
    (h : ∀ item ∈ items, property item) : ∀ item ∈ withoutRepeats items, property item :=
  fun item hitem => h item (List.mem_eraseDups.1 hitem)

namespace BuildFile

theorem isUnquoted_of_literal {text content rest : List Char}
    (h : literal text = some (content, rest)) : IsUnquoted (String.ofList content) := by
  rw [IsUnquoted, String.toList_ofList]
  exact (of_literal h).1

/-! ## Plugins -/

theorem isUnquoted_of_pluginForm {dialect : Dialect} {form : Reader (List Char)}
    (hform : form ∈ pluginForms dialect) (text value rest : List Char)
    (h : form text = some (value, rest)) : IsUnquoted (String.ofList value) := by
  have hcall : ∀ name, call name literal text = some (value, rest) →
      IsUnquoted (String.ofList value) := by
    intro name hcall
    obtain ⟨_, _, _, _, _, hliteral⟩ := of_call hcall
    exact isUnquoted_of_literal hliteral
  cases dialect with
  | groovy =>
      simp only [pluginForms, List.mem_cons, List.not_mem_nil, or_false] at hform
      rcases hform with rfl | rfl
      · obtain ⟨_, -, h⟩ := Option.bind_eq_some_iff.1 h
        exact isUnquoted_of_literal h
      · obtain ⟨_, -, h⟩ := Option.bind_eq_some_iff.1 h
        obtain ⟨_, -, h⟩ := Option.bind_eq_some_iff.1 h
        obtain ⟨_, -, h⟩ := Option.bind_eq_some_iff.1 h
        obtain ⟨_, -, h⟩ := Option.bind_eq_some_iff.1 h
        exact isUnquoted_of_literal h
  | kotlin =>
      simp only [pluginForms, List.mem_cons, List.not_mem_nil, or_false] at hform
      rcases hform with rfl | rfl
      · exact hcall "id" h
      · exact hcall "kotlin" h

theorem isUnquoted_plugins (dialect : Dialect) (script : List Char) :
    ∀ id ∈ plugins dialect script, IsUnquoted id := by
  refine forall_mem_withoutRepeats fun id hid => ?_
  obtain ⟨form, hform, hid⟩ := List.mem_flatMap.1 hid
  obtain ⟨value, hvalue, rfl⟩ := List.mem_map.1 hid
  exact forall_mem_findValues (fun value => IsUnquoted (String.ofList value))
    (isUnquoted_of_pluginForm hform) isNameBorder script value hvalue

/-! ## Repositories -/

theorem isUnquoted_of_readUrl {text value rest : List Char}
    (h : readUrl text = some (value, rest)) : IsUnquoted (String.ofList value) := by
  obtain ⟨_, -, h⟩ := Option.bind_eq_some_iff.1 h
  exact isUnquoted_of_literal h

theorem isUnquoted_of_readUrlInBlock {previous : Option Char} {text value rest : List Char}
    (h : readUrlInBlock previous text = some (value, rest)) :
    IsUnquoted (String.ofList value) := by
  induction text generalizing previous with
  | nil => simp [readUrlInBlock] at h
  | cons c text ih =>
      rw [readUrlInBlock] at h
      split at h
      · next found hfound =>
        split at hfound
        · obtain rfl := Option.some.inj h
          exact isUnquoted_of_readUrl hfound
        · simp at hfound
      · split at h
        · simp at h
        · exact ih h

theorem isUnquoted_of_readMavenBlock (text value rest : List Char)
    (h : readMavenBlock text = some (value, rest)) : IsUnquoted (String.ofList value) := by
  obtain ⟨_, -, h⟩ := Option.bind_eq_some_iff.1 h
  obtain ⟨_, -, h⟩ := Option.bind_eq_some_iff.1 h
  exact isUnquoted_of_readUrlInBlock h

theorem isUnquoted_of_readMavenCall (text value rest : List Char)
    (h : readMavenCall text = some (value, rest)) : IsUnquoted (String.ofList value) := by
  obtain ⟨_, -, h⟩ := Option.bind_eq_some_iff.1 h
  obtain ⟨_, -, h⟩ := Option.bind_eq_some_iff.1 h
  exact isUnquoted_of_literal h

theorem isUnquoted_repositories (script : List Char) :
    ∀ name ∈ repositories script, IsUnquoted name := by
  have hknown : ∀ name ∈ wellKnownRepositories,
      name.toList ≠ [] ∧ ∀ c ∈ name.toList, isQuote c = false := by decide
  unfold repositories
  split
  · simp
  · next body _ =>
    refine forall_mem_withoutRepeats fun name hname => ?_
    rcases List.mem_append.1 hname with hnamed | haddress
    · exact hknown name (List.mem_filter.1 hnamed).1
    · obtain ⟨value, hvalue, rfl⟩ := List.mem_map.1 haddress
      rcases List.mem_append.1 hvalue with hblock | hcall
      · exact forall_mem_findValues (fun value => IsUnquoted (String.ofList value))
          isUnquoted_of_readMavenBlock isNameBorder body value hblock
      · exact forall_mem_findValues (fun value => IsUnquoted (String.ofList value))
          isUnquoted_of_readMavenCall isNameBorder body value hcall

/-! ## Properties -/

theorem isQuote_eq_false_of_isDecimalDigit {c : Char} (h : isDecimalDigit c = true) :
    isQuote c = false := isQuote_eq_false_of_class (by decide) h

/-- A number has digits, and perhaps the separator among them. -/
theorem isContent_of_readNumber {separator : Char} (hseparator : isQuote separator = false)
    {text number rest : List Char} (h : readNumber separator text = some (number, rest)) :
    IsContent number := by
  obtain ⟨⟨whole, unread⟩, hwhole, h⟩ := Option.bind_eq_some_iff.1 h
  have hdigits : ∀ {text value rest : List Char}, run isDecimalDigit text = some (value, rest) →
      ∀ c ∈ value, isQuote c = false := fun hrun c hc =>
    isQuote_eq_false_of_isDecimalDigit (forall_of_run hrun c hc)
  have hcontent : IsContent whole := ⟨(eq_append_of_run hwhole).2, hdigits hwhole⟩
  dsimp only at h
  cases unread with
  | nil =>
      obtain ⟨rfl, rfl⟩ := by simpa using h
      exact hcontent
  | cons c unread =>
      dsimp only at h
      split at h
      · split at h
        · next part tail hpart =>
          obtain ⟨rfl, rfl⟩ := by simpa using h
          refine ⟨by simp, List.forall_mem_append.2 ⟨hcontent.2, ?_⟩⟩
          exact List.forall_mem_cons.2 ⟨hseparator, hdigits hpart⟩
        · obtain ⟨rfl, rfl⟩ := by simpa using h
          exact hcontent
      · obtain ⟨rfl, rfl⟩ := by simpa using h
        exact hcontent

theorem isContent_of_readDecimal {text value rest : List Char}
    (h : readDecimal text = some (value, rest)) : IsContent value := by
  obtain ⟨⟨number, unread⟩, hnumber, h⟩ := Option.bind_eq_some_iff.1 h
  dsimp only at h
  split at h
  · obtain ⟨rfl, rfl⟩ := by simpa using h
    exact isContent_of_readNumber (by decide) hnumber
  · simp at h

theorem isContent_of_readJavaVersion {text value rest : List Char}
    (h : readJavaVersion text = some (value, rest)) : IsContent value := by
  obtain ⟨_, -, h⟩ := Option.bind_eq_some_iff.1 h
  obtain ⟨⟨number, unread⟩, hnumber, h⟩ := Option.bind_eq_some_iff.1 h
  dsimp only at h
  split at h
  · obtain ⟨rfl, rfl⟩ := by simpa using h
    obtain ⟨hne, hquotes⟩ := isContent_of_readNumber (by decide) hnumber
    refine ⟨by simpa using hne, fun c hc => ?_⟩
    obtain ⟨d, hd, rfl⟩ := List.mem_map.1 hc
    split
    · decide
    · exact hquotes d hd
  · simp at h

theorem isContent_of_readAssignment {name : String} {value : Reader (List Char)}
    (hvalue : value ∈ [literal, readJavaVersion, readDecimal]) (text found rest : List Char)
    (h : readAssignment name value text = some (found, rest)) : IsContent found := by
  obtain ⟨_, -, h⟩ := Option.bind_eq_some_iff.1 h
  obtain ⟨_, -, h⟩ := Option.bind_eq_some_iff.1 h
  simp only [List.mem_cons, List.not_mem_nil, or_false] at hvalue
  rcases hvalue with rfl | rfl | rfl
  · exact (of_literal h).1
  · exact isContent_of_readJavaVersion h
  · exact isContent_of_readDecimal h

theorem isContent_of_assigned? {name : String} {text value : List Char}
    (h : assigned? name text = some value) : IsContent value := by
  obtain ⟨form, hform, hhead⟩ := List.exists_of_findSome?_eq_some h
  exact forall_mem_findValues IsContent (isContent_of_readAssignment hform) isWordBorder text value
    (List.mem_of_mem_head? hhead)

theorem isUnquoted_of_property? {name value : String} {script : List Char}
    (h : property? name script = some value) : IsUnquoted value := by
  obtain ⟨content, hcontent, rfl⟩ := Option.map_eq_some_iff.1 h
  rw [IsUnquoted, String.toList_ofList]
  rcases Option.or_eq_some_iff.1 hcontent with htop | ⟨-, hall⟩
  · exact isContent_of_assigned? htop
  · exact isContent_of_assigned? hall

/-! ## Dependencies -/

theorem fields_coordinate {group artifact version : String}
    (h : ∀ segment ∈ [group, artifact, version], ':' ∉ segment.toList) :
    (fields (· == ':') (coordinate group artifact version).toList).map String.ofList =
      [group, artifact, version] := by
  have hshape : (coordinate group artifact version).toList =
      group.toList ++ ':' :: (artifact.toList ++ ':' :: version.toList) := by simp [coordinate]
  have hcolon : ∀ segment ∈ [group, artifact, version], ∀ c ∈ segment.toList,
      (c == ':') = false := by
    intro segment hsegment c hc
    have hne : c ≠ ':' := ne_of_mem_of_not_mem hc (h segment hsegment)
    simpa using hne
  rw [hshape, fields_append (hcolon group (by simp)) rfl,
    fields_append (hcolon artifact (by simp)) rfl, fields_eq_singleton (hcolon version (by simp))]
  simp

/-- A published artifact that was read. -/
theorem wellFormed_of_readExternal {dialect : Dialect} (text : List Char) (dependency : Dependency)
    (rest : List Char) (h : readExternal dialect text = some (dependency, rest)) :
    dependency.WellFormed ∧ dependency.coordinate?.isSome := by
  obtain ⟨word, opening, group, artifact, version, rfl, hword, -, hsegments, -⟩ :=
    of_readExternal h
  have hclass : ∀ segment ∈ [group, artifact, version], segment.toList ≠ [] ∧
      ∀ c ∈ segment.toList, isQuote c = false ∧ c ≠ ':' ∧ isBlank c = false := by
    intro segment hsegment
    obtain ⟨hne, hchars⟩ := hsegments segment hsegment
    refine ⟨hne, fun c hc => ?_⟩
    simpa [isSegmentChar, and_assoc] using hchars c hc
  refine ⟨⟨by simpa using hword, hclass, fields_coordinate fun segment hsegment hcolon => ?_⟩, rfl⟩
  exact ((hclass segment hsegment).2 ':' hcolon).2.1 rfl

/-- A module that was read. -/
theorem wellFormed_of_readProject {dialect : Dialect} (text : List Char) (dependency : Dependency)
    (rest : List Char) (h : readProject dialect text = some (dependency, rest)) :
    dependency.WellFormed ∧ dependency.projectPath?.isSome := by
  obtain ⟨word, path, before, rfl, hword, hpath, -, -⟩ := of_readProject h
  exact ⟨⟨by simpa using hword, by simpa [IsUnquoted] using hpath⟩, rfl⟩

theorem exists_dependencies_eq (dialect : Dialect) (script : List Char) :
    ∃ artifacts modules, dependencies dialect script = artifacts ++ modules ∧
      (∀ dependency ∈ artifacts, dependency.WellFormed ∧ dependency.coordinate?.isSome) ∧
      ∀ dependency ∈ modules, dependency.WellFormed ∧ dependency.projectPath?.isSome := by
  unfold dependencies
  split
  · exact ⟨[], [], rfl, by simp, by simp⟩
  · next body _ =>
    exact ⟨_, _, rfl,
      forall_mem_findValues _ wellFormed_of_readExternal isNameBorder body,
      forall_mem_findValues _ wellFormed_of_readProject isNameBorder body⟩

/-! ## All facts -/

theorem map_fst_filterMap (value? : String → Option String) (names : List String) :
    ((names.filterMap fun name => (value? name).map fun value => (name, value)).map Prod.fst) =
      names.filter fun name => (value? name).isSome := by
  induction names with
  | nil => rfl
  | cons name rest ih =>
      cases hvalue : value? name with
      | none => simpa [hvalue] using ih
      | some value => simpa [hvalue] using ih

/-- The facts that are read from a build file are well formed, whatever its text is. -/
theorem parse_wellFormed (dialect : Dialect) (text : String) : (parse dialect text).WellFormed := by
  let script := stripComments text.toList
  let outside := withoutBlockBody "dependencies" script
  obtain ⟨artifacts, modules, hdependencies, hartifacts, hmodules⟩ :=
    exists_dependencies_eq dialect script
  have hkeys := map_fst_filterMap (fun name => property? name outside) propertyNames
  have hentries : (parse dialect text).properties.entries = propertyNames.filterMap fun name =>
      (property? name outside).map fun value => (name, value) := by
    refine OrderedMap.entries_ofList ?_
    rw [hkeys]
    exact List.Nodup.filter _ (by decide)
  exact
    { nodup_plugins := nodup_withoutRepeats _
      plugins := isUnquoted_plugins dialect outside
      nodup_repositories := by
        change (repositories script).Nodup
        unfold repositories
        split
        · exact List.nodup_nil
        · exact nodup_withoutRepeats _
      repositories := isUnquoted_repositories script
      dependencies := by
        change ∀ dependency ∈ dependencies dialect script, dependency.WellFormed
        rw [hdependencies]
        exact List.forall_mem_append.2 ⟨fun dependency h => (hartifacts dependency h).1,
          fun dependency h => (hmodules dependency h).1⟩
      artifacts_first := ⟨artifacts, modules, hdependencies,
        fun dependency h => (hartifacts dependency h).2,
        fun dependency h => (hmodules dependency h).2⟩
      keys_properties := by
        rw [OrderedMap.keys, hentries, hkeys]
        exact List.filter_sublist
      properties := by
        intro value hvalue
        rw [OrderedMap.values, hentries] at hvalue
        obtain ⟨entry, hentry, rfl⟩ := List.mem_map.1 hvalue
        obtain ⟨name, -, hproperty⟩ := List.mem_filterMap.1 hentry
        obtain ⟨found, hfound, rfl⟩ := Option.map_eq_some_iff.1 hproperty
        exact isUnquoted_of_property? hfound }

end BuildFile

end GradleWorkspace
