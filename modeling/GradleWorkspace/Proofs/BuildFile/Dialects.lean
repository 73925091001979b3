import GradleWorkspace.Proofs.BuildFile.GroovyItem
import GradleWorkspace.Proofs.BuildFile.RoundTrip

/-!
# The same facts in two dialects

Facts about a build are written as a build file in the Groovy dialect and as one in the Kotlin
dialect.  The dialect is a matter of the surface only: from both files the same facts are read.

* `parse_eq_arranged` puts together what is read of a file of items, whatever their texts are.
* `parse_groovy_eq_parse_kotlin` compares the two dialects.  It asks that no value of a property
  and no address of a repository ends in the word `id`.
* `groovy_reads_between_strings` shows why.  In Groovy, the parenthesis after `id` may be missing,
  and the closing quote of a string that ends in `id` is taken for an opening one.
-/

namespace GradleWorkspace

open Script Text

namespace BuildFile

variable (indent : Nat) {items : List Item} {facts : BuildFacts}

/-! ## A file in either dialect -/

section Parse

variable {dialect : Dialect} {text outside : Item → List Char}

theorem withoutRepeats_pluginIds (hfacts : facts.Writable) (hitems : States items facts) :
    withoutRepeats ((items.flatMap Item.pluginIds).map String.ofList) = facts.plugins := by
  rw [pluginIds_items hitems, List.map_map]
  simpa [Function.comp_def] using withoutRepeats_of_nodup hfacts.nodup_plugins

/-- Facts are read from a file of items, if the readers find in the file what the items state. -/
theorem parse_eq_arranged (hfacts : facts.Writable) (hitems : States items facts)
    (h : Separates text items)
    (hwithout : withoutBlockBody "dependencies" (items.flatMap text) = items.flatMap outside)
    (hplugins : plugins dialect (items.flatMap outside) =
      withoutRepeats ((items.flatMap Item.pluginIds).map String.ofList))
    (hproperties : ∀ name ∈ propertyNames, property? name (items.flatMap outside) =
      (items.flatMap (Item.valuesOf name)).head?.map String.ofList)
    (hdependencies : dependencies dialect (items.flatMap text) = facts.arranged.dependencies)
    (hrepositories : repositories (items.flatMap text) = facts.arranged.repositories) :
    parse dialect (String.ofList (items.flatMap text)) = facts.arranged := by
  have hscript : stripComments (items.flatMap text) = items.flatMap text :=
    (uncommented_flatMap h.uncommented).stripComments_eq
  have hentries : (propertyNames.filterMap fun name =>
      (property? name (items.flatMap outside)).map fun value => (name, value)) =
        propertyNames.filterMap fun name =>
          (facts.properties.get? name).map fun value => (name, value) :=
    List.filterMap_congr fun name hname => by rw [hproperties name hname, valuesOf_items hitems]
  rw [parse, String.toList_ofList, hscript]
  simp only [hwithout, hplugins, withoutRepeats_pluginIds hfacts hitems, hentries, hdependencies,
    hrepositories]
  rfl

end Parse

/-! ## Groovy -/

section Groovy

theorem separates_groovyText (h : ∀ item ∈ items, item.Writable) :
    Separates (Item.groovyText indent) items where
  uncommented item hitem := Item.uncommented_groovyText (h item hitem)
  yields_opening item hitem _ _ hkeyword hne :=
    Item.yields_opening_groovyText_of_ne indent hkeyword (h item hitem) hne

theorem plugins_groovyOutside (h : ∀ item ∈ items, item.Writable)
    (hitems : ∀ item ∈ items, item.Unambiguous) :
    plugins .groovy (items.flatMap (Item.groovyOutside indent)) =
      withoutRepeats ((items.flatMap Item.pluginIds).map String.ofList) := by
  have hcommands : Yields isNameBorder readPluginCommand
      (items.flatMap (Item.groovyOutside indent)) _ :=
    Yields.flatMap fun item hitem => Item.yields_pluginCommand (h item hitem) (hitems item hitem)
  have happlications : Yields isNameBorder readPluginApplication
      (items.flatMap (Item.groovyOutside indent)) (items.flatMap fun _ => []) :=
    Yields.flatMap fun item hitem => Item.yields_pluginApplication (h item hitem)
  rw [List.flatMap_eq_nil_iff.2 fun _ _ => rfl] at happlications
  simp [plugins, pluginForms, hcommands.findValues_eq rfl, happlications.findValues_eq rfl]

theorem property?_groovyOutside {name : String} (hname : name ∈ propertyNames)
    (h : ∀ item ∈ items, item.Writable) :
    property? name (items.flatMap (Item.groovyOutside indent)) =
      (items.flatMap (Item.valuesOf name)).head?.map String.ofList :=
  property?_flatMap (fun item hitem => (Item.uncommented_groovyOutside (h item hitem)).endsInCode)
    (fun item hitem => Item.outlines_groovyOutside (h item hitem)) fun item hitem _ hvalue =>
      ⟨Item.yields_assignment_groovyOutside indent hname (h item hitem) hvalue,
        Item.yields_assignment_groovyShown hname (h item hitem) hvalue⟩

theorem withoutBlockBody_groovyText (hfacts : facts.Writable) (hitems : States items facts) :
    withoutBlockBody "dependencies" (items.flatMap (Item.groovyText indent)) =
      items.flatMap (Item.groovyOutside indent) := by
  refine withoutBlockBody_flatMap indent .groovyCommand hfacts hitems
    (separates_groovyText indent (hitems.writable hfacts)) rfl rfl fun item hitem => ?_
  cases item with
  | dependencies items => exact absurd rfl hitem
  | plugins ids => rfl
  | property name value => rfl
  | repositories names => rfl

theorem repositories_groovyText (hfacts : facts.Writable) (hitems : States items facts) :
    repositories (items.flatMap (Item.groovyText indent)) = facts.arranged.repositories := by
  have hwritable : ∀ name ∈ facts.repositories, IsLiteral name :=
    hfacts.items (.repositories facts.repositories) (by simp [BuildFacts.items])
  exact repositories_flatMap hitems (separates_groovyText indent (hitems.writable hfacts))
    fun _ _ => groovyRepositories_append indent hwritable hfacts.nodup_repositories

end Groovy

/-! ## Both dialects -/

/-- Facts that are written as a Groovy file and as a Kotlin file, item by item in any order, are
read alike from both, if no string of the Groovy file is ambiguous: they come back, arranged in the
order of extraction. -/
theorem parse_groovy_eq_parse_kotlin (indent' : Nat) {items' : List Item}
    (hfacts : facts.Writable) (hunambiguous : ∀ item ∈ facts.items, item.Unambiguous)
    (hitems : States items facts) (hitems' : States items' facts) :
    parse .groovy (String.ofList (items.flatMap (Item.groovyText indent))) =
        parse .kotlin (String.ofList (items'.flatMap (Item.text indent'))) ∧
      parse .groovy (String.ofList (items.flatMap (Item.groovyText indent))) = facts.arranged := by
  have hwritable := hitems.writable hfacts
  have hwritable' := hitems'.writable hfacts
  have hseparates := separates_groovyText indent hwritable
  have hdependencies : dependencies .groovy (items.flatMap (Item.groovyText indent)) =
      facts.arranged.dependencies :=
    dependencies_flatMap indent .groovyCommand hfacts hitems hseparates rfl
      fun _ => hunambiguous (.dependencies facts.dependencies) (by simp [BuildFacts.items])
  have hgroovy : parse .groovy (String.ofList (items.flatMap (Item.groovyText indent))) =
      facts.arranged :=
    parse_eq_arranged hfacts hitems hseparates (withoutBlockBody_groovyText indent hfacts hitems)
      (plugins_groovyOutside indent hwritable fun item hitem =>
        hunambiguous item (hitems.mem_items item hitem))
      (fun name hname => property?_groovyOutside indent hname hwritable) hdependencies
      (repositories_groovyText indent hfacts hitems)
  have hkotlin : parse .kotlin (String.ofList (items'.flatMap (Item.text indent'))) =
      facts.arranged :=
    parse_eq_arranged hfacts hitems' (separates_text indent' hwritable')
      (withoutBlockBody_items indent' hfacts hitems') (plugins_outside indent' hwritable')
      (fun name hname => property?_outside indent' hname hwritable')
      (dependencies_items indent' hfacts hitems') (repositories_items indent' hfacts hitems')
  exact ⟨hgroovy.trans hkotlin.symm, hgroovy⟩

theorem parse_groovy_eq_parse_kotlin_mixed :
    (mixedFacts.Writable ∧ (∀ item ∈ mixedFacts.items, item.Unambiguous) ∧
      States mixedItems mixedFacts ∧ States mixedFacts.items mixedFacts) ∧
    parse .groovy (String.ofList (mixedItems.flatMap (Item.groovyText 2))) =
        parse .kotlin (String.ofList (mixedFacts.items.flatMap (Item.text 4))) ∧
      parse .groovy (String.ofList (mixedItems.flatMap (Item.groovyText 2))) =
        { plugins := ["java-library", "com.acme.conventions"]
          dependencies := [.external "implementation" "org.slf4j" "slf4j-api" "2.0",
            .project "api" ":libs:core", .project "testImplementation" ":libs:testing"]
          repositories := ["mavenCentral", "google", "https://repo.acme.com/maven"]
          properties := .ofList [("group", "com.acme"), ("version", "1.0-rc")] } := by
  have hfacts : mixedFacts.Writable := ⟨by decide, by decide, by decide⟩
  have hunambiguous : ∀ item ∈ mixedFacts.items, item.Unambiguous := by decide
  have hitems : States mixedItems mixedFacts := .of_perm (by decide)
  have hitems' : States mixedFacts.items mixedFacts := .of_perm (.refl _)
  obtain ⟨hsame, harranged⟩ :=
    parse_groovy_eq_parse_kotlin 2 4 hfacts hunambiguous hitems hitems'
  exact ⟨⟨hfacts, hunambiguous, hitems, hitems'⟩, hsame, harranged.trans (by decide)⟩

/-- Two properties, the first of which has the value `id`. -/
def idFacts : BuildFacts where
  properties := { entries := [("group", "id"), ("version", "1")], nodup_keys := by decide }

/-- The items that state `idFacts`, without empty blocks. -/
def idItems : List Item := [.property "group" "id", .property "version" "1"]

/-- In Groovy, what stands between two strings is read as a plugin if the first string ends in the
word `id`. -/
theorem groovy_reads_between_strings :
    (idFacts.Writable ∧ States idItems idFacts) ∧
    parse .groovy (String.ofList (idItems.flatMap (Item.groovyText 4))) =
      { idFacts with plugins := ["\nversion = "] } ∧
    parse .kotlin (String.ofList (idItems.flatMap (Item.text 4))) = idFacts := by
  refine ⟨⟨⟨by decide, by decide, by decide⟩, ⟨by decide, by decide, by decide⟩⟩, ?_, ?_⟩ <;>
    decide +kernel

end BuildFile

end GradleWorkspace
