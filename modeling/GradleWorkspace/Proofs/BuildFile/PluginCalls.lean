import GradleWorkspace.BuildFile.Parser
import GradleWorkspace.Proofs.Script.Opening
import GradleWorkspace.Proofs.BuildFile.Dependencies

/-!
# Where the plugins of a Kotlin script are called

In Kotlin, a plugin is applied by a call such as `id("java")` or `kotlin("jvm")`.  The same call
inside of a block `dependencies` names a library.  Plugins are looked for in the script without the
body of one such block, the one that `findBlock` chooses.

* `CallsPlugin` says where a plugin is called in a script.
* `CallsPlugin.of_cut` goes from a call in the script without the body of a block back to the
  script.
* `plugins_called_outside_dependencies` says that a plugin was called outside of all the blocks,
  provided that no call stands in a block whose body is not cut out.
-/

namespace GradleWorkspace

namespace Script

open Text

/-! ## The text of a call -/

/-- A brace in a call stands in the string. -/
theorem IsLiteralCall.mem_content {name : String} {content written : List Char}
    (h : IsLiteralCall name content written) (hname : '{' ∉ name.toList)
    (hbrace : '{' ∈ written) : '{' ∈ content := by
  obtain ⟨before, inside, behind, opening, closing, hblanks, -, hopening, hclosing, rfl⟩ := h
  have hblank : ∀ blanks : List Char, (∀ c ∈ blanks, isBlank c = true) → '{' ∉ blanks :=
    fun blanks hall hmem => absurd (hall _ hmem) (by decide)
  obtain ⟨hfront, hbehind⟩ := List.forall_mem_append.1 hblanks
  obtain ⟨hbefore, hinside⟩ := List.forall_mem_append.1 hfront
  have hquote : ∀ quote, isQuote quote = true → '{' ≠ quote :=
    fun quote hisQuote => ne_brace_of_isQuote hisQuote (.inl rfl)
  simpa [hname, hblank before hbefore, hblank inside hinside, hblank behind hbehind,
    hquote opening hopening, hquote closing hclosing] using hbrace

end Script

namespace BuildFile

open Script

/-! ## Calls of plugin functions -/

/-- The functions that apply a plugin in Kotlin. -/
def pluginFunctions : List String := ["id", "kotlin"]

/-- From an offset of a script up to another, a plugin is called by its name. -/
def CallsPlugin (script : List Char) (start stop : Nat) (id : List Char) : Prop :=
  ∃ front written rest, script = front ++ (written ++ rest) ∧
    isNameBorder front.getLast? = true ∧
    (∃ name ∈ pluginFunctions, IsLiteralCall name id written) ∧
    start = front.length ∧ stop = start + written.length

/-- A call of a plugin reaches into a part of a script. -/
def HoldsCall (script : List Char) (first last : Nat) : Prop :=
  ∃ start stop id, CallsPlugin script start stop id ∧ start < last ∧ first < stop

section Calls

variable {script : List Char} {start stop : Nat} {id : List Char}

/-- The plugins of a script are called in it. -/
theorem exists_call_of_mem_plugins {id : String} (h : id ∈ plugins .kotlin script) :
    ∃ start stop, CallsPlugin script start stop id.toList := by
  obtain ⟨form, hform, hid⟩ := List.mem_flatMap.1 (List.mem_eraseDups.1 h)
  obtain ⟨content, hcontent, rfl⟩ := List.mem_map.1 hid
  obtain ⟨name, hname, rfl⟩ : ∃ name ∈ pluginFunctions, call name literal = form :=
    List.mem_map.1 hform
  obtain ⟨front, place, rest, rfl, hborder, hread⟩ := exists_read_of_mem_findValues hcontent
  obtain ⟨written, hwritten, rfl⟩ := call_literal_eq_some_iff.1 hread
  rw [String.toList_ofList]
  exact ⟨_, _, front, written, rest, rfl, hborder, ⟨name, hname, hwritten⟩, rfl, rfl⟩

/-- What is called at an offset can be read there. -/
theorem CallsPlugin.exists_read (h : CallsPlugin script start stop id) :
    start < script.length ∧ ∃ name ∈ pluginFunctions, ∃ rest,
      call name literal (script.drop start) = some (id, rest) ∧
        stop + rest.length = script.length := by
  obtain ⟨front, written, rest, rfl, -, ⟨name, hname, hwritten⟩, rfl, rfl⟩ := h
  refine ⟨?_, name, hname, rest, ?_, by simp [Nat.add_assoc]⟩
  · obtain ⟨before, inside, behind, opening, closing, -, -, -, -, rfl⟩ := hwritten
    simp only [List.length_append, List.length_cons]
    omega
  · rw [List.drop_left]
    exact call_literal_eq_some_iff.2 ⟨written, hwritten, rfl⟩

theorem of_mem_pluginFunctions {name : String} (h : name ∈ pluginFunctions) :
    '{' ∉ name.toList ∧ ∃ c word, name.toList = c :: word ∧ c ≠ '}' := by
  obtain rfl | rfl : name = "id" ∨ name = "kotlin" := by simpa [pluginFunctions] using h
  · exact ⟨by decide, 'i', _, rfl, by decide⟩
  · exact ⟨by decide, 'k', _, rfl, by decide⟩

/-- A plugin that is called in a script without the body of a block, and that has no brace in its
name, is called in the script before the body or after it. -/
theorem CallsPlugin.of_cut {before after : List Char}
    (h : CallsPlugin (before ++ '{' :: after) start stop id) (hbrace : '{' ∉ id)
    (hafter : ∀ c ∈ after.head?, c = '}') (body : List Char) :
    ∃ start' stop', CallsPlugin (before ++ '{' :: (body ++ after)) start' stop' id ∧
      (stop' ≤ before.length + 1 ∨ before.length + 1 + body.length ≤ start') := by
  obtain ⟨front, written, rest, hscript, hborder, ⟨name, hname, hwritten⟩, rfl, rfl⟩ := h
  obtain ⟨hnobrace, c, word, hword, hc⟩ := of_mem_pluginFunctions hname
  rcases append_eq_append_cons_cases hscript.symm with ⟨before', rfl, hrest⟩ | ⟨inside, rfl, rfl⟩
  · -- The call begins before the brace; if it went on behind the brace, its string had the brace.
    rcases append_eq_append_cons_cases hrest with ⟨between, rfl, rfl⟩ | ⟨inside, rfl, -⟩
    · refine ⟨_, _, ⟨front, written, between ++ '{' :: (body ++ after), by simp, hborder,
        ⟨name, hname, hwritten⟩, rfl, rfl⟩, .inl ?_⟩
      simp only [List.length_append]
      omega
    · exact absurd (hwritten.mem_content hnobrace (by simp)) hbrace
  · -- The call begins behind the body, and not at once, because a brace stands there.
    have hinside : inside ≠ [] := by
      rintro rfl
      obtain ⟨_, _, _, _, _, -, -, -, -, rfl⟩ := hwritten
      exact hc (hafter c (by simp [hword]))
    refine ⟨_, _, ⟨before ++ '{' :: (body ++ inside), written, rest, by simp, ?_,
      ⟨name, hname, hwritten⟩, rfl, rfl⟩, .inr ?_⟩
    · have hlast : ∀ front : List Char, (front ++ inside).getLast? = inside.getLast? :=
        fun front => List.getLast?_append_of_ne_nil front hinside
      rwa [← List.cons_append, ← List.append_assoc, hlast, ← hlast (before ++ ['{']),
        List.append_assoc, List.singleton_append]
    · simp only [List.length_append, List.length_cons]
      omega

/-- A plugin of the script without the body of the block that is found, and with no brace in its
name, is called before the body or after it. -/
theorem exists_call_of_mem_withoutBlockBody {keyword id : String}
    (hkeyword : IsWord keyword.toList)
    (hid : id ∈ plugins .kotlin (withoutBlockBody keyword script)) (hbrace : '{' ∉ id.toList) :
    ∃ start stop, CallsPlugin script start stop id.toList ∧
      ∀ first last, findBlock keyword script = some (first, last) →
        stop ≤ first ∨ last ≤ start := by
  obtain ⟨start, stop, hcall⟩ := exists_call_of_mem_plugins hid
  cases hfind : findBlock keyword script with
  | none =>
      rw [withoutBlockBody, hfind] at hcall
      exact ⟨start, stop, hcall, by simp⟩
  | some body =>
      obtain ⟨first, last⟩ := body
      obtain ⟨before, body, after, hscript, rfl, rfl, hafter⟩ :=
        exists_cut_of_findBlock hkeyword hfind
      have hwithout : withoutBlockBody keyword script = before ++ '{' :: after := by
        have hlength : before.length + 1 = (before ++ ['{']).length := by simp
        have hsplit : script = before ++ ['{'] ++ (body ++ after) := by simp [hscript]
        simp only [withoutBlockBody, hfind]
        rw [hlength, ← List.drop_drop, hsplit, List.take_left, List.drop_left, List.drop_left,
          List.append_assoc, List.singleton_append]
      rw [hwithout] at hcall
      obtain ⟨start', stop', hcall', hplace⟩ := hcall.of_cut hbrace hafter body
      rw [← hscript] at hcall'
      refine ⟨start', stop', hcall', fun first last hbody => ?_⟩
      obtain ⟨rfl, rfl⟩ := Prod.mk.inj (Option.some.inj hbody)
      exact hplace

end Calls

/-! ## Blocks of dependencies -/

/-- A plugin is called outside of the bodies of all blocks `dependencies`. -/
def IsCalledOutside (script id : List Char) : Prop :=
  ∃ start stop, CallsPlugin script start stop id ∧
    ∀ first last, IsBlockBody "dependencies" script first last → stop ≤ first ∨ last ≤ start

/-- The bodies of blocks `dependencies` in which calls stand lie within the one that is found. -/
def HoldsCallsWhereFound (script : List Char) : Prop :=
  ∀ start stop first last, findBlock "dependencies" script = some (start, stop) →
    IsBlockBody "dependencies" script first last → HoldsCall script first last →
      start ≤ first ∧ last ≤ stop

/-- A plugin of a Kotlin script with no brace in its name was called outside of all blocks
`dependencies`, however many there are and however deep they stand, if all that hold calls lie
within the one that is found. -/
theorem plugins_called_outside_dependencies (text : String) {id : String}
    (hid : id ∈ (parse .kotlin text).plugins) (hbrace : '{' ∉ id.toList)
    (hbodies : HoldsCallsWhereFound (stripComments text.toList)) :
    IsCalledOutside (stripComments text.toList) id.toList := by
  obtain ⟨start, stop, hcall, houtside⟩ :=
    exists_call_of_mem_withoutBlockBody isWord_dependencies hid hbrace
  refine ⟨start, stop, hcall, fun first last hbody => ?_⟩
  by_contra hinside
  have hholds : HoldsCall (stripComments text.toList) first last :=
    ⟨start, stop, id.toList, hcall, by omega, by omega⟩
  cases hfind : findBlock "dependencies" (stripComments text.toList) with
  | none =>
      obtain ⟨place, hopens, -⟩ := hbody
      have hnone := (findBlock_eq_none_iff isWord_dependencies).1 hfind
      exact Set.eq_empty_iff_forall_notMem.1 hnone place ⟨first, hopens⟩
  | some found =>
      have hwithin := hbodies found.1 found.2 first last hfind hbody hholds
      have houtside := houtside found.1 found.2 hfind
      omega

/-- A script with a plugin, and with two blocks of which the first holds a library. -/
def scriptWithLibrary : String :=
  "plugins \x7b kotlin(\"jvm\") \x7d\ndependencies \x7b api(kotlin(\"stdlib\")) \x7d\n" ++
    "buildscript \x7b dependencies \x7b classpath(\"a:b:1\") \x7d \x7d\n"

theorem plugins_called_outside_dependencies_library :
    "jvm" ∈ (parse .kotlin scriptWithLibrary).plugins ∧ '{' ∉ "jvm".toList ∧
    HoldsCallsWhereFound (stripComments scriptWithLibrary.toList) ∧
    IsCalledOutside (stripComments scriptWithLibrary.toList) "jvm".toList := by
  have hbrace : '{' ∉ "jvm".toList := by decide
  -- The calls stop before the second block.
  obtain ⟨hplugin, hfind, hopenings, hcalls⟩ :
      "jvm" ∈ (parse .kotlin scriptWithLibrary).plugins ∧
      findBlock "dependencies" (stripComments scriptWithLibrary.toList) = some (40, 63) ∧
      (find isNameBorder (readOpening "dependencies")
        (mask (stripComments scriptWithLibrary.toList))).map Located.stop = [40, 93] ∧
      ∀ start < (stripComments scriptWithLibrary.toList).length, ∀ name ∈ pluginFunctions,
        ∀ found ∈ call name literal ((stripComments scriptWithLibrary.toList).drop start),
          (stripComments scriptWithLibrary.toList).length ≤ 63 + found.2.length := by
    decide +kernel
  have hbodies : HoldsCallsWhereFound (stripComments scriptWithLibrary.toList) := by
    rintro start stop first last hfound ⟨place, hopens, hend⟩ ⟨start', stop', id, hcall, -, hfirst⟩
    obtain ⟨rfl, rfl⟩ := Prod.mk.inj (Option.some.inj (hfind.symm.trans hfound))
    obtain ⟨hstart, name, hname, rest, hread, hstop⟩ := hcall.exists_read
    have hbefore : (stripComments scriptWithLibrary.toList).length ≤ 63 + rest.length :=
      hcalls start' hstart name hname (id, rest) hread
    have hplace : first ∈ [40, 93] :=
      hopenings ▸ List.mem_map_of_mem ((opensBlock_iff_mem_find isWord_dependencies).1 hopens)
    obtain rfl | rfl : first = 40 ∨ first = 93 := by simpa using hplace
    · have hend' := isBodyEnd_of_findBlock isWord_dependencies hfind
      exact ⟨Nat.le_refl _, Nat.le_of_eq (hend.eq hend')⟩
    · omega
  exact ⟨hplugin, hbrace, hbodies,
    plugins_called_outside_dependencies scriptWithLibrary hplugin hbrace hbodies⟩

/-- A script with a block of its own, and with a block for other projects that holds a library. -/
def scriptForSubprojects : String :=
  "dependencies \x7b\n  api(\"a:b:1\")\n\x7d\nsubprojects \x7b\n  dependencies \x7b\n" ++
    "    api(kotlin(\"stdlib\"))\n  \x7d\n\x7d\n"

/-- A library is taken for a plugin if it stands in a block other than the one that is found. -/
theorem library_taken_for_plugin :
    "stdlib" ∈ (parse .kotlin scriptForSubprojects).plugins ∧
    ¬IsCalledOutside (stripComments scriptForSubprojects.toList) "stdlib".toList := by
  -- The second block is opened at offset 48, and the only call stands in its body.
  obtain ⟨hplugin, hopening, hlength, hcalls⟩ :
      "stdlib" ∈ (parse .kotlin scriptForSubprojects).plugins ∧
      ⟨48, 62, ()⟩ ∈ find isNameBorder (readOpening "dependencies")
        (mask (stripComments scriptForSubprojects.toList)) ∧
      bodyLength 0 ((mask (stripComments scriptForSubprojects.toList)).drop 62) = 29 ∧
      ∀ start < (stripComments scriptForSubprojects.toList).length, ∀ name ∈ pluginFunctions,
        ∀ found ∈ call name literal ((stripComments scriptForSubprojects.toList).drop start),
          start < 91 ∧
            62 + found.2.length < (stripComments scriptForSubprojects.toList).length := by
    decide +kernel
  have hopens := (opensBlock_iff_mem_find isWord_dependencies).2 hopening
  have hbody : IsBlockBody "dependencies" (stripComments scriptForSubprojects.toList) 62 91 := by
    have hend := isBodyEnd_bodyLength hopens.le_length
    rw [hlength] at hend
    exact ⟨48, hopens, hend⟩
  refine ⟨hplugin, fun ⟨start, stop, hcall, houtside⟩ => ?_⟩
  obtain ⟨hstart, name, hname, rest, hread, hstop⟩ := hcall.exists_read
  have hinside : start < 91 ∧
      62 + rest.length < (stripComments scriptForSubprojects.toList).length :=
    hcalls start hstart name hname ("stdlib".toList, rest) hread
  have houtside := houtside 62 91 hbody
  omega

end BuildFile

end GradleWorkspace
