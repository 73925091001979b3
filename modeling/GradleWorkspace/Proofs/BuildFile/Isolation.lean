import GradleWorkspace.BuildFile.Parser
import GradleWorkspace.Proofs.Script.Brace

/-!
# The block of dependencies is read for itself

Comments are stripped and blocks are found in the script as a whole.  Still, plugins and properties
do not depend on what stands in the block `dependencies`: the block begins and ends between two
tokens, and the tokens before and after it are those of the texts before and after it.

* `findBlock_stripComments` says that comments do not matter for where a block is found.
* `withoutBlockBody_stripComments` says what is left of a script without comments and without the
  body of a block.
* `dependencies_do_not_leak` compares two scripts that differ in the body of the block only.
-/

namespace GradleWorkspace

namespace Script

/-- Comments do not matter for where a block is found. -/
theorem findBlock_stripComments (keyword : String) (script : List Char) :
    findBlock keyword (stripComments script) = findBlock keyword script := by
  have hmask : mask (stripComments script) = mask script := maskFrom_stripComments blank script
  rw [findBlock, hmask, findBlock]

/-- Comments are stripped before the body of a block, in it and after it separately. -/
theorem exists_stripComments_eq {keyword : String} {before body after : List Char}
    (h : findBlock keyword (before ++ body ++ after) =
      some (before.length, before.length + body.length)) :
    ∃ stripped, stripped.length = body.length ∧
      stripComments (before ++ body ++ after) =
        stripComments before ++ stripped ++ stripComments after := by
  obtain ⟨outer, inside, behind, htokens, hbefore, hbody, hafter⟩ := exists_tokens_of_findBlock h
  rw [List.append_assoc, List.take_left] at hbefore
  rw [slice, ← List.length_append, List.take_left, List.drop_left] at hbody
  rw [← List.length_append, List.drop_left] at hafter
  have hcode : EndsInCode before := by
    rw [hbefore]
    exact endsInCode_of_tokens_eq htokens (by decide)
  have hsplit : tokens (before ++ body ++ after) = outer ++ [.code '{'] ++ (inside ++ behind) := by
    rw [htokens, List.append_assoc, List.singleton_append]
  have hinside : tokens (body ++ after) = inside ++ behind := by
    rw [hbody, hafter, ← List.flatMap_append]
    exact tokens_of_suffix hsplit
  have hstripped : stripComments (body ++ after) =
      inside.flatMap (Token.shown id) ++ stripComments after :=
    hafter.symm ▸ maskFrom_eq_of_tokens_eq hinside id
  refine ⟨inside.flatMap (Token.shown id), ?_, ?_⟩
  · rw [Token.length_flatMap_shown, hbody]
  · calc stripComments (before ++ body ++ after)
      _ = stripComments (before ++ (body ++ after)) := by rw [List.append_assoc]
      _ = stripComments before ++ stripComments (body ++ after) := hcode id (body ++ after)
      _ = stripComments before ++ inside.flatMap (Token.shown id) ++ stripComments after := by
          rw [hstripped, List.append_assoc]

/-- What is left of a script without comments and without the body of a block is what is left of the
texts before and after the body. -/
theorem withoutBlockBody_stripComments {keyword : String} {before body after : List Char}
    (h : findBlock keyword (stripComments (before ++ body ++ after)) =
      some (before.length, before.length + body.length)) :
    withoutBlockBody keyword (stripComments (before ++ body ++ after)) =
      stripComments before ++ stripComments after := by
  obtain ⟨stripped, hlength, hscript⟩ :=
    exists_stripComments_eq ((findBlock_stripComments keyword _).symm.trans h)
  have hbefore : before.length = (stripComments before).length := (length_maskFrom ..).symm
  rw [withoutBlockBody, h, hscript, ← hlength, hbefore]
  simp only
  rw [← List.length_append, List.drop_left, List.append_assoc, List.take_left]

end Script

namespace BuildFile

open Script

/-- If two build files differ only in the body of the block `dependencies`, then they have the same
plugins and the same properties. -/
theorem dependencies_do_not_leak (dialect : Dialect) {before body body' after : String}
    (h : findBlock "dependencies" (stripComments (before ++ body ++ after).toList) =
      some (before.length, before.length + body.length))
    (h' : findBlock "dependencies" (stripComments (before ++ body' ++ after).toList) =
      some (before.length, before.length + body'.length)) :
    (parse dialect (before ++ body ++ after)).plugins =
        (parse dialect (before ++ body' ++ after)).plugins ∧
      (parse dialect (before ++ body ++ after)).properties =
        (parse dialect (before ++ body' ++ after)).properties := by
  have houtside : ∀ {inner : String},
      findBlock "dependencies" (stripComments (before ++ inner ++ after).toList) =
        some (before.length, before.length + inner.length) →
      withoutBlockBody "dependencies" (stripComments (before ++ inner ++ after).toList) =
        stripComments before.toList ++ stripComments after.toList := by
    intro inner hfind
    rw [String.toList_append, String.toList_append] at hfind ⊢
    exact withoutBlockBody_stripComments hfind
  have hsame := (houtside h).trans (houtside h').symm
  simp only [parse]
  rw [hsame]
  exact ⟨rfl, rfl⟩

/-- A build file up to the body of its block `dependencies`. -/
def scriptBefore : String := "plugins \x7b id 'java' \x7d\nversion = '1'\ndependencies \x7b"

/-- A body with a block and with a comment that holds a quote and a brace. -/
def bodyWithExclusion : String :=
  " api('a:b:1') \x7b exclude group: 'x' \x7d // don't \x7d\n"

/-- A body with an assignment and with a comment that holds a brace and a quote. -/
def bodyWithVersion : String := "\n  version = '2' /* \x7b \" */\n  api kotlin('test')\n"

/-- The rest of the build file, which ends with a comment. -/
def scriptAfter : String := "\x7d\ngroup = 'org' // \x7b\n"

theorem dependencies_do_not_leak_exclusion_version :
    findBlock "dependencies"
        (stripComments (scriptBefore ++ bodyWithExclusion ++ scriptAfter).toList) =
      some (scriptBefore.length, scriptBefore.length + bodyWithExclusion.length) ∧
    findBlock "dependencies"
        (stripComments (scriptBefore ++ bodyWithVersion ++ scriptAfter).toList) =
      some (scriptBefore.length, scriptBefore.length + bodyWithVersion.length) ∧
    (parse .groovy (scriptBefore ++ bodyWithExclusion ++ scriptAfter)).plugins =
      (parse .groovy (scriptBefore ++ bodyWithVersion ++ scriptAfter)).plugins ∧
    (parse .groovy (scriptBefore ++ bodyWithExclusion ++ scriptAfter)).properties =
      (parse .groovy (scriptBefore ++ bodyWithVersion ++ scriptAfter)).properties := by
  have hexclusion : findBlock "dependencies"
      (stripComments (scriptBefore ++ bodyWithExclusion ++ scriptAfter).toList) =
        some (scriptBefore.length, scriptBefore.length + bodyWithExclusion.length) := by
    rw [findBlock_stripComments, String.toList_append, String.toList_append]
    decide +kernel
  have hversion : findBlock "dependencies"
      (stripComments (scriptBefore ++ bodyWithVersion ++ scriptAfter).toList) =
        some (scriptBefore.length, scriptBefore.length + bodyWithVersion.length) := by
    rw [findBlock_stripComments, String.toList_append, String.toList_append]
    decide +kernel
  have hsame := dependencies_do_not_leak .groovy hexclusion hversion
  exact ⟨hexclusion, hversion, hsame⟩

end BuildFile

end GradleWorkspace
