import GradleWorkspace.SettingsFile
import GradleWorkspace.Proofs.BuildFile.Isolation
import GradleWorkspace.Proofs.Script.Insertion

/-!
# Comments in build files and settings files

A build file and a settings file are read without their comments, so that two files are read alike
if they are the same without their comments (`parse_congr`, `includes_congr`, `rootName?_congr`).

There are two groups.

* Files without their comments.  The comments need not be stripped by the readers: `withoutComments`
  is a file in which blanks stand in place of the comments.  It has the same strings and no
  comments, and `readers_agree_without_comments` says that it is read as the file itself is.
* Comments put into a file.  `withInserted` is a file with a piece put in, and
  `comment_reads_as_blanks` says that between tokens a comment is the same as blanks.
-/

namespace GradleWorkspace

open Script

/-! ## What the readers see of a file -/

namespace BuildFile

theorem parse_congr (dialect : Dialect) {text other : String}
    (h : stripComments text.toList = stripComments other.toList) :
    parse dialect text = parse dialect other := by
  simp only [parse, h]

end BuildFile

namespace SettingsFile

theorem includes_congr (dialect : Dialect) {text other : String}
    (h : stripComments text.toList = stripComments other.toList) :
    includes dialect text = includes dialect other := by
  simp only [includes, h]

theorem rootName?_congr {text other : String}
    (h : stripComments text.toList = stripComments other.toList) :
    rootName? text = rootName? other := by
  simp only [rootName?, h]

end SettingsFile

/-! ## Files without their comments -/

/-- The text of a file with blanks in place of its comments. -/
def withoutComments (text : String) : String := String.ofList (stripComments text.toList)

theorem stripComments_withoutComments (text : String) :
    stripComments (withoutComments text).toList = stripComments text.toList := by
  rw [withoutComments, String.toList_ofList, stripComments_stripComments]

namespace BuildFile

theorem parse_withoutComments (dialect : Dialect) (text : String) :
    parse dialect (withoutComments text) = parse dialect text :=
  parse_congr dialect (stripComments_withoutComments text)

end BuildFile

namespace SettingsFile

theorem includes_withoutComments (dialect : Dialect) (text : String) :
    includes dialect (withoutComments text) = includes dialect text :=
  includes_congr dialect (stripComments_withoutComments text)

theorem rootName?_withoutComments (text : String) :
    rootName? (withoutComments text) = rootName? text :=
  rootName?_congr (stripComments_withoutComments text)

end SettingsFile

/-- Comments can be stripped first.  This leaves no comments and the same masked text, so that
blocks stand where they stood, and the same is read from a build file and from a settings file. -/
theorem readers_agree_without_comments (text : String) :
    stripComments (withoutComments text).toList = (withoutComments text).toList ∧
    mask (withoutComments text).toList = mask text.toList ∧
    (∀ keyword, findBlock keyword (withoutComments text).toList =
      findBlock keyword text.toList) ∧
    (∀ dialect, BuildFile.parse dialect (withoutComments text) = BuildFile.parse dialect text) ∧
    (∀ dialect, SettingsFile.includes dialect (withoutComments text) =
      SettingsFile.includes dialect text) ∧
    SettingsFile.rootName? (withoutComments text) = SettingsFile.rootName? text := by
  have hscript : (withoutComments text).toList = stripComments text.toList := String.toList_ofList
  refine ⟨?_, ?_, fun keyword => ?_, fun dialect => ?_, fun dialect => ?_, ?_⟩
  · rw [hscript, stripComments_stripComments]
  · rw [hscript, mask_stripComments]
  · rw [hscript, findBlock_stripComments]
  · exact BuildFile.parse_withoutComments dialect text
  · exact SettingsFile.includes_withoutComments dialect text
  · exact SettingsFile.rootName?_withoutComments text

/-- A mark of a comment in a string stays, and a quote in a comment goes. -/
example : withoutComments "a '//' // it's" = "a '//'        " := by decide +kernel

/-! ## Comments put into a file -/

/-- The text of a file with a piece put in at an offset. -/
def withInserted (offset : Nat) (piece : List Char) (text : String) : String :=
  String.ofList (insertAt offset piece text.toList)

section Insertion

variable {text : String} {offset : Nat} {body : List Char}

theorem stripComments_withInserted_commentText (h : AdmitsComment text.toList offset)
    (hbody : ¬['*', '/'] <:+: body) :
    stripComments (withInserted offset (commentText body) text).toList =
      stripComments (text.toList.take offset) ++
        ((commentText body).map blank ++ stripComments (text.toList.drop offset)) := by
  rw [withInserted, String.toList_ofList]
  exact h.maskFrom_insertAt_commentText hbody id

theorem stripComments_withInserted_blank (h : AdmitsComment text.toList offset) :
    stripComments (withInserted offset ((commentText body).map blank) text).toList =
      stripComments (text.toList.take offset) ++
        ((commentText body).map blank ++ stripComments (text.toList.drop offset)) := by
  rw [withInserted, String.toList_ofList]
  exact h.maskFrom_insertAt_blank id

/-- A comment that is put into a file between two tokens is the same as blanks in its place, of the
same length and with the same ends of lines: nothing else is left of it when comments are stripped,
and the texts before it and behind it are stripped as if each was a file of its own.  So the same is
read from the file with the comment as from the file with the blanks. -/
theorem comment_reads_as_blanks (h : AdmitsComment text.toList offset)
    (hbody : ¬['*', '/'] <:+: body) :
    let commented := withInserted offset (commentText body) text
    let spaced := withInserted offset ((commentText body).map blank) text
    stripComments commented.toList = stripComments spaced.toList ∧
    stripComments commented.toList = stripComments (text.toList.take offset) ++
      ((commentText body).map blank ++ stripComments (text.toList.drop offset)) ∧
    (∀ dialect, BuildFile.parse dialect commented = BuildFile.parse dialect spaced) ∧
    (∀ dialect, SettingsFile.includes dialect commented = SettingsFile.includes dialect spaced) ∧
    SettingsFile.rootName? commented = SettingsFile.rootName? spaced := by
  intro commented spaced
  have hcommented := stripComments_withInserted_commentText h hbody
  have hsame : stripComments commented.toList = stripComments spaced.toList :=
    hcommented.trans (stripComments_withInserted_blank h).symm
  exact ⟨hsame, hcommented, fun dialect => BuildFile.parse_congr dialect hsame,
    fun dialect => SettingsFile.includes_congr dialect hsame, SettingsFile.rootName?_congr hsame⟩

end Insertion

/-- A comment with quotes, a brace, the mark of another comment and an end of a line, put in behind
a string that holds such a mark itself. -/
theorem comment_reads_as_blanks_quotes :
    (AdmitsComment "include('/*', ':b')".toList 12 ∧ ¬['*', '/'] <:+: "'\"\"\"\x7b //\n/*".toList) ∧
    withInserted 12 (commentText "'\"\"\"\x7b //\n/*".toList) "include('/*', ':b')" =
      "include('/*'/*'\"\"\"\x7b //\n/**/, ':b')" ∧
    stripComments "include('/*'/*'\"\"\"\x7b //\n/**/, ':b')".toList =
      "include('/*'          \n    , ':b')".toList ∧
    ∀ dialect, SettingsFile.includes dialect "include('/*'/*'\"\"\"\x7b //\n/**/, ':b')" =
      SettingsFile.includes dialect "include('/*'          \n    , ':b')" := by
  have hplace : AdmitsComment "include('/*', ':b')".toList 12 :=
    ⟨(tokens "include('/*', ':b')".toList).take 9, (tokens "include('/*', ':b')".toList).drop 9,
      (List.take_append_drop 9 _).symm, by decide +kernel, by decide +kernel⟩
  have hbody : ¬['*', '/'] <:+: "'\"\"\"\x7b //\n/*".toList := by decide +kernel
  have hcommented : withInserted 12 (commentText "'\"\"\"\x7b //\n/*".toList)
      "include('/*', ':b')" = "include('/*'/*'\"\"\"\x7b //\n/**/, ':b')" := by decide +kernel
  have hspaced : withInserted 12 ((commentText "'\"\"\"\x7b //\n/*".toList).map blank)
      "include('/*', ':b')" = "include('/*'          \n    , ':b')" := by decide +kernel
  obtain ⟨-, hstripped, -, hincludes, -⟩ := comment_reads_as_blanks hplace hbody
  rw [hcommented] at hstripped hincludes
  rw [hspaced] at hincludes
  exact ⟨⟨hplace, hbody⟩, hcommented, hstripped.trans (by decide +kernel), hincludes⟩

end GradleWorkspace
