import GradleWorkspace.FileTree.Lookup
import GradleWorkspace.Log

/-!
# Text files

Scripts are UTF-8 texts.  Each kind of line end is read as a single line feed.  A file that is
no text is left out with a warning.
-/

namespace GradleWorkspace

/-- A text in which each carriage return, with or without a line feed after it, became a line
feed. -/
def unifyLineEnds : List Char → List Char
  | '\r' :: '\n' :: rest => '\n' :: unifyLineEnds rest
  | '\r' :: rest => '\n' :: unifyLineEnds rest
  | c :: rest => c :: unifyLineEnds rest
  | [] => []

/-- The text in the bytes of a file, unless they are not UTF-8. -/
def decodeText (content : ByteArray) : Option String :=
  (String.fromUTF8? content).map fun text => String.ofList (unifyLineEnds text.toList)

namespace FileTree

/-- The text of the file at a path, or a warning. -/
def readText (tree : FileTree) (path : Path) : Logged (Option String) :=
  match (tree.bytes? path).bind decodeText with
  | some text => .pure (some text)
  | none => do
    Logged.warn ("Could not read " ++ path.text)
    return none

end FileTree

end GradleWorkspace
