import GradleWorkspace.FileTree.Lookup

/-!
# Writing files

`FileTree.write` writes a file and makes the directories on the way to it that do not exist yet.
If this fails, the directories made so far stay.
-/

namespace GradleWorkspace

/-- Why a file cannot be written. -/
inductive WriteError
  /-- A directory cannot be made where something else stands. -/
  | notADirectoryButExists
  /-- The path leads through something that is no directory. -/
  | throughNoDirectory
  /-- The path leads to a directory. -/
  | isDirectory
  /-- A link on the path leads nowhere. -/
  | leadsNowhere
  /-- The path leads through too many links. -/
  | tooManyLinks
  deriving DecidableEq, Repr

namespace FileTree

/-- A tree after something was written or was to be written, and why it could not be. -/
structure Attempt where
  tree : FileTree
  error : Option WriteError := none

/-- Goes on with the tree after an attempt, unless it failed. -/
def Attempt.andThen (first : Attempt) (next : FileTree → Attempt) : Attempt :=
  if first.error.isSome then first else next first.tree

/-- Makes a directory with a given name in a directory.  It may exist already, also through a
link. -/
def makeDirectory (tree : FileTree) (directory : Path) (name : String) : Attempt :=
  match tree.lookup directory with
  | .found place (.directory _) =>
    if isMemberName name ∧ (tree.root.get? (place ++ [name])).isNone then
      { tree := tree.putDirectory (place ++ [name]) }
    else if tree.isDirectory (directory.member name) then { tree }
    else { tree, error := some .notADirectoryButExists }
  | .found _ _ => { tree, error := some .throughNoDirectory }
  | .vacant _ _ => { tree, error := some .leadsNowhere }
  | .missing => { tree, error := some .leadsNowhere }
  | .notDirectory => { tree, error := some .throughNoDirectory }
  | .tooManyLinks => { tree, error := some .tooManyLinks }

/-- Makes the directories with the given segments, in reverse, below a root, as far as they do
not exist. -/
def makeDirectories (tree : FileTree) (root : String) : List String → Attempt
  | [] => { tree }
  | name :: parents =>
    let directory : Path := ⟨root, parents.reverse⟩
    let attempt := tree.makeDirectory directory name
    if attempt.error = some .leadsNowhere then
      (makeDirectories tree root parents).andThen fun tree => tree.makeDirectory directory name
    else attempt

/-- Writes a file at a path whose directory exists. -/
def writeIn (tree : FileTree) (path : Path) (content : ByteArray) : Attempt :=
  match tree.lookup path with
  | .found place (.file _) => { tree := tree.putFile place content }
  | .found _ _ => { tree, error := some .isDirectory }
  | .vacant directory name => { tree := tree.putFile (directory ++ [name]) content }
  | .missing => { tree, error := some .leadsNowhere }
  | .notDirectory => { tree, error := some .throughNoDirectory }
  | .tooManyLinks => { tree, error := some .tooManyLinks }

/-- Writes a file at a path, and makes the directories on the way. -/
def write (tree : FileTree) (path : Path) (content : ByteArray) : Attempt :=
  (tree.makeDirectories path.root path.parent.segments.reverse).andThen fun tree =>
    tree.writeIn path content

end FileTree

end GradleWorkspace
