import GradleWorkspace.FileTree.Basic
import GradleWorkspace.Path
import GradleWorkspace.Text.Fields

/-!
# Looking up paths

A path leads through directories and links; `..` leads to the directory that holds the place
reached so far, and not to the segment before it.  At most `maxLinks` links are followed.

* `FileTree.lookup` tells where a path leads, or why it leads nowhere.
* `FileTree.resolve?` replaces a path by one without links and without `..`; it goes on where a
  path leads nowhere, but has no result for a path that never ends.
-/

namespace GradleWorkspace

/-- How many links a path can lead through. -/
def maxLinks : Nat := 40

/-- Where a path leads. -/
inductive Lookup
  /-- To a file or a directory. -/
  | found (place : List String) (node : Node)
  /-- To a name that a directory does not have, but could have. -/
  | vacant (directory : List String) (name : String)
  /-- Through a name that a directory does not have, or from a place where there is none. -/
  | missing
  /-- Through something that is no directory. -/
  | notDirectory
  /-- Through too many links. -/
  | tooManyLinks

/-- The segments of the target of a link. -/
def linkSegments (target : String) : List String :=
  (Text.fields (· == '/') target.toList).map String.ofList

/-- Whether the target of a link starts at the root. -/
def isAbsoluteTarget (target : String) : Bool := target.toList.head? == some '/'

namespace Node

/-- Where the given segments lead from a place, with so many links left to follow. -/
def lookup (root : Node) (links : Nat) (here : List String) (segments : List String) : Lookup :=
  match segments with
  | [] =>
    match root.get? here with
    | some node => .found here node
    | none => .missing
  | segment :: rest =>
    if segment = "" ∨ segment = "." then lookup root links here rest
    else if segment = ".." then lookup root links here.dropLast rest
    else
      match root.get? (here ++ [segment]) with
      | none =>
        if rest.isEmpty && isMemberName segment && (root.get? here).any isDirectory then
          .vacant here segment
        else .missing
      | some (.directory _) => lookup root links (here ++ [segment]) rest
      | some (.file content) =>
        if rest.isEmpty then .found (here ++ [segment]) (.file content) else .notDirectory
      | some (.link target) =>
        match links with
        | 0 => .tooManyLinks
        | links + 1 =>
          lookup root links (if isAbsoluteTarget target then [] else here)
            (linkSegments target ++ rest)
termination_by (links, segments.length)

/-- Where the given segments lead from a place if links are followed where there are any, and
whether this could be done up to the end.  A link that is met again while its own target is being
resolved is kept, and so are all segments after it.  At most `depth` more links are followed
within each other. -/
def resolve (root : Node) (depth : Nat) (pending : List (List String)) (here : List String)
    (segments : List String) : List String × Bool :=
  match segments with
  | [] => (here, true)
  | segment :: rest =>
    if segment = "" ∨ segment = "." then resolve root depth pending here rest
    else if segment = ".." then resolve root depth pending here.dropLast rest
    else
      let next := here ++ [segment]
      match root.get? next with
      | some (.link target) =>
        match depth with
        | 0 => (next ++ rest, false)
        | depth + 1 =>
          if next ∈ pending then (next ++ rest, false)
          else
            match resolve root depth (next :: pending)
                (if isAbsoluteTarget target then [] else here) (linkSegments target) with
            | (place, true) => resolve root (depth + 1) pending place rest
            | (place, false) => (place ++ rest, false)
      | _ => resolve root depth pending next rest
termination_by (depth, segments.length)

end Node

namespace FileTree

/-- The place that a path starts from. -/
def start (tree : FileTree) (path : Path) : List String :=
  if path.isAbsolute then [] else tree.current

/-- Where a path leads. -/
def lookup (tree : FileTree) (path : Path) : Lookup :=
  tree.root.lookup maxLinks (tree.start path) path.segments

/-- The file or directory that a path leads to. -/
def node? (tree : FileTree) (path : Path) : Option Node :=
  match tree.lookup path with
  | .found _ node => some node
  | _ => none

/-- Whether a path leads to something. -/
def holds (tree : FileTree) (path : Path) : Bool := (tree.node? path).isSome

/-- Whether a path leads to a file. -/
def isFile (tree : FileTree) (path : Path) : Bool := (tree.node? path).any Node.isFile

/-- Whether a path leads to a directory. -/
def isDirectory (tree : FileTree) (path : Path) : Bool := (tree.node? path).any Node.isDirectory

/-- The bytes of the file that a path leads to. -/
def bytes? (tree : FileTree) (path : Path) : Option ByteArray :=
  match tree.node? path with
  | some (.file content) => some content
  | _ => none

/-- Whether a path leads through too many links. -/
def isEndless (tree : FileTree) (path : Path) : Bool :=
  match tree.lookup path with
  | .tooManyLinks => true
  | _ => false

/-- The path without links and without `..`.  If a link leads back to itself, the path is only
resolved up to it; there is no result if the rest still leads through that link. -/
def resolve? (tree : FileTree) (path : Path) : Option Path :=
  let (segments, _) := tree.root.resolve maxLinks [] (tree.start path) path.segments
  let resolved := Path.absolute (Path.plainSegments segments)
  if tree.isEndless resolved then none else some resolved

end FileTree

end GradleWorkspace
