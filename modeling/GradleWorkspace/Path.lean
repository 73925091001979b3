import GradleWorkspace.Text.Fields

/-!
# Paths

A path names a place in a file tree: relative to the current directory, or from the root.  In
a path, empty segments and `.` mean nothing and are left out; `..` is kept, because what it
means depends on the links before it.
-/

namespace GradleWorkspace

/-- A path with `/` between its segments. -/
structure Path where
  /-- What stands before the first segment: nothing, or the slashes of an absolute path. -/
  root : String := ""
  segments : List String := []
  deriving DecidableEq, Repr

namespace Path

/-- What a text has before its first segment.  Two slashes are kept, more mean one. -/
def rootOf : List Char → String
  | '/' :: '/' :: '/' :: _ => "/"
  | '/' :: '/' :: _ => "//"
  | '/' :: _ => "/"
  | _ => ""

/-- The path that a text denotes. -/
def ofText (text : String) : Path where
  root := rootOf text.toList
  segments := (Text.segments (· == '/') text).filter (· ≠ ".")

/-- The absolute path with the given segments. -/
def absolute (segments : List String) : Path := ⟨"/", segments⟩

/-- Whether a path starts at the root. -/
def isAbsolute (path : Path) : Bool := path.root != ""

/-- The text of a path; the current directory is a single dot. -/
def text (path : Path) : String :=
  if path.root = "" ∧ path.segments = [] then "."
  else path.root ++ "/".intercalate path.segments

/-- The last segment of a path. -/
def name (path : Path) : String := path.segments.getLast?.getD ""

/-- The path of a member of a directory. -/
def member (path : Path) (name : String) : Path :=
  { path with segments := path.segments ++ [name] }

/-- The path of the directory that a path leads through last. -/
def parent (path : Path) : Path := { path with segments := path.segments.dropLast }

@[simp] theorem segments_member (path : Path) (name : String) :
    (path.member name).segments = path.segments ++ [name] := rfl

@[simp] theorem name_member (path : Path) (name : String) : (path.member name).name = name := by
  simp [Path.name]

@[simp] theorem parent_member (path : Path) (name : String) : (path.member name).parent = path := by
  simp [parent, member]

/-- A path seen from a directory. -/
def under (directory path : Path) : Path :=
  if path.isAbsolute then path
  else { directory with segments := directory.segments ++ path.segments }

/-- The segments without those that mean nothing, where `..` undoes the segment before it. -/
def plainSegments (segments : List String) : List String :=
  segments.foldl (fun before segment =>
    if segment = "" ∨ segment = "." then before
    else if segment = ".." then before.dropLast
    else before ++ [segment]) []

/-- The segments of a path with `/` between them. -/
def relativeText (segments : List String) : String := "/".intercalate segments

end Path

end GradleWorkspace
