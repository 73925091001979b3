import GradleWorkspace.Command.Invocation

/-!
# The program

The command line of the command.  It takes a snapshot of the workspace from the disk, examines
it, and writes the report and the messages.  What the report and the messages are is decided by
`Command.examine`.
-/

namespace GradleWorkspace.Command

/-- How to use the program. -/
def usage : String := lines
  ["usage: gradle-workspace [options] DIRECTORY",
    "",
    "Shows the modules of a Gradle workspace, what they depend on, cycles and the build order.",
    "",
    "  -h, --help           show this text",
    "  -o, --output FILE    write the report to a file",
    "      --format FORMAT  json (the default) or yaml",
    "      --module NAME    also list all that a module depends on",
    "      --strict         treat references that are not resolved as errors",
    "  -v, --verbose        show all messages"]

/-- The names of the files whose content matters. -/
def contentNames : List String :=
  buildFileNames ++ settingsFileNames ++ Config.sources.map (·.1)

/-- The content of a file; one that cannot be read is taken for a file without text. -/
def contentOf (path : Path) : IO ByteArray := do
  if contentNames.contains path.name then
    try IO.FS.readBinFile path.text catch _ => return ⟨#[0xFF]⟩
  else return .empty

/-- Adds the members of a directory to a snapshot.  Directories that are never looked at stay
empty, links to files become files, and links to directories stay links. -/
partial def addMembers (tree : FileTree) (directory : List String) : IO FileTree := do
  let mut tree := tree
  let here ← IO.FS.realPath (Path.absolute directory).text
  for entry in ← here.readDir do
    let place := directory ++ [entry.fileName]
    let path := Path.absolute place
    if (← entry.path.symlinkMetadata).type == .symlink then
      if ← entry.path.isDir then
        tree := tree.putLink place (← IO.FS.realPath path.text).toString
      else if ← entry.path.pathExists then tree := tree.putFile place (← contentOf path)
    else if ← entry.path.isDir then
      tree := tree.putDirectory place
      unless isSkipped [] entry.fileName do tree ← addMembers tree place
    else tree := tree.putFile place (← contentOf path)
  return tree

/-- Shows messages from a level on. -/
def showMessages (shownFrom : Level) (messages : List Message) : IO Unit := do
  for message in messagesFrom shownFrom messages do IO.eprintln message.text

/-- Writes a report where it is wanted. -/
def writeReport (output : Option Path) (text : String) : IO Unit :=
  match output with
  | none => IO.print text
  | some path => do
    IO.FS.createDirAll path.parent.text
    IO.FS.writeFile path.text text

/-- Examines the workspace at a path without links. -/
def examineAt (options : Options) (valueless : List Switch) : IO Nat := do
  let place := options.workspace.segments
  let tree ← addMembers (FileTree.empty.putDirectory place) place
  match examine tree options with
  | .error failure => throw (IO.userError failure.message)
  | .ok found =>
    showMessages options.shownFrom found.before
    match found.lacking? valueless with
    | some switch =>
      IO.eprint (lines [Reply.noValueText switch])
      return statusInvalid
    | none =>
      for text in found.report do writeReport options.output text
      showMessages options.shownFrom found.after
      return found.status

/-- Runs the program and gives its exit status. -/
def execute (arguments : List String) : IO Nat :=
  match Request.ofArguments? arguments with
  | none => do
    IO.eprint usage
    return statusUsage
  | some .help => do
    IO.print usage
    return statusOk
  | some (.run options valueless) => do
    let real? ← try pure (some (← IO.FS.realPath options.workspace.text)) catch _ => pure none
    match real? with
    | some real =>
      if ← real.isDir then
        return ← examineAt { options with workspace := .ofText real.toString } valueless
    | none => pure ()
    IO.eprint (lines [Reply.noDirectoryText options.workspace])
    return statusUsage

end GradleWorkspace.Command

/-- Runs the program with the arguments of the command line. -/
def main (arguments : List String) : IO UInt32 :=
  return (← GradleWorkspace.Command.execute arguments).toUInt32
