import GradleWorkspace.BuildFile.Plugins
import GradleWorkspace.BuildFile.Dependencies
import GradleWorkspace.BuildFile.Repositories
import GradleWorkspace.BuildFile.Properties

/-!
# Reading a build file

`BuildFile.parse` extracts the facts from the text of a build file.  It never fails on odd
text: a section that is not found is empty.

Plugins and properties are looked for outside the block `dependencies`, because there
`kotlin("stdlib")` is no plugin and `exclude(group = "…")` sets no property.
-/

namespace GradleWorkspace.BuildFile

open Script

/-- The facts that the text of a build file states. -/
def parse (dialect : Dialect) (text : String) : BuildFacts :=
  let script := stripComments text.toList
  let outside := withoutBlockBody "dependencies" script
  { plugins := plugins dialect outside
    dependencies := dependencies dialect script
    repositories := repositories script
    properties := .ofList <| propertyNames.filterMap fun name =>
      (property? name outside).map fun value => (name, value) }

/-- The facts that the text of a build file states, for a dialect given by its name. -/
def parseNamed (dialectName text : String) : Except UnknownDialect BuildFacts :=
  match Dialect.ofName? dialectName with
  | some dialect => .ok (parse dialect text)
  | none => .error (.ofBuildFile dialectName)

end GradleWorkspace.BuildFile
