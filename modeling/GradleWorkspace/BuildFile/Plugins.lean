import GradleWorkspace.Dialect
import GradleWorkspace.BuildFacts
import GradleWorkspace.Script.Scan

/-!
# Plugin declarations

In Groovy, `id 'java'`, `id('java')` and `apply plugin: 'java'`.  In Kotlin, `id("java")` and
the shorthand `kotlin("jvm")`.
-/

namespace GradleWorkspace.BuildFile

open Script

/-- The declaration `id 'java'` or `id('java')`. -/
def readPluginCommand : Reader (List Char) := fun text => do
  let text ← after "id" text
  literal (optionalOpening text)

/-- The declaration `apply plugin: 'java'`. -/
def readPluginApplication : Reader (List Char) := fun text => do
  let text ← after "apply" text
  let text ← afterBlanks text
  let text ← after "plugin" text
  let text ← afterSpaced ":" text
  literal text

/-- The forms in which a dialect declares plugins. -/
def pluginForms : Dialect → List (Reader (List Char))
  | .groovy => [readPluginCommand, readPluginApplication]
  | .kotlin => [call "id" literal, call "kotlin" literal]

/-- The plugins that a script declares: all of the first form, then all of the second. -/
def plugins (dialect : Dialect) (script : List Char) : List String :=
  withoutRepeats <| (pluginForms dialect).flatMap fun form =>
    (findValues isNameBorder form script).map String.ofList

end GradleWorkspace.BuildFile
