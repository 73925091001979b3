import GradleWorkspace.Text.Quoted

/-!
# Dialects

A build or settings file is written in one of two dialects, which differ in the surface syntax
of their statements.  The name of the file tells which one it is.
-/

namespace GradleWorkspace

/-- The language that a build or settings file is written in. -/
inductive Dialect
  | groovy
  | kotlin
  deriving DecidableEq, Repr

namespace Dialect

/-- The name of a dialect in reports. -/
def name : Dialect → String
  | groovy => "groovy"
  | kotlin => "kotlin"

/-- The dialect with a given name. -/
def ofName? (name : String) : Option Dialect :=
  if name = groovy.name then some groovy
  else if name = kotlin.name then some kotlin
  else none

/-- The dialect of the file with a given name: Kotlin if the name ends in `.kts`. -/
def ofFileName (fileName : String) : Dialect :=
  if ".kts".toList.isSuffixOf fileName.toList then kotlin else groovy

end Dialect

/-- A dialect was asked for by a name that no dialect has. -/
inductive UnknownDialect
  | ofBuildFile (name : String)
  | ofSettingsFile (name : String)
  deriving DecidableEq, Repr

/-- The text that reports an unknown dialect. -/
def UnknownDialect.message : UnknownDialect → String
  | ofBuildFile name => "Unknown build file dialect: " ++ Text.quoted name
  | ofSettingsFile name => "Unknown settings file dialect: " ++ Text.quoted name

end GradleWorkspace
