import FailureTriage.Dependency.Extraction
import FailureTriage.Failure.Record
import FailureTriage.Log
import FailureTriage.Source.Package
import FailureTriage.Source.Workspace
import FailureTriage.StackTrace

/-!
# Related sources

The production sources that a failure may have to do with: those whose names hold a name from the
test, those of the types that the test depends on, and those in the packages that the test's
package stands beside.

* `Workspace.searchPatterns` are the names that are looked for.
* `Workspace.namedSources`, `Workspace.dependencySources` and `Workspace.packageSources` are the
  three ways to find a source.
* `Workspace.relatedSearch` puts them together; no file is listed twice, however it is reached.
-/

namespace FailureTriage

/-- The dependencies of a source file; none, and a warning, if it cannot be read. -/
def fileDependencies (files : FileTree) (path : Path) : Logged NameSet :=
  match files.readText path with
  | .ok text => pure (dependenciesOf text)
  | .error fault => do
    Logged.warn s!"Could not parse dependencies from {path.text}: {fault.message}"
    return ∅

/-- What a search for related sources looked for, and what it found. -/
structure RelatedSearch where
  /-- The types that the test and its stack trace mention. -/
  dependencies : NameSet
  stackClasses : StackClasses
  /-- The name of the test class without its test suffix. -/
  baseName : String
  /-- What the names of related files hold. -/
  patterns : List String
  /-- The files, in the order in which they were discovered. -/
  paths : List Path

namespace Workspace

/-- The list with one more pattern, unless that is empty or in the list. -/
def addPattern (patterns : List String) (pattern : String) : List String :=
  if pattern = "" || patterns.contains pattern then patterns else patterns ++ [pattern]

/-- The names that the names of related files may hold. -/
def searchPatterns (layout : SourceLayout) (baseName : String) (classes : StackClasses)
    (dependencies : NameSet) : List String :=
  let companions :=
    if baseName = "" then []
    else baseName :: layout.companionSuffixes.map fun suffix => baseName ++ suffix
  (companions ++ classes.simple ++ dependencies.simpleNames.names).foldl addPattern []

/-- Whether the file name of a path holds one of the patterns. -/
def nameHoldsAny (patterns : List String) (path : Path) : Bool :=
  match path.fileName? with
  | some name => patterns.any fun pattern => Text.contains pattern.toList name.toList
  | none => false

/-- The sources below the roots whose names hold one of the patterns. -/
def namedSources (w : Workspace) (roots : List Path) (patterns : List String) : List Path :=
  roots.flatMap fun root =>
    (w.files.sourceFiles root w.layout.sourceExtension).filter (nameHoldsAny patterns)

/-- The sources of classes that are named with their packages. -/
def dependencySources (w : Workspace) (roots : List Path) (classes : List String) : List Path :=
  classes.flatMap fun name =>
    (roots.map fun root => root.join (sourceFileOf w.layout name)).filter w.files.isFile

/-- The sources that lie directly in packages. -/
def packageSources (w : Workspace) (roots : List Path) (packages : List String) : List Path :=
  packages.flatMap fun package =>
    roots.flatMap fun root =>
      w.files.filesIn (root.join ⟨relativePath package⟩) w.layout.sourceExtension

/-- What tells two files apart: where they lie, or how they are spelled if that is not known. -/
def identity (w : Workspace) (path : Path) : List PathComponent :=
  match w.files.locate? path with
  | some place => .root :: place.map .name
  | none => path.components

/-- Whether two paths lead to one file. -/
def sameFile (w : Workspace) (a b : Path) : Bool :=
  w.identity a == w.identity b

/-- The list with one more path, if it holds none that leads to the same file. -/
def addFile (w : Workspace) (paths : List Path) (path : Path) : List Path :=
  if paths.any (w.sameFile path) then paths else paths ++ [path]

/-- The paths without those that lead to the file of an earlier one. -/
def distinctFiles (w : Workspace) (paths : List Path) : List Path :=
  paths.foldl w.addFile []

/-- Looks for the sources that a failure may have to do with. -/
def relatedSearch (w : Workspace) (failure : FailureRecord) (testFile : Option Path) :
    Logged RelatedSearch := do
  let imported ← match testFile with
    | some path => fileDependencies w.files path
    | none => pure ∅
  let classes := StackClasses.ofTrace w.layout.hasTestSuffix failure.stackTrace
  let dependencies := (imported.insertAll classes.simple).insertAll classes.qualified
  let baseName := w.layout.stripTestSuffix failure.simpleClassName
  let patterns := searchPatterns w.layout baseName classes dependencies
  let roots := w.sourceRoots
  let paths := w.distinctFiles (
    w.namedSources roots patterns ++ w.dependencySources roots dependencies.qualified ++
    w.packageSources roots (productionPackages failure.testClass))
  Logged.info s!"Found {paths.length} related source files for {failure.testClass}"
  return { dependencies, stackClasses := classes, baseName, patterns, paths }

end Workspace

end FailureTriage
