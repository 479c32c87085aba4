import FailureTriage.Files.Walk
import FailureTriage.Source.Layout
import FailureTriage.Source.Window

/-!
# Workspaces

The files of a project together with what is known of their layout.

* `Workspace.sourceRoots` are the directories in which production sources are looked for.
* `Workspace.testCandidates` are the places where a test class may be.
-/

namespace FailureTriage

/-- The files of a project, their layout, and how large a window into a source is. -/
structure Workspace where
  files : FileTree
  layout : SourceLayout
  window : Window

namespace Workspace

/-- The list with one more path, if it holds none with the same components. -/
def addNew (paths : List Path) (path : Path) : List Path :=
  if paths.any path.same then paths else paths ++ [path]

/-- Where a source root may be: at each end of each start, seen from the base directory. -/
def rootCandidates (layout : SourceLayout) : List Path :=
  layout.sourceRootPrefixes.flatMap fun start =>
    layout.sourceRootSuffixes.map fun stop =>
      layout.resolve (if start = "." || start = "" then ⟨stop⟩ else Path.join ⟨start⟩ ⟨stop⟩)

/-- The source roots that are directories, each once. -/
def sourceRoots (w : Workspace) : List Path :=
  ((rootCandidates w.layout).filter w.files.isDirectory).foldl addNew []

/-- The relative path of the source of a class, or the directory of a package. -/
def relativePath (name : String) : String :=
  String.ofList (name.toList.map fun c => if c = '.' then '/' else c)

/-- The relative path of the file with the source of a class. -/
def sourceFileOf (layout : SourceLayout) (className : String) : Path :=
  ⟨s!"{relativePath className}.{layout.sourceExtension}"⟩

/-- Where the source of a test class may be, the first choice first. -/
def testCandidates (w : Workspace) (testClass : String) : List Path :=
  w.layout.testRoots.map fun root =>
    (w.layout.resolve ⟨root⟩).join (sourceFileOf w.layout testClass)

end Workspace

end FailureTriage
