import FailureTriage.Fault
import FailureTriage.Files.Walk
import FailureTriage.Log
import FailureTriage.Suite.Document
import FailureTriage.Suite.Log
import FailureTriage.Suite.Totals
import FailureTriage.Text.Excerpt

/-!
# Reports directories

Reading every report of a directory.  A report that cannot be read is left out with a warning, and
the other reports are still read.

* `reportFiles` are the reports of a directory, in the order of their paths.
* `readReport` reads one of them whole or not at all.
* `ReportSet.load` reads them all.
-/

namespace FailureTriage

/-- The most characters that are kept of the log of a suite. -/
def suiteLogLimit : Nat := 2000

/-- An excerpt of the log that lies next to a report, if there is one. -/
def logExcerpt? (files : FileTree) (reportFile : Path) (limit : Nat) : Option String := do
  let log ← suiteLogPath? reportFile
  if !files.isFile log then none
  match files.read log with
  | .ok content => some (String.ofList (Text.excerpt limit (Utf8.decodeLossy content).toList))
  | .error fault => some s!"Could not read suite log {log.text}: {fault.message}"

/-- Whether a file name is that of a report. -/
def isReportName (name : String) : Bool :=
  Text.startsWith "TEST-".toList name.toList && Text.endsWith ".xml".toList name.toList

/-- The reports directly in a directory, in the order of their paths. -/
def reportFiles (files : FileTree) (dir : Path) : Except FileFault (List Path) := do
  let paths := (← files.list dir).map fun name => dir.join ⟨name⟩
  return FileTree.sortPaths <| paths.filter fun path =>
    files.isFile path && (path.fileName?.map isReportName).getD false

/-- A suite with the properties that say something, and the excerpt of its log. -/
def TestSuite.complete (suite : TestSuite) (log : Option String) : TestSuite :=
  { suite with properties := TestSuite.keepRelevant suite.properties, logExcerpt := log }

/-- The suites of a report, or why there are none. -/
def readReport (files : FileTree) (path : Path) : Except TriageFault (List TestSuite) := do
  let content ← (files.read path).mapError .file
  let text ← (Utf8.decode content).mapError fun fault => .malformedReport path fault.message
  let suites ← (parseReport path text).mapError fun fault => .malformedReport path fault.message
  let log := logExcerpt? files path suiteLogLimit
  return suites.map (·.complete log)

/-- The warning about a report that is left out. -/
def rejection (path : Path) (fault : TriageFault) : String :=
  if fault.isSkippable then fault.message
  else s!"Could not read {path.text}: {fault.message}"

/-- The suites of a report; none, and a warning, if it cannot be read. -/
def suitesOrWarning (files : FileTree) (path : Path) : Logged (List TestSuite) :=
  match readReport files path with
  | .ok suites => pure suites
  | .error fault => do
    Logged.warn (rejection path fault)
    return []

/-- The set with the suites of several reports, up to the one whose counts cannot be added. -/
def ReportSet.takeIn (files : FileTree) (set : ReportSet) :
    List Path → Logged (Except TriageFault ReportSet)
  | [] => pure (.ok set)
  | path :: rest => do
    let suites ← suitesOrWarning files path
    match set.pushAll suites with
    | .ok set => takeIn files set rest
    | .error fault => return .error fault

/-- All suites of the reports in a directory; a fault if there is no report. -/
def ReportSet.load (files : FileTree) (dir : Path) : Logged (Except TriageFault ReportSet) :=
  if !files.isDirectory dir then pure (.error (.reportsDirNotFound dir))
  else match reportFiles files dir with
    | .error fault => pure (.error (.file fault))
    | .ok [] => pure (.error (.noReports dir))
    | .ok paths => do
      Logged.info s!"Found {paths.length} test report files"
      ReportSet.takeIn files { reportsDir := dir } paths

end FailureTriage
