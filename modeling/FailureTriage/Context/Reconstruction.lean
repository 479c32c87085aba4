import FailureTriage.Context.Bundle
import FailureTriage.Context.SourceReader
import FailureTriage.Source.Related
import FailureTriage.Source.TestSource
import FailureTriage.Suite.Totals

/-!
# Reconstructing contexts

The context of a failure is put together from the files of the workspace: the window around the
test method, the related sources, and their suspicious lines.  Nothing is carried over from one
failure to the next.
-/

namespace FailureTriage.Workspace

/-- A related source with its suspicious lines, so far as the failure compares two values. -/
def relatedSource (assertion : Option Assertion) (path : Path) (content : String) :
    RelatedSource where
  path := path
  content := content
  suspicions := match assertion with
    | some a => Suspicion.scan content a.expected a.actual
    | none => []

/-- The context of one failure. -/
def reconstruct (w : Workspace) (now : Timestamp) (failure : FailureRecord) :
    Logged FailureContext := do
  Logged.info s!"Reconstructing context for {failure.summary}"
  let testSource ← w.locateTest failure.testClass failure.testMethod
  let search ← w.relatedSearch failure (testSource.path.filter w.files.isFile)
  let assertion := Assertion.ofMessage? failure.message
  let sources ← SourceReader.readAll {} w.files search.paths
  let context : FailureContext := {
    failure := failure
    testSource := testSource
    related := sources.map fun (path, content) => relatedSource assertion path content
    dependencies := search.dependencies
    assertion := assertion
    location := FailureLocation.ofStackTrace? failure.stackTrace
    generatedAt := now }
  Logged.info context.summary
  return context

/-- The context of each failure, in order. -/
def reconstructEach (w : Workspace) (now : Timestamp) (failures : List FailureRecord) :
    Logged (List FailureContext) :=
  Logged.forEach (w.reconstruct now) failures

/-- The context of each failure of a test run, in report order. -/
def reconstructAll (w : Workspace) (now : Timestamp) (reports : ReportSet) :
    Logged (List FailureContext) :=
  w.reconstructEach now reports.failures

end FailureTriage.Workspace
