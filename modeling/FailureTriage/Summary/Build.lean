import FailureTriage.Decimal.Whole
import FailureTriage.Failure.Output
import FailureTriage.Source.TestSource
import FailureTriage.Suite.Totals
import FailureTriage.Summary.Document

/-!
# Making a summary

The summary of the reports of a test run, with the source around each failing test method.
-/

namespace FailureTriage

namespace ErrorSummary

/-- The most characters of an excerpt. -/
def excerptLimit : Nat := 400

/-- An excerpt of the text of a failure, if it says more than the message. -/
def rawExcerpt? (failure : FailureRecord) : Option String :=
  let raw := Text.trim failure.rawText.toList
  if raw = [] || raw = failure.message.toList then none
  else some (String.ofList (Text.excerpt excerptLimit raw))

/-- What the summary says about a failure. -/
def describe (w : Workspace) (failure : FailureRecord) : Logged FailureSummary := do
  let compared := if failure.message = "" then failure.rawText else failure.message
  let testSource ← w.locateTest failure.testClass failure.testMethod
  return {
    testClass := failure.testClass
    testMethod := failure.testMethod
    failureType := failure.failureType
    kind := failure.kind
    executionTime := Decimal.toThousandths failure.duration
    message := failure.message
    stackTrace := failure.stackTrace
    location := FailureLocation.ofStackTrace? failure.stackTrace
    assertion := Assertion.ofMessage? compared
    systemOut := Output.relevantLog excerptLimit failure.systemOut
    systemErr := Output.relevantLog excerptLimit failure.systemErr
    testSource := testSource
    rawExcerpt := rawExcerpt? failure }

/-- What the summary says about a suite. -/
def describeSuite (w : Workspace) (suite : TestSuite) :
    Logged (Except TriageFault SuiteSummary) :=
  match suite.status with
  | .error fault => pure (.error fault)
  | .ok status => do
    let failures ← Logged.forEach (describe w) suite.testFailures
    return .ok {
      name := suite.name
      reportFile := suite.reportFile
      tests := suite.tests
      failureCount := suite.failures
      errors := suite.errors
      skipped := suite.skipped
      time := Decimal.toThousandths suite.time
      status := status
      failures := failures
      environment := suite.properties
      logExcerpt := suite.logExcerpt }

/-- The totals of a test run. -/
def totalsOf (reports : ReportSet) : SummaryTotals where
  totalTests := reports.totalTests
  totalFailures := reports.totalFailures
  totalErrors := reports.totalErrors
  totalSkipped := reports.totalSkipped
  totalTime := Decimal.toThousandths reports.totalTime
  successfulTests := reports.successCount
  successRate := Decimal.toHundredths reports.successRate

/-- The summary of the reports of a test run, made at a local time. -/
def build (w : Workspace) (now : String) (reports : ReportSet) :
    Logged (Except TriageFault ErrorSummary) := do
  let described ← Logged.tryEach (describeSuite w) reports.suites
  return described.map fun suites => {
    metadata := {
      generatedAt := now
      reportsDirectory := reports.reportsDir
      totalSuites := reports.suites.length }
    totals := totalsOf reports
    suites := suites }

end ErrorSummary

/--
The failure that a summary describes, so far as the summary tells: its duration is rounded, and its
output and its text are excerpts.
-/
def FailureSummary.toRecord (failure : FailureSummary) : FailureRecord where
  testClass := failure.testClass
  testMethod := failure.testMethod
  kind := failure.kind
  failureType := failure.failureType
  message := failure.message
  stackTrace := failure.stackTrace
  duration := failure.executionTime
  systemOut := failure.systemOut
  systemErr := failure.systemErr
  rawText := failure.rawExcerpt.getD ""

end FailureTriage
