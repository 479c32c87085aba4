import FailureTriage.Suite.Basic

/-!
# Reports of a test run

All suites of one reports directory, with their counts added up.
-/

namespace FailureTriage

/-- The suites of a reports directory, and the sums of their counts. -/
structure ReportSet where
  reportsDir : Path
  suites : List TestSuite := []
  totalTests : UInt32 := 0
  totalFailures : UInt32 := 0
  totalErrors : UInt32 := 0
  totalSkipped : UInt32 := 0
  /-- The sum of the durations in seconds. -/
  totalTime : Float := 0.0

namespace ReportSet

/-- The reports of no directory. -/
def empty : ReportSet := { reportsDir := ⟨""⟩ }

/-- The set with one more suite, its counts added to the totals. -/
def push (set : ReportSet) (suite : TestSuite) : Except TriageFault ReportSet := do
  return { set with
    suites := set.suites ++ [suite]
    totalTests := ← Count.add set.totalTests suite.tests
    totalFailures := ← Count.add set.totalFailures suite.failures
    totalErrors := ← Count.add set.totalErrors suite.errors
    totalSkipped := ← Count.add set.totalSkipped suite.skipped
    totalTime := set.totalTime + suite.time }

/-- The set with more suites. -/
def pushAll (set : ReportSet) : List TestSuite → Except TriageFault ReportSet
  | [] => .ok set
  | suite :: rest => do
    let set ← set.push suite
    set.pushAll rest

/-- Every failing test case, in report order. -/
def failures (set : ReportSet) : List FailureRecord :=
  set.suites.flatMap (·.testFailures)

/-- Whether a failure or an error is counted. -/
def hasFailures (set : ReportSet) : Bool :=
  set.totalFailures > 0 || set.totalErrors > 0

/-- The difference of two counts, or zero if the second is larger. -/
def remaining (count taken : UInt32) : UInt32 :=
  if taken ≤ count then count - taken else 0

/-- How many tests neither failed nor ended in an error; a skipped test is one of them. -/
def successCount (set : ReportSet) : UInt32 :=
  remaining (remaining set.totalTests set.totalFailures) set.totalErrors

/-- The share of those tests in percent; zero if there were no tests. -/
def successRate (set : ReportSet) : Float :=
  if set.totalTests = 0 then 0.0
  else set.successCount.toNat.toFloat / set.totalTests.toNat.toFloat * 100.0

end ReportSet

open Json in
instance : JsonCodec ReportSet where
  encode s := .object (
    member "reports_dir" s.reportsDir ++ member "suites" s.suites ++
    member "total_tests" s.totalTests ++ member "total_failures" s.totalFailures ++
    member "total_errors" s.totalErrors ++ member "total_skipped" s.totalSkipped ++
    member "total_time_secs" s.totalTime)
  decode? json := do
    let [reportsDir, suites, tests, failures, errors, skipped, time] ← fields? [
        must "reports_dir", must "suites", must "total_tests", must "total_failures",
        must "total_errors", must "total_skipped", must "total_time_secs"] json
      | none
    some {
      reportsDir := ← required reportsDir
      suites := ← required suites
      totalTests := ← required tests
      totalFailures := ← required failures
      totalErrors := ← required errors
      totalSkipped := ← required skipped
      totalTime := ← required time }

end FailureTriage
