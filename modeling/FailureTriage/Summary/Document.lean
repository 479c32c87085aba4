import FailureTriage.Failure.Assertion
import FailureTriage.Failure.Location
import FailureTriage.Failure.Record
import FailureTriage.Names.Map
import FailureTriage.Source.Window
import FailureTriage.Suite.Count

/-!
# Error summaries

A document that describes a test run by itself: the totals, the status of each suite, and for each
failure where it happened, which values differed, and the source around the test method.
-/

namespace FailureTriage

/-- What a summary says about itself. -/
structure SummaryMetadata where
  /-- The local time at which the summary was made. -/
  generatedAt : String
  reportsDirectory : Path
  totalSuites : Nat

/-- The counts of a whole test run. -/
structure SummaryTotals where
  totalTests : UInt32
  totalFailures : UInt32
  totalErrors : UInt32
  totalSkipped : UInt32
  totalTime : Float
  successfulTests : UInt32
  /-- The share of successful tests in percent. -/
  successRate : Float

/-- What a summary says about one failure. -/
structure FailureSummary where
  testClass : String
  testMethod : String
  failureType : String
  kind : FailureKind
  executionTime : Float
  message : String
  stackTrace : String
  location : Option FailureLocation
  assertion : Option Assertion
  systemOut : String
  systemErr : String
  testSource : SourceContext
  /-- An excerpt of the failure text, if it says more than the message. -/
  rawExcerpt : Option String

/-- What a summary says about one suite. -/
structure SuiteSummary where
  name : String
  reportFile : Path
  tests : UInt32
  failureCount : UInt32
  errors : UInt32
  skipped : UInt32
  time : Float
  status : String
  failures : List FailureSummary
  environment : NameMap
  logExcerpt : Option String

/-- What is asked of the reader of a summary. -/
structure Guidance where
  prompt : String :=
    "Analyze the failing Maven Surefire tests, explain the root cause for each failure, "
      ++ "recommend precise code/configuration fixes, and highlight regression risks or "
      ++ "missing test coverage."
  suggestedSteps : List String := [
    "Review each failure entry, paying attention to stack traces and assertion details.",
    "Use the source context to pinpoint the code under test and propose updates.",
    "Validate whether external dependencies, data fixtures, or configuration need adjustments.",
    "Recommend additional tests or assertions to prevent future regressions."]

/-- The summary of a test run. -/
structure ErrorSummary where
  metadata : SummaryMetadata
  totals : SummaryTotals
  suites : List SuiteSummary
  guidance : Guidance := {}

/-- Every failure, in report order. -/
def ErrorSummary.failures (summary : ErrorSummary) : List FailureSummary :=
  summary.suites.flatMap (·.failures)

/-- How many failures and errors the summary counts. -/
def ErrorSummary.failing (summary : ErrorSummary) : Except TriageFault UInt32 :=
  Count.add summary.totals.totalFailures summary.totals.totalErrors

open Json in
instance : JsonCodec SummaryMetadata where
  encode m := .object (
    member "generated_at" m.generatedAt ++ member "reports_directory" m.reportsDirectory ++
    member "total_suites" m.totalSuites)
  decode? json := do
    let [generatedAt, reportsDirectory, totalSuites] ← fields? [
        must "generated_at", must "reports_directory", must "total_suites"] json
      | none
    some {
      generatedAt := ← required generatedAt
      reportsDirectory := ← required reportsDirectory
      totalSuites := ← required totalSuites }

open Json in
instance : JsonCodec SummaryTotals where
  encode t := .object (
    member "total_tests" t.totalTests ++ member "total_failures" t.totalFailures ++
    member "total_errors" t.totalErrors ++ member "total_skipped" t.totalSkipped ++
    member "total_time_seconds" t.totalTime ++ member "successful_tests" t.successfulTests ++
    member "success_rate_percent" t.successRate)
  decode? json := do
    let [tests, failures, errors, skipped, time, successful, rate] ← fields? [
        must "total_tests", must "total_failures", must "total_errors", must "total_skipped",
        must "total_time_seconds", must "successful_tests", must "success_rate_percent"] json
      | none
    some {
      totalTests := ← required tests
      totalFailures := ← required failures
      totalErrors := ← required errors
      totalSkipped := ← required skipped
      totalTime := ← required time
      successfulTests := ← required successful
      successRate := ← required rate }

open Json in
instance : JsonCodec FailureSummary where
  encode f := .object (
    member "test_class" f.testClass ++ member "test_method" f.testMethod ++
    member "failure_type" f.failureType ++ member "failure_category" f.kind ++
    member "execution_time_seconds" f.executionTime ++ member "failure_message" f.message ++
    member "stack_trace" f.stackTrace ++ member "failure_location" f.location ++
    member "assertion_details" f.assertion ++ member "system_out_excerpt" f.systemOut ++
    member "system_err_excerpt" f.systemErr ++ member "test_source" f.testSource ++
    memberIfSome "raw_failure_excerpt" f.rawExcerpt)
  decode? json := do
    let [testClass, testMethod, failureType, kind, time, message, stackTrace, location,
        assertion, systemOut, systemErr, testSource, rawExcerpt] ← fields? [
          must "test_class", must "test_method", must "failure_type",
          must "failure_category", must "execution_time_seconds", must "failure_message",
          must "stack_trace", must "failure_location", must "assertion_details",
          must "system_out_excerpt", must "system_err_excerpt", must "test_source",
          may "raw_failure_excerpt"] json
      | none
    some {
      testClass := ← required testClass
      testMethod := ← required testMethod
      failureType := ← required failureType
      kind := ← required kind
      executionTime := ← required time
      message := ← required message
      stackTrace := ← required stackTrace
      location := ← nullable location
      assertion := ← nullable assertion
      systemOut := ← required systemOut
      systemErr := ← required systemErr
      testSource := ← required testSource
      rawExcerpt := ← nullable rawExcerpt }

open Json in
instance : JsonCodec SuiteSummary where
  encode s := .object (
    member "name" s.name ++ member "report_file" s.reportFile ++ member "tests" s.tests ++
    member "failure_count" s.failureCount ++ member "errors" s.errors ++
    member "skipped" s.skipped ++ member "time_seconds" s.time ++ member "status" s.status ++
    member "failures" s.failures ++
    (if s.environment.isEmpty then [] else member "environment" s.environment) ++
    memberIfSome "suite_log_excerpt" s.logExcerpt)
  decode? json := do
    let [name, reportFile, tests, failureCount, errors, skipped, time, status, failures,
        environment, logExcerpt] ← fields? [
          must "name", must "report_file", must "tests", must "failure_count", must "errors",
          must "skipped", must "time_seconds", must "status", must "failures",
          may "environment", may "suite_log_excerpt"] json
      | none
    some {
      name := ← required name
      reportFile := ← required reportFile
      tests := ← required tests
      failureCount := ← required failureCount
      errors := ← required errors
      skipped := ← required skipped
      time := ← required time
      status := ← required status
      failures := ← required failures
      environment := ← withDefault ∅ environment
      logExcerpt := ← nullable logExcerpt }

open Json in
instance : JsonCodec Guidance where
  encode g := .object (member "prompt" g.prompt ++ member "suggested_steps" g.suggestedSteps)
  decode? json := do
    let [prompt, steps] ← fields? [must "prompt", must "suggested_steps"] json | none
    some { prompt := ← required prompt, suggestedSteps := ← required steps }

open Json in
instance : JsonCodec ErrorSummary where
  encode s := .object (
    member "metadata" s.metadata ++ member "summary" s.totals ++ member "suites" s.suites ++
    member "analysis_guidance" s.guidance)
  decode? json := do
    let [metadata, totals, suites, guidance] ← fields? [
        must "metadata", must "summary", must "suites", must "analysis_guidance"] json
      | none
    some {
      metadata := ← required metadata
      totals := ← required totals
      suites := ← required suites
      guidance := ← required guidance }

end FailureTriage
