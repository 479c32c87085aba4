import FailureTriage.Failure.Record
import FailureTriage.Names.Map
import FailureTriage.Suite.Count

/-!
# Test suites

One suite of a test report, with its counts and its failing test cases.
-/

namespace FailureTriage

/-- One suite of a test report. -/
structure TestSuite where
  name : String
  tests : UInt32 := 0
  failures : UInt32 := 0
  errors : UInt32 := 0
  skipped : UInt32 := 0
  /-- The duration of the suite in seconds. -/
  time : Float := 0.0
  /-- The file that the suite was read from. -/
  reportFile : Path
  /-- The failing test cases in document order. -/
  testFailures : List FailureRecord := []
  /-- The properties of the environment. -/
  properties : NameMap := ∅
  /-- An excerpt of the log that lies next to the report. -/
  logExcerpt : Option String := none

namespace TestSuite

/-- Whether the suite counts no failure and no error. -/
def passed (suite : TestSuite) : Except TriageFault Bool := do
  let failing ← Count.add suite.failures suite.errors
  return failing == 0

/-- The word for the outcome of the suite. -/
def status (suite : TestSuite) : Except TriageFault String := do
  if ← suite.passed then return "PASSED" else return "FAILED"

/-- The names of the properties that say something about a failure. -/
def relevantProperties : List String :=
  ["java.version", "java.vendor", "os.name", "os.version", "os.arch", "user.dir",
    "user.language", "user.country", "basedir", "spring.profiles.active"]

/-- The properties that say something about a failure. -/
def keepRelevant (properties : NameMap) : NameMap :=
  properties.filterNames relevantProperties.contains

end TestSuite

open Json in
instance : JsonCodec TestSuite where
  encode s := .object (
    member "name" s.name ++ member "tests" s.tests ++ member "failures" s.failures ++
    member "errors" s.errors ++ member "skipped" s.skipped ++ member "time_secs" s.time ++
    member "report_file" s.reportFile ++ member "test_failures" s.testFailures ++
    (if s.properties.isEmpty then [] else member "properties" s.properties) ++
    memberIfSome "log_excerpt" s.logExcerpt)
  decode? json := do
    let [name, tests, failures, errors, skipped, time, reportFile, testFailures, properties,
        logExcerpt] ← fields? [
          must "name", must "tests", must "failures", must "errors", must "skipped",
          must "time_secs", must "report_file", must "test_failures", may "properties",
          may "log_excerpt"] json
      | none
    some {
      name := ← required name
      tests := ← required tests
      failures := ← required failures
      errors := ← required errors
      skipped := ← required skipped
      time := ← required time
      reportFile := ← required reportFile
      testFailures := ← required testFailures
      properties := ← withDefault ∅ properties
      logExcerpt := ← nullable logExcerpt }

end FailureTriage
