import FailureTriage.Json.Codec
import FailureTriage.Text.Find

/-!
# Failure records

What a test report says about one failing test case.
-/

namespace FailureTriage

/-- Whether a test failed an assertion or ended in an exception. -/
inductive FailureKind where
  | failure
  | error
  deriving DecidableEq, Repr

namespace FailureKind

/-- The word for a kind, which is also the name of its element in a report. -/
def label : FailureKind → String
  | .failure => "failure"
  | .error => "error"

/-- The kind that a word stands for. -/
def ofLabel? (word : String) : Option FailureKind :=
  if word = "failure" then some .failure
  else if word = "error" then some .error
  else none

end FailureKind

instance : JsonCodec FailureKind where
  encode kind := .text kind.label
  decode? json := json.asLabel?.bind FailureKind.ofLabel?

/-- One failing test case. -/
structure FailureRecord where
  /-- The dotted name of the test class. -/
  testClass : String
  testMethod : String
  kind : FailureKind
  /-- The type of the exception or assertion. -/
  failureType : String
  message : String
  /-- The failure text without its first line. -/
  stackTrace : String
  /-- The duration of the test case in seconds. -/
  duration : Float
  /-- What the test case wrote to its standard output. -/
  systemOut : String
  /-- What the test case wrote to its standard error. -/
  systemErr : String
  /-- The whole failure text. -/
  rawText : String

namespace FailureRecord

/-- The last dotted segment of the class name. -/
def simpleClassName (failure : FailureRecord) : String :=
  String.ofList (Text.afterLast '.' failure.testClass.toList)

/-- The class, the method and the kind on one line. -/
def summary (failure : FailureRecord) : String :=
  failure.testClass ++ "#" ++ failure.testMethod ++ " [" ++ failure.kind.label ++ "]"

end FailureRecord

open Json in
instance : JsonCodec FailureRecord where
  encode f := .object (
    member "test_class" f.testClass ++ member "test_method" f.testMethod ++
    member "kind" f.kind ++ member "failure_type" f.failureType ++
    member "message" f.message ++ member "stack_trace" f.stackTrace ++
    member "duration_secs" f.duration ++ member "system_out" f.systemOut ++
    member "system_err" f.systemErr ++ member "raw_text" f.rawText)
  decode? json := do
    let [testClass, testMethod, kind, failureType, message, stackTrace, duration, systemOut,
        systemErr, rawText] ← fields? [
          must "test_class", must "test_method", must "kind", must "failure_type",
          must "message", must "stack_trace", must "duration_secs", may "system_out",
          may "system_err", may "raw_text"] json
      | none
    some {
      testClass := ← required testClass
      testMethod := ← required testMethod
      kind := ← required kind
      failureType := ← required failureType
      message := ← required message
      stackTrace := ← required stackTrace
      duration := ← required duration
      systemOut := ← withDefault "" systemOut
      systemErr := ← withDefault "" systemErr
      rawText := ← withDefault "" rawText }

end FailureTriage
