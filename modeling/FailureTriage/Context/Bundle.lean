import FailureTriage.Failure.Assertion
import FailureTriage.Failure.Location
import FailureTriage.Failure.Record
import FailureTriage.Names.Set
import FailureTriage.Source.Suspicion
import FailureTriage.Source.Window
import FailureTriage.Timestamp

/-!
# Failure contexts

Everything that is known about one failing test: where its source is, which production sources it
may have to do with, and which of their lines are suspicious.
-/

namespace FailureTriage

/-- A production source that may have to do with a failure. -/
structure RelatedSource where
  path : Path
  /-- The text of the file; empty if it could not be read. -/
  content : String
  suspicions : List Suspicion := []

namespace RelatedSource

/-- The last component of the path, or the whole path if that is no name. -/
def fileName (source : RelatedSource) : String :=
  source.path.fileName?.getD source.path.text

end RelatedSource

/-- The context of one failing test. -/
structure FailureContext where
  failure : FailureRecord
  /-- The window around the test method. -/
  testSource : SourceContext
  /-- The related production sources, in the order in which they were discovered. -/
  related : List RelatedSource
  /-- The types that the test depends on. -/
  dependencies : NameSet := ∅
  assertion : Option Assertion := none
  location : Option FailureLocation := none
  generatedAt : Timestamp

namespace FailureContext

/-- Every suspicion, with the path of the source that it is about. -/
def suspicions (context : FailureContext) : List (Path × Suspicion) :=
  context.related.flatMap fun source => source.suspicions.map fun s => (source.path, s)

/-- The suspicions of at least a confidence, the most confident first. -/
def ranked (context : FailureContext) (least : Confidence) : List (Path × Suspicion) :=
  (context.suspicions.filter fun s => least.rank ≤ s.2.confidence.rank).mergeSort
    fun a b => b.2.confidence.rank ≤ a.2.confidence.rank

/-- What the context holds, on one line. -/
def summary (context : FailureContext) : String :=
  let found := if context.testSource.found then "found" else "missing"
  s!"Bundle[{context.failure.summary}, test_source={found}, "
    ++ s!"related={context.related.length}, annotations={context.suspicions.length}]"

end FailureContext

open Json in
instance : JsonCodec RelatedSource where
  encode s := .object (
    member "path" s.path ++ member "content" s.content ++
    memberIfAny "annotations" s.suspicions)
  decode? json := do
    let [path, content, suspicions] ← fields? [
        must "path", must "content", may "annotations"] json
      | none
    some {
      path := ← required path
      content := ← required content
      suspicions := ← withDefault [] suspicions }

open Json in
instance : JsonCodec FailureContext where
  encode c := .object (
    member "failure" c.failure ++ member "test_source" c.testSource ++
    member "related" c.related ++ member "dependencies" c.dependencies ++
    memberIfSome "assertion" c.assertion ++ memberIfSome "location" c.location ++
    member "generated_at" c.generatedAt)
  decode? json := do
    let [failure, testSource, related, dependencies, assertion, location, generatedAt] ← fields? [
        must "failure", must "test_source", must "related", may "dependencies",
        may "assertion", may "location", must "generated_at"] json
      | none
    some {
      failure := ← required failure
      testSource := ← required testSource
      related := ← required related
      dependencies := ← withDefault ∅ dependencies
      assertion := ← nullable assertion
      location := ← nullable location
      generatedAt := ← required generatedAt }

end FailureTriage
