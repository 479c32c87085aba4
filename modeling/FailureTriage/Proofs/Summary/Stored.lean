import FailureTriage.Proofs.Json.Laws
import FailureTriage.Summary.Document

/-!
# Summaries that are read back

A summary comes back from its own text exactly if all its numbers do.

* `ErrorSummary.floats`, `ErrorSummary.sizes`: the numbers of a summary that may get lost.
* `storable_summary`: a summary comes back if the former are finite and the latter words.
-/

namespace FailureTriage

open Json

/-! ## What a failure says -/

instance : LawfulCodec FailureKind where
  Storable _ := True
  decode?_reread_iff kind found := by
    have hkind : decode? (encode kind).reread = some kind := by cases kind <;> rfl
    rw [hkind, Option.some.injEq, true_and]

instance : NeverNull FailureLocation where
  reread_ne_null _ := nofun

instance : LawfulCodec FailureLocation where
  Storable _ := True
  decode?_reread_iff l found := by
    rw [show decode? (encode l).reread = _ from decode?_record (by decide) [
      stored l.file, stored l.line, stored l.stackLine] rfl (by simp)]
    simp

instance : NeverNull Assertion where
  reread_ne_null _ := nofun

instance : LawfulCodec Assertion where
  Storable _ := True
  decode?_reread_iff a found := by
    rw [show decode? (encode a).reread = _ from decode?_record (by decide) [
      stored a.expected, stored a.actual] rfl (by simp)]
    simp

instance : LawfulCodec SourceContext where
  Storable c := Storable c.startLine ∧ Storable c.endLine
  decode?_reread_iff c found := by
    rw [show decode? (encode c).reread = _ from decode?_record (by decide) [
      stored c.found, stored c.path, storedIfSome c.signature, storedIfSome c.startLine,
      storedIfSome c.endLine, stored c.context, storedUnless c.searched.isEmpty c.searched,
      storedUnless c.notes.isEmpty c.notes] rfl (by simp)]
    simp [and_assoc]

/-- The line numbers of a source context. -/
def SourceContext.sizes (c : SourceContext) : List Nat :=
  c.startLine.toList ++ c.endLine.toList

@[simp] theorem storable_failureKind (kind : FailureKind) : Storable kind ↔ True := Iff.rfl
@[simp] theorem storable_location (l : FailureLocation) : Storable l ↔ True := Iff.rfl
@[simp] theorem storable_assertion (a : Assertion) : Storable a ↔ True := Iff.rfl

@[simp] theorem storable_sourceContext (c : SourceContext) :
    Storable c ↔ ∀ n ∈ c.sizes, n ≤ Text.maxWord64 := by
  show Storable c.startLine ∧ Storable c.endLine ↔ _
  simp only [SourceContext.sizes, List.forall_mem_append, Option.mem_toList]
  exact Iff.rfl

/-! ## The parts of a summary -/

instance : LawfulCodec SummaryMetadata where
  Storable m := Storable m.totalSuites
  decode?_reread_iff m found := by
    rw [show decode? (encode m).reread = _ from decode?_record (by decide) [
      stored m.generatedAt, stored m.reportsDirectory, stored m.totalSuites] rfl (by simp)]
    simp

instance : LawfulCodec SummaryTotals where
  Storable t := Storable t.totalTime ∧ Storable t.successRate
  decode?_reread_iff t found := by
    rw [show decode? (encode t).reread = _ from decode?_record (by decide) [
      stored t.totalTests, stored t.totalFailures, stored t.totalErrors, stored t.totalSkipped,
      stored t.totalTime, stored t.successfulTests, stored t.successRate] rfl (by simp)]
    simp [and_assoc]

instance : LawfulCodec FailureSummary where
  Storable f := Storable f.executionTime ∧ Storable f.testSource
  decode?_reread_iff f found := by
    rw [show decode? (encode f).reread = _ from decode?_record (by decide) [
      stored f.testClass, stored f.testMethod, stored f.failureType, stored f.kind,
      stored f.executionTime, stored f.message, stored f.stackTrace, stored f.location,
      stored f.assertion, stored f.systemOut, stored f.systemErr, stored f.testSource,
      storedIfSome f.rawExcerpt] rfl (by simp)]
    simp [and_assoc]

@[simp] theorem storable_failureSummary (f : FailureSummary) :
    Storable f ↔ f.executionTime.isFinite = true ∧ ∀ n ∈ f.testSource.sizes, n ≤ Text.maxWord64 :=
  and_congr Iff.rfl (storable_sourceContext f.testSource)

instance : LawfulCodec SuiteSummary where
  Storable s := Storable s.time ∧ Storable s.failures
  decode?_reread_iff s found := by
    rw [show decode? (encode s).reread = _ from decode?_record (by decide) [
      stored s.name, stored s.reportFile, stored s.tests, stored s.failureCount, stored s.errors,
      stored s.skipped, stored s.time, stored s.status, stored s.failures,
      storedUnless s.environment.isEmpty s.environment, storedIfSome s.logExcerpt] rfl (by simp)]
    simp [and_assoc]

instance : LawfulCodec Guidance where
  Storable _ := True
  decode?_reread_iff g found := by
    rw [show decode? (encode g).reread = _ from decode?_record (by decide) [
      stored g.prompt, stored g.suggestedSteps] rfl (by simp)]
    simp

@[simp] theorem storable_metadata (m : SummaryMetadata) :
    Storable m ↔ m.totalSuites ≤ Text.maxWord64 := Iff.rfl
@[simp] theorem storable_totals (t : SummaryTotals) :
    Storable t ↔ t.totalTime.isFinite = true ∧ t.successRate.isFinite = true := Iff.rfl
@[simp] theorem storable_suite (s : SuiteSummary) :
    Storable s ↔ s.time.isFinite = true ∧ ∀ failure ∈ s.failures, Storable failure := Iff.rfl
@[simp] theorem storable_guidance (g : Guidance) : Storable g ↔ True := Iff.rfl

/-! ## Summaries -/

instance : LawfulCodec ErrorSummary where
  Storable s := Storable s.metadata ∧ Storable s.totals ∧ Storable s.suites
  decode?_reread_iff s found := by
    rw [show decode? (encode s).reread = _ from decode?_record (by decide) [
      stored s.metadata, stored s.totals, stored s.suites, stored s.guidance] rfl (by simp)]
    simp [and_assoc]

namespace ErrorSummary

/-- The binary numbers of a summary. -/
def floats (s : ErrorSummary) : List Float :=
  s.totals.totalTime :: s.totals.successRate :: s.suites.flatMap fun suite =>
    suite.time :: suite.failures.map (·.executionTime)

/-- The sizes and positions of a summary. -/
def sizes (s : ErrorSummary) : List Nat :=
  s.metadata.totalSuites :: s.suites.flatMap fun suite =>
    suite.failures.flatMap (·.testSource.sizes)

end ErrorSummary

/-- **A summary** comes back if its binary numbers are finite and its sizes are words. -/
theorem storable_summary (s : ErrorSummary) :
    Storable s ↔ (∀ x ∈ s.floats, x.isFinite = true) ∧ ∀ n ∈ s.sizes, n ≤ Text.maxWord64 := by
  have hsuite (suite : SuiteSummary) : Storable suite
      ↔ (∀ x ∈ suite.time :: suite.failures.map (·.executionTime), x.isFinite = true)
        ∧ ∀ n ∈ suite.failures.flatMap (·.testSource.sizes), n ≤ Text.maxWord64 := by
    simp only [storable_suite, storable_failureSummary, List.forall_mem_cons, List.forall_mem_map,
      List.forall_mem_flatMap, forall_and, and_assoc]
  show Storable s.metadata ∧ Storable s.totals ∧ Storable s.suites ↔ _
  rw [storable_metadata, storable_totals, storable_list, ErrorSummary.floats, ErrorSummary.sizes]
  simp only [hsuite, List.forall_mem_cons, List.forall_mem_flatMap, imp_and, forall_and]
  tauto

end FailureTriage
