import FailureTriage.Proofs.Advice.ShownContext

/-!
# Contexts rebuilt from a summary

When the contexts of an analysis are missing, they are rebuilt from its summary, which has only an
excerpt of what a failing test wrote, and its duration rounded.  A reconstruction looks at none of
these, so the request for fixes stays the same.

* `FailureRecord.SameEvidence`: all that a reconstruction looks at.
* `Workspace.reconstruct_of_sameEvidence`: what depends on the rest of a failure.
* `Prompt.build_rebuilt`: the request from rebuilt contexts.
-/

namespace FailureTriage

/-- Whether two failures agree in all that a reconstruction looks at. -/
structure FailureRecord.SameEvidence (a b : FailureRecord) : Prop where
  testClass : a.testClass = b.testClass
  testMethod : a.testMethod = b.testMethod
  message : a.message = b.message
  stackTrace : a.stackTrace = b.stackTrace

namespace Workspace

variable (w : Workspace) {failure other : FailureRecord}

/-- The search looks at the test class and at the stack trace. -/
theorem value_relatedSearch_of_sameEvidence (h : failure.SameEvidence other)
    (testFile : Option Path) :
    (w.relatedSearch failure testFile).value = (w.relatedSearch other testFile).value := by
  have hname : failure.simpleClassName = other.simpleClassName := by
    rw [FailureRecord.simpleClassName, FailureRecord.simpleClassName, h.testClass]
  simp only [relatedSearch, h.testClass, h.stackTrace, hname]

/-- **A reconstruction** keeps its failure as it is; the rest of it depends on the evidence. -/
theorem reconstruct_of_sameEvidence (h : failure.SameEvidence other) (instant later : Timestamp) :
    (w.reconstruct later other).value
      = { (w.reconstruct instant failure).value with failure := other, generatedAt := later } := by
  simp only [reconstruct, Logged.value_bind, Logged.value_pure, h.testClass, h.testMethod,
    h.message, h.stackTrace, w.value_relatedSearch_of_sameEvidence h]

end Workspace

/-- A summary keeps the evidence of a failure. -/
theorem ErrorSummary.sameEvidence_toRecord (w : Workspace) (failure : FailureRecord) :
    failure.SameEvidence (describe w failure).value.toRecord :=
  ⟨rfl, rfl, rfl, rfl⟩

namespace Prompt

/-- The text about the context of a failure depends on what is found for its test method. -/
theorem contextText_map_congr {items : List FailureRecord} {f g : FailureRecord → FailureContext}
    (hsame : ∀ item, (f item).failure.SameTest (g item).failure)
    (hblock : ∀ item, contextBlock (f item) = contextBlock (g item)) :
    contextText (items.map f) = contextText (items.map g) := by
  funext failure
  have hfound : (fun item => (f item).failure.testClass == failure.testClass
        && (f item).failure.testMethod == failure.testMethod)
      = fun item => (g item).failure.testClass == failure.testClass
        && (g item).failure.testMethod == failure.testMethod := by
    funext item
    rw [(hsame item).1, (hsame item).2]
  rw [contextText, contextText, contextOf?, contextOf?, List.find?_map, List.find?_map,
    Option.map_map, Option.map_map]
  simp only [Function.comp_def, hfound, hblock]

/-- **The request from rebuilt contexts** is the request from the saved ones, whenever they are
    rebuilt.  A rebuilt context differs from the saved one in its failure, which has the excerpts
    of the summary, and in its time, and in nothing else. -/
theorem build_rebuilt (w : Workspace) (now : String) (instant later : Timestamp)
    (reports : ReportSet) (hcounts : ∀ suite ∈ reports.suites, suite.counted < 2 ^ 32) :
    ∃ summary, (ErrorSummary.build w now reports).value = .ok summary
      ∧ let records := summary.failures.map FailureSummary.toRecord
        let saved := (w.reconstructAll instant reports).value
        let rebuilt := (w.reconstructEach later records).value
        build summary rebuilt = build summary saved
        ∧ rebuilt = List.zipWith (fun context record =>
            { context with failure := record, generatedAt := later }) saved records := by
  obtain ⟨summary, hbuild⟩ := ErrorSummary.exists_build w now hcounts
  refine ⟨summary, hbuild, ?_⟩
  intro records saved rebuilt
  have hrecords : records
      = reports.failures.map fun f => (ErrorSummary.describe w f).value.toRecord := by
    show List.map _ summary.failures = _
    rw [ErrorSummary.failures_of_build hbuild, List.map_map]
    rfl
  have hsaved : saved = reports.failures.map fun f => (w.reconstruct instant f).value :=
    w.value_reconstructAll instant reports
  have hrebuilt : rebuilt = reports.failures.map fun f =>
      (w.reconstruct later (ErrorSummary.describe w f).value.toRecord).value := by
    show (Logged.forEach (w.reconstruct later) records).value = _
    rw [Logged.value_forEach, hrecords, List.map_map]
    rfl
  have hcontext := fun f =>
    w.reconstruct_of_sameEvidence (ErrorSummary.sameEvidence_toRecord w f) instant later
  constructor
  · rw [build_eq_buildWith, build_eq_buildWith, hrebuilt, hsaved]
    congr 2
    refine contextText_map_congr (fun f => ⟨rfl, rfl⟩) fun f => ?_
    -- what is shown of a context are its related sources
    rw [hcontext f]
    rfl
  · rw [hrebuilt, hsaved, hrecords, List.zipWith_map, List.zipWith_self]
    exact List.map_congr_left fun f _ => hcontext f

/-- The contexts of a test method that failed twice are rebuilt from the summary. -/
theorem build_rebuilt_failingTwice :
    ∃ summary, (ErrorSummary.build .returningNothing "" .failingTwice).value = .ok summary
      ∧ build summary (Workspace.returningNothing.reconstructEach ⟨2024, 1, 2, 0, 0, 0, 0⟩
          (summary.failures.map FailureSummary.toRecord)).value
        = build summary (Workspace.returningNothing.reconstructAll ⟨2024, 1, 1, 0, 0, 0, 0⟩
          .failingTwice).value := by
  obtain ⟨summary, hbuild, hsame, -⟩ := build_rebuilt .returningNothing ""
    ⟨2024, 1, 1, 0, 0, 0, 0⟩ ⟨2024, 1, 2, 0, 0, 0, 0⟩ .failingTwice (by decide +kernel)
  exact ⟨summary, hbuild, hsame⟩

end Prompt

end FailureTriage
