import FailureTriage.Proofs.Advice.Stored
import FailureTriage.Proofs.Context.Stored
import FailureTriage.Proofs.Files.StoredDocument

/-!
# The documents of a run are read back

The two stages of a run hand their results over in three documents: the summary, the contexts and
the report of fixes.

* `written_reads_back`: which of them come back from their own text.
-/

namespace FailureTriage.Run

/-- **Reading undoes writing.**  A summary comes back exactly if its binary numbers are finite and
    its sizes are words of 64 bits; contexts, if also their timestamps are of the calendar; a report
    of fixes, always. -/
theorem written_reads_back :
    (∀ summary : ErrorSummary, readJson? (writeJson summary) = some summary
      ↔ (∀ x ∈ summary.floats, x.isFinite = true) ∧ ∀ n ∈ summary.sizes, n ≤ Text.maxWord64)
    ∧ (∀ contexts : List FailureContext, readJson? (writeJson contexts) = some contexts
      ↔ (∀ c ∈ contexts, c.failure.duration.isFinite = true)
        ∧ (∀ c ∈ contexts, ∀ n ∈ c.sizes, n ≤ Text.maxWord64)
        ∧ ∀ c ∈ contexts, c.generatedAt.Valid)
    ∧ ∀ report : FixReport, readJson? (writeJson report) = some report := by
  refine ⟨fun summary => ?_, fun contexts => ?_, fun report => ?_⟩
  · rw [readJson?_writeJson, decode?_reread_iff, storable_summary, and_iff_left rfl]
  · rw [readJson?_writeJson, decode?_contexts_iff]
  · rw [readJson?_writeJson, decode?_report]

end FailureTriage.Run
