import FailureTriage.Proofs.Advice.ShownContext
import FailureTriage.Proofs.Run.Documents
import FailureTriage.Proofs.Run.Gate
import FailureTriage.Proofs.Summary.Finite

/-!
# What the first stage hands over to the second

The second stage finds the summary and the contexts that an analysis returned exactly if all their
numbers could be written: a number that is not finite is written as a missing value, which is read
as no number.  A time of a report may be too large once it is scaled to be rounded.

* `summary_handedOver_iff`, `contexts_handedOver_iff`: when each of them is read as it was returned.
* `handedOver_iff`: both of them, for every analysis that ends well.
-/

namespace FailureTriage.Run

variable {settings : Settings} {clock : Clock} {before after : Session} {analysis : Analysis}

/-- When the second stage finds the contexts: the duration of each failure is finite, the sizes are
    words of 64 bits, and the clock shows a point in time of the calendar. -/
theorem contexts_handedOver_iff {reports : ReportSet}
    (hload : (ReportSet.load before.files settings.reportsDir).value = .ok reports)
    (h : outcome (analyze settings clock) before = (.ok analysis, after)) :
    readDocument after.files settings.contextPath = .ok analysis.contexts
      ↔ (∀ failure ∈ reports.failures, failure.duration.isFinite = true)
        ∧ (∀ context ∈ analysis.contexts, ∀ n ∈ context.sizes, n ≤ Text.maxWord64)
        ∧ (reports.failures ≠ [] → clock.instant.Valid) := by
  obtain ⟨found, between, hfound, -, hcontexts, -, hsecond⟩ := analyze_eq_ok h
  obtain rfl := Except.ok.inj (hload.symm.trans hfound)
  have hvalid : (∀ context ∈ analysis.contexts, context.generatedAt.Valid)
      ↔ (reports.failures ≠ [] → clock.instant.Valid) := by
    rw [hcontexts, Workspace.value_reconstructAll, List.forall_mem_map]
    constructor
    · intro hall hne
      obtain ⟨failure, hfailure⟩ := List.exists_mem_of_ne_nil _ hne
      exact hall failure hfailure
    · exact fun hvalid failure hfailure => hvalid (List.ne_nil_of_mem hfailure)
  have hfinite : (∀ context ∈ analysis.contexts, context.failure.duration.isFinite = true)
      ↔ ∀ failure ∈ reports.failures, failure.duration.isFinite = true := by
    rw [hcontexts, Workspace.value_reconstructAll, List.forall_mem_map]
    exact Iff.rfl
  rw [readDocument_eq_ok_iff (readText_of_written hsecond), readJson?_writeJson,
    decode?_contexts_iff, hfinite, hvalid]

/-- **What an analysis returned** is what the second stage reads, exactly under these conditions. -/
theorem handedOver_iff (h : outcome (analyze settings clock) before = (.ok analysis, after)) :
    ∃ reports, (ReportSet.load before.files settings.reportsDir).value = .ok reports
      ∧ (readDocument after.files settings.summaryPath = .ok analysis.summary
        ↔ (∀ t ∈ reports.times, (t * 1000.0).isFinite = true)
          ∧ (∀ n ∈ analysis.summary.sizes, n ≤ Text.maxWord64)
          ∧ after.files.locate? settings.summaryPath ≠ after.files.locate? settings.contextPath)
      ∧ (readDocument after.files settings.contextPath = .ok analysis.contexts
        ↔ (∀ failure ∈ reports.failures, failure.duration.isFinite = true)
          ∧ (∀ context ∈ analysis.contexts, ∀ n ∈ context.sizes, n ≤ Text.maxWord64)
          ∧ (reports.failures ≠ [] → clock.instant.Valid)) := by
  obtain ⟨reports, _, hload, -⟩ := analyze_eq_ok h
  exact ⟨reports, hload, summary_handedOver_iff hload h, contexts_handedOver_iff hload h⟩

/-! ## Two reports -/

/-- Both documents of a report with a failure are read as they were returned. -/
theorem handedOver_stated :
    ∃ analysis after,
      outcome (analyze plainSettings newYear) (sessionOf stated) = (.ok analysis, after)
      ∧ analysis.contexts.length = 1
      ∧ readDocument after.files plainSettings.summaryPath = .ok analysis.summary
      ∧ readDocument after.files plainSettings.contextPath = .ok analysis.contexts := by
  have hseen : (ReportSet.load (sessionOf stated).files plainSettings.reportsDir).value.toOption.map
      (fun reports => (reports.times.all fun t => (t * 1000.0).isFinite,
        reports.failures.all (·.duration.isFinite))) = some (true, true) := by
    decide +kernel
  have hran : (outcome (analyze plainSettings newYear) (sessionOf stated)).1.toOption.map
      (fun analysis => (analysis.summary.sizes, analysis.contexts.map (·.sizes)))
        = some ([1], [[]]) := by decide +kernel
  have hplaces : (outcome (analyze plainSettings newYear) (sessionOf stated)).2.files.locate?
      plainSettings.summaryPath ≠ (outcome (analyze plainSettings newYear)
        (sessionOf stated)).2.files.locate? plainSettings.contextPath := by decide +kernel
  obtain ⟨reports, hload, hfinite⟩ := exists_ok_of_map hseen
  obtain ⟨analysis, hrun, hsizes⟩ := exists_ok_of_map hran
  obtain ⟨htimes, hdurations⟩ := Prod.mk.inj hfinite
  obtain ⟨hsummary, hcontexts⟩ := Prod.mk.inj hsizes
  obtain ⟨found, hfound, hread, hreadContexts⟩ := handedOver_iff (Prod.ext hrun rfl)
  obtain rfl := Except.ok.inj (hload.symm.trans hfound)
  have hnone : ∀ context ∈ analysis.contexts, context.sizes = [] := by
    have hall : ∀ sizes ∈ analysis.contexts.map (·.sizes), sizes = [] := by
      rw [hcontexts]
      decide
    exact List.forall_mem_map.mp hall
  refine ⟨analysis, _, Prod.ext hrun rfl, ?_, ?_, ?_⟩
  · rw [← List.length_map (·.sizes), hcontexts]
    rfl
  · refine hread.mpr ⟨List.all_eq_true.mp htimes, ?_, hplaces⟩
    rw [hsummary]
    decide
  · refine hreadContexts.mpr ⟨List.all_eq_true.mp hdurations, ?_, fun _ => ?_⟩
    · intro context hcontext
      rw [hnone context hcontext]
      decide
    · exact ⟨by decide, by decide, by decide, by decide, by decide⟩

/-- A report with a time that is finite, but not in thousandths. -/
def tooLong : String :=
  "<testsuite failures=\"1\" time=\"1e306\"><testcase><failure/></testcase></testsuite>"

/-- The summary of such a report is not read by the second stage. -/
theorem summary_lost_tooLong :
    ∃ analysis after,
      outcome (analyze plainSettings newYear) (sessionOf tooLong) = (.ok analysis, after)
      ∧ ∀ summary : ErrorSummary,
        readDocument after.files plainSettings.summaryPath ≠ .ok summary := by
  have hseen :
      (ReportSet.load (sessionOf tooLong).files plainSettings.reportsDir).value.toOption.map
      (fun reports => reports.times.all fun t => (t * 1000.0).isFinite) = some false := by
    decide +kernel
  have hran : (outcome (analyze plainSettings newYear) (sessionOf tooLong)).1.toOption.map
      (fun _ => ()) = some () := by decide +kernel
  obtain ⟨reports, hload, htimes⟩ := exists_ok_of_map hseen
  obtain ⟨analysis, hrun, -⟩ := exists_ok_of_map hran
  have hanalysis :
      outcome (analyze plainSettings newYear) (sessionOf tooLong) = (.ok analysis, _) :=
    Prod.ext hrun rfl
  refine ⟨analysis, _, hanalysis, fun summary hread => ?_⟩
  rw [read_after_analysis hanalysis hread, summary_handedOver_iff hload hanalysis] at hread
  rw [List.all_eq_true.mpr hread.1] at htimes
  exact Bool.noConfusion htimes

end FailureTriage.Run
