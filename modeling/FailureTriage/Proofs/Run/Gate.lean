import FailureTriage.Proofs.Context.Stored
import FailureTriage.Proofs.Files.StoredDocument
import FailureTriage.Proofs.Run.Steps
import FailureTriage.Proofs.Suite.Loading
import FailureTriage.Proofs.Summary.Finite

/-!
# Whether a failing run is noticed

Four places ask whether anything failed: the status of a suite, the reports of a directory, an
analysis, and the second stage before it asks for fixes.  Each of them goes by the counts that the
suites state, not by the failures that were recorded.

* `read_after_analysis`: the summary that the second stage reads after an analysis.
* `summary_handedOver_iff`: when it reads one.
* `failing_of_build`, `hasFailures_of_build`: what a summary counts, and what an analysis answers.
* `suggest_of_build`: what the second stage answers to a summary.
* `noticed_iff`: when each of the four places notices a recorded failure.
-/

namespace FailureTriage.Run

variable {settings : Settings} {clock : Clock} {before after : Session} {analysis : Analysis}
  {reports : ReportSet}

/-- **After an analysis** a summary that is read is the one that was written.  Should the contexts
    have gone to the same file, no summary is read. -/
theorem read_after_analysis (h : outcome (analyze settings clock) before = (.ok analysis, after))
    {summary : ErrorSummary}
    (hread : readDocument after.files settings.summaryPath = .ok summary) :
    summary = analysis.summary := by
  obtain ⟨_, between, -, -, -, hfirst, hsecond⟩ := analyze_eq_ok h
  rw [readDocument_eq_ok_iff (readText_of_written_twice hfirst hsecond)] at hread
  split at hread
  · rw [readJson?_writeJson] at hread
    exact absurd hread (not_summary_of_contexts _ _)
  · rw [readJson?_writeJson, decode?_reread_iff] at hread
    exact hread.2.symm

/-- When the second stage finds the summary: each time of the reports is finite in thousandths, the
    sizes are words of 64 bits, and the contexts have not been written over the summary. -/
theorem summary_handedOver_iff {reports : ReportSet}
    (hload : (ReportSet.load before.files settings.reportsDir).value = .ok reports)
    (h : outcome (analyze settings clock) before = (.ok analysis, after)) :
    readDocument after.files settings.summaryPath = .ok analysis.summary
      ↔ (∀ t ∈ reports.times, (t * 1000.0).isFinite = true)
        ∧ (∀ n ∈ analysis.summary.sizes, n ≤ Text.maxWord64)
        ∧ after.files.locate? settings.summaryPath ≠ after.files.locate? settings.contextPath := by
  obtain ⟨found, between, hfound, hsummary, -, hfirst, hsecond⟩ := analyze_eq_ok h
  obtain rfl := Except.ok.inj (hload.symm.trans hfound)
  rw [readDocument_eq_ok_iff (readText_of_written_twice hfirst hsecond),
    ← ErrorSummary.isFinite_floats_of_build hsummary]
  split
  next hsame =>
    rw [readJson?_writeJson]
    exact iff_of_false (not_summary_of_contexts _ _) fun hall => hall.2.2 hsame
  next hother =>
    rw [readJson?_writeJson, decode?_reread_iff, storable_summary, and_iff_left rfl]
    exact and_congr_right fun _ => (and_iff_left hother).symm

/-- A summary counts what the reports count. -/
theorem failing_of_build {w : Workspace} {now : String} {summary : ErrorSummary}
    (h : (ErrorSummary.build w now reports).value = .ok summary) :
    summary.failing = Count.add reports.totalFailures reports.totalErrors := by
  rw [ErrorSummary.failing, (ErrorSummary.describes_of_build h).1]
  rfl

/-- An analysis goes by what its summary counts. -/
theorem hasFailures_analysis (analysis : Analysis) :
    analysis.hasFailures = analysis.summary.failing.map fun failing => decide (failing ≠ 0) := by
  rw [Analysis.hasFailures]
  cases analysis.summary.failing with
  | error fault => rfl
  | ok failing =>
      refine congrArg Except.ok (decide_eq_decide.mpr ?_)
      rw [gt_iff_lt, UInt32.lt_iff_toNat_lt, ne_eq, ← UInt32.toNat_inj]
      exact Nat.pos_iff_ne_zero

section
variable {w : Workspace} {now : String} {reports : ReportSet} {summary : ErrorSummary}
  (htotalled : reports.Totalled) (hbuild : (ErrorSummary.build w now reports).value = .ok summary)
include htotalled hbuild

/-- A summary counts nothing if the reports see no failure. -/
theorem failing_eq_zero_iff : summary.failing = .ok 0 ↔ reports.hasFailures = false := by
  rw [failing_of_build hbuild, htotalled.failing_eq_ok_iff, ← Bool.not_eq_true,
    htotalled.hasFailures_iff]
  push Not
  rw [← stated_counted_eq_zero_iff]
  exact eq_comm

/-- A summary counts too much if all failures and errors of the reports do. -/
theorem failing_eq_error_iff {fault : TriageFault} :
    summary.failing = .error fault
      ↔ fault = .overflow ∧ 2 ^ 32 ≤ (reports.suites.map (·.counted)).sum := by
  rw [failing_of_build hbuild, htotalled.failing_eq_error_iff, sum_counted]

/-- **An analysis** answers as the reports do, unless its sum is too large. -/
theorem hasFailures_of_build (contexts : List FailureContext) :
    Analysis.hasFailures ⟨summary, contexts⟩
      = if (reports.suites.map (·.counted)).sum < 2 ^ 32 then .ok reports.hasFailures
        else .error .overflow := by
  rw [hasFailures_analysis]
  cases hfailing : summary.failing with
  | error fault =>
      obtain ⟨rfl, hlarge⟩ := (failing_eq_error_iff htotalled hbuild).mp hfailing
      exact (if_neg (Nat.not_lt.mpr hlarge)).symm
  | ok failing =>
      have hsmall : ¬ 2 ^ 32 ≤ (reports.suites.map (·.counted)).sum := by
        intro hlarge
        rw [(failing_eq_error_iff htotalled hbuild).mpr ⟨rfl, hlarge⟩] at hfailing
        cases hfailing
      rw [if_pos (Nat.lt_of_not_le hsmall)]
      refine congrArg Except.ok ?_
      have hzero := failing_eq_zero_iff htotalled hbuild
      rw [hfailing, Except.ok.injEq] at hzero
      rw [Bool.eq_iff_iff, decide_eq_true_iff, ne_eq, hzero, Bool.not_eq_false]

/-- **The second stage** asks for fixes where the reports see a failure, unless its sum is too
    large. -/
theorem suggest_of_build (clock : Clock) (suggester : Suggester) {settings : Settings}
    {session : Session}
    (hread : readDocument session.files settings.summaryPath = .ok summary) :
    ((outcome (suggest settings clock suggester) session).1 = .ok none
        ↔ reports.hasFailures = false)
      ∧ (2 ^ 32 ≤ (reports.suites.map (·.counted)).sum →
        (outcome (suggest settings clock suggester) session).1 = .error (.triage .overflow)) := by
  constructor
  · rw [suggest_eq_none_iff, ← failing_eq_zero_iff htotalled hbuild]
    constructor
    · rintro ⟨found, hfound, hnone⟩
      obtain rfl := Except.ok.inj (hread.symm.trans hfound)
      exact hnone
    · exact fun hnone => ⟨summary, hread, hnone⟩
  · intro hlarge
    have hfailing := (failing_eq_error_iff htotalled hbuild).mpr ⟨rfl, hlarge⟩
    unfold suggest
    rw [outcome_bind (outcome_load hread), hfailing]
    rfl

end

/-- **Each of the four places** notices a recorded failure by the counts that the suites state: a
    suite if it counts anything, a directory if one of its suites does, an analysis if all of them
    together do, the first and the last as long as the counts can be added up; and the second stage
    asks for fixes, or fails, if anything is counted or if it finds no summary. -/
theorem noticed_iff
    (hload : (ReportSet.load before.files settings.reportsDir).value = .ok reports) :
    ∀ suite ∈ reports.suites, ∀ record ∈ suite.testFailures,
      (suite.status = .ok "FAILED" ↔ suite.counted ≠ 0 ∧ suite.counted < 2 ^ 32)
      ∧ (reports.hasFailures = true ↔ ∃ other ∈ reports.suites, other.counted ≠ 0)
      ∧ ∀ (clock : Clock) (analysis : Analysis) (after : Session),
        outcome (analyze settings clock) before = (.ok analysis, after) →
          (analysis.hasFailures = .ok true
            ↔ (∃ other ∈ reports.suites, other.counted ≠ 0)
              ∧ (reports.suites.map (·.counted)).sum < 2 ^ 32)
          ∧ ∀ (later : Clock) (suggester : Suggester),
            (outcome (suggest settings later suggester) after).1 ≠ .ok none
              ↔ (∃ other ∈ reports.suites, other.counted ≠ 0)
                ∨ ∀ summary : ErrorSummary,
                  readDocument after.files settings.summaryPath ≠ .ok summary := by
  intro suite _ record _
  have htotalled := ReportSet.totalled_load hload
  refine ⟨suite.status_eq_failed_iff, htotalled.hasFailures_iff, ?_⟩
  intro clock analysis after hrun
  obtain ⟨found, _, hfound, hsummary, -⟩ := analyze_eq_ok hrun
  obtain rfl := Except.ok.inj (hload.symm.trans hfound)
  constructor
  · rw [hasFailures_of_build htotalled hsummary, ← htotalled.hasFailures_iff]
    split
    next hsmall => rw [Except.ok.injEq, and_iff_left hsmall]
    next hlarge => exact iff_of_false (by rintro ⟨⟩) fun h => hlarge h.2
  · intro later suggester
    have hnone := failing_eq_zero_iff htotalled hsummary
    rw [ne_eq, suggest_eq_none_iff, ← htotalled.hasFailures_iff]
    constructor
    · intro hasked
      by_cases hfailed : reports.hasFailures = true
      · exact Or.inl hfailed
      · refine Or.inr fun summary hread => hasked ⟨summary, hread, ?_⟩
        rw [read_after_analysis hrun hread]
        exact hnone.mpr (Bool.eq_false_iff.mpr hfailed)
    · rintro (hfailed | hunread) ⟨summary, hread, hzero⟩
      · rw [read_after_analysis hrun hread] at hzero
        exact absurd hfailed (Bool.eq_false_iff.mp (hnone.mp hzero))
      · exact hunread summary hread

/-! ## Two runs -/

/-- Settings with the reports in a directory of their own. -/
def plainSettings : Settings :=
  { Settings.standard (fun _ => none) with reportsDir := ⟨"reports"⟩ }

/-- A session that finds one report. -/
def sessionOf (report : String) : Session where
  files := { entries := [
    (["reports"], .directory),
    (["reports", "TEST-A.xml"], .file report.toUTF8)] }

/-- A clock that stands still. -/
def newYear : Clock where
  stamp := "2024-01-01T00:00:00"
  instant := ⟨2024, 1, 1, 0, 0, 0, 0⟩

/-- A report whose suite states the failure that it holds. -/
def stated : String :=
  "<testsuite failures=\"1\"><testcase><failure/></testcase></testsuite>"

/-- A report of two suites with a failure each: one states no count of failures, and the count of
    the other has a separator. -/
def unstated : String :=
  "<testsuites><testsuite><testcase><failure/></testcase></testsuite>"
    ++ "<testsuite failures=\"1,024\"><testcase><failure/></testcase></testsuite></testsuites>"

/-- A recorded failure that the counts state is noticed everywhere. -/
theorem noticed_stated :
    ∃ reports analysis after,
      (ReportSet.load (sessionOf stated).files plainSettings.reportsDir).value = .ok reports
      ∧ outcome (analyze plainSettings newYear) (sessionOf stated) = (.ok analysis, after)
      ∧ (∃ suite ∈ reports.suites, suite.testFailures.length = 1 ∧ suite.status = .ok "FAILED")
      ∧ reports.hasFailures = true ∧ analysis.hasFailures = .ok true
      ∧ ∀ (later : Clock) (suggester : Suggester),
        (outcome (suggest plainSettings later suggester) after).1 ≠ .ok none := by
  have hseen : (ReportSet.load (sessionOf stated).files plainSettings.reportsDir).value.toOption.map
      (fun reports => reports.suites.map fun suite => (suite.testFailures.length, suite.counted))
        = some [(1, 1)] := by
    decide +kernel
  have hran : (outcome (analyze plainSettings newYear) (sessionOf stated)).1.toOption.map
      (fun _ => ()) = some () := by decide +kernel
  obtain ⟨reports, hload, hcounts⟩ := exists_ok_of_map hseen
  obtain ⟨analysis, hrun, -⟩ := exists_ok_of_map hran
  obtain ⟨suite, hsuite, hsuiteCounts⟩ : ∃ suite ∈ reports.suites,
      (suite.testFailures.length, suite.counted) = (1, 1) :=
    List.mem_map.mp (hcounts ▸ List.mem_singleton_self _)
  obtain ⟨hlength, hcounted⟩ := Prod.mk.inj hsuiteCounts
  obtain ⟨record, hrecord⟩ := List.exists_mem_of_length_pos (hlength ▸ Nat.one_pos)
  obtain ⟨hstatus, hreports, hanalyses⟩ := noticed_iff hload suite hsuite record hrecord
  obtain ⟨hanalysis, hsuggest⟩ := hanalyses newYear analysis _ (Prod.ext hrun rfl)
  have hsome : ∃ other ∈ reports.suites, other.counted ≠ 0 :=
    ⟨suite, hsuite, hcounted ▸ Nat.one_ne_zero⟩
  have hsum : (reports.suites.map (·.counted)).sum = 1 := by
    have hmap : reports.suites.map (·.counted) = [1] := by
      simpa using congrArg (List.map Prod.snd) hcounts
    rw [hmap]
    rfl
  refine ⟨reports, analysis, _, hload, Prod.ext hrun rfl, ⟨suite, hsuite, hlength, ?_⟩,
    hreports.mpr hsome, hanalysis.mpr ⟨hsome, by rw [hsum]; decide⟩,
    fun later suggester => (hsuggest later suggester).mpr (Or.inl hsome)⟩
  rw [hstatus, hcounted]
  decide

/-- A recorded failure that the counts do not state is noticed nowhere. -/
theorem unnoticed_unstated :
    ∃ reports analysis after,
      (ReportSet.load (sessionOf unstated).files plainSettings.reportsDir).value = .ok reports
      ∧ reports.failures.length = 2
      ∧ reports.suites.map (·.status) = [.ok "PASSED", .ok "PASSED"]
      ∧ reports.hasFailures = false
      ∧ outcome (analyze plainSettings newYear) (sessionOf unstated) = (.ok analysis, after)
      ∧ analysis.hasFailures = .ok false
      ∧ ∀ (later : Clock) (suggester : Suggester),
        (outcome (suggest plainSettings later suggester) after).1 = .ok none := by
  have hseen :
      (ReportSet.load (sessionOf unstated).files plainSettings.reportsDir).value.toOption.map
        (fun reports => (reports.failures.length, reports.suites.map (·.counted),
          reports.hasFailures, reports.times.all fun t => (t * 1000.0).isFinite))
        = some (2, [0, 0], false, true) := by
    decide +kernel
  have hran : (outcome (analyze plainSettings newYear) (sessionOf unstated)).1.toOption.map
      (fun analysis => (analysis.hasFailures.toOption, analysis.summary.failing.toOption,
        analysis.summary.sizes)) = some (some false, some 0, [2]) := by decide +kernel
  have hplaces : (outcome (analyze plainSettings newYear) (sessionOf unstated)).2.files.locate?
      plainSettings.summaryPath ≠ (outcome (analyze plainSettings newYear)
        (sessionOf unstated)).2.files.locate? plainSettings.contextPath := by decide +kernel
  obtain ⟨reports, hload, hcounts⟩ := exists_ok_of_map hseen
  obtain ⟨analysis, hrun, hseenAnalysis⟩ := exists_ok_of_map hran
  obtain ⟨hanalysis, hseenSummary⟩ := Prod.mk.inj hseenAnalysis
  obtain ⟨hfailing, hsizes⟩ := Prod.mk.inj hseenSummary
  rw [toOption_eq_some_iff] at hanalysis hfailing
  obtain ⟨hrecords, hrest⟩ := Prod.mk.inj hcounts
  obtain ⟨hcounted, hrest⟩ := Prod.mk.inj hrest
  obtain ⟨hnone, htimes⟩ := Prod.mk.inj hrest
  have hread : readDocument _ plainSettings.summaryPath = .ok analysis.summary :=
    (summary_handedOver_iff hload (Prod.ext hrun rfl)).mpr
      ⟨List.all_eq_true.mp htimes, by rw [hsizes]; decide, hplaces⟩
  have hstatus : reports.suites.map (·.status)
      = (reports.suites.map (·.counted)).map fun count =>
        if count < 2 ^ 32 then .ok (if count = 0 then "PASSED" else "FAILED")
        else .error .overflow := by
    rw [List.map_map]
    exact List.map_congr_left fun suite _ => suite.status_eq
  rw [hcounted] at hstatus
  exact ⟨reports, analysis, _, hload, hrecords, hstatus, hnone, Prod.ext hrun rfl, hanalysis,
    fun later suggester => (suggest_eq_none_iff suggester).mpr ⟨_, hread, hfailing⟩⟩

end FailureTriage.Run
