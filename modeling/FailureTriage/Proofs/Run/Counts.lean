import FailureTriage.Proofs.Run.Documents
import FailureTriage.Proofs.Run.Gate

/-!
# Whether counts are noticed

The counts that suites state are words of 32 bits and are added up as such in four places, each time
in another way.  A place whose sum is no such word gives no answer: the run is broken off there.

* `gates_iff`: what each of the four places answers, and when it gives no answer.
-/

namespace FailureTriage.Run

/-- The reports that hold some suites. -/
def reportsOf (dir : Path) (suites : List TestSuite) : Except TriageFault ReportSet :=
  ({ reportsDir := dir } : ReportSet).pushAll suites

theorem suites_reportsOf {dir : Path} {suites : List TestSuite} {reports : ReportSet}
    (h : reportsOf dir suites = .ok reports) : reports.suites = suites :=
  (ReportSet.suites_pushAll h).trans (List.nil_append suites)

theorem totalled_reportsOf {dir : Path} {suites : List TestSuite} {reports : ReportSet}
    (h : reportsOf dir suites = .ok reports) : reports.Totalled :=
  (ReportSet.totalled_nil dir).pushAll h

/-- **Each of the four places** sees no failure exactly if nothing is counted, as long as it gives
    an answer.  A suite gives none if its failures and errors together are too large; the reports
    cannot be put together if one of the four sums over all suites is; an analysis finds no summary
    if a suite gives no answer, and gives none itself, like the second stage, if all failures and
    errors together are too large.  The reports add up failures and errors apart from each other,
    and so they still answer then. -/
theorem gates_iff (dir : Path) (suites : List TestSuite) (w : Workspace) (now : String) :
    (∀ suite ∈ suites, (suite.status = .ok "PASSED" ↔ suite.counted = 0)
      ∧ (suite.status = .ok "FAILED" ↔ suite.counted ≠ 0 ∧ suite.counted < 2 ^ 32)
      ∧ (suite.status = .error .overflow ↔ 2 ^ 32 ≤ suite.counted))
    ∧ (reportsOf dir suites = .error .overflow ↔ ¬ CountsFit suites)
    ∧ ∀ reports, reportsOf dir suites = .ok reports →
      (reports.hasFailures = true ↔ ∃ suite ∈ suites, suite.counted ≠ 0)
      ∧ ((ErrorSummary.build w now reports).value = .error .overflow
        ↔ ∃ suite ∈ suites, 2 ^ 32 ≤ suite.counted)
      ∧ ∀ summary, (ErrorSummary.build w now reports).value = .ok summary →
        (∀ contexts, Analysis.hasFailures ⟨summary, contexts⟩
          = if (suites.map (·.counted)).sum < 2 ^ 32 then .ok reports.hasFailures
            else .error .overflow)
        ∧ ∀ (settings : Settings) (clock : Clock) (suggester : Suggester) (session : Session),
          readDocument session.files settings.summaryPath = .ok summary →
            ((outcome (suggest settings clock suggester) session).1 = .ok none
              ↔ reports.hasFailures = false)
            ∧ (2 ^ 32 ≤ (suites.map (·.counted)).sum →
              (outcome (suggest settings clock suggester) session).1
                = .error (.triage .overflow)) := by
  refine ⟨fun suite _ => ⟨suite.status_eq_passed_iff, suite.status_eq_failed_iff,
    suite.status_eq_error_iff⟩, ?_, ?_⟩
  · rw [reportsOf, (ReportSet.totalled_nil dir).pushAll_eq_error_iff, and_iff_right rfl]
    exact Iff.rfl
  · intro reports hreports
    have htotalled := totalled_reportsOf hreports
    obtain rfl := suites_reportsOf hreports
    refine ⟨htotalled.hasFailures_iff, ?_, fun summary hbuild => ⟨?_, ?_⟩⟩
    · rw [ErrorSummary.value_build_eq_error_iff, and_iff_right rfl]
    · exact hasFailures_of_build htotalled hbuild
    · exact fun settings clock suggester session hread =>
        suggest_of_build htotalled hbuild clock suggester hread

/-! ## Two suites -/

/-- A suite that states counts of failures and errors. -/
def suiteOf (failures errors : UInt32) : TestSuite where
  name := "A"
  failures := failures
  errors := errors
  reportFile := ⟨"TEST-A.xml"⟩

/-- The workspace of the second stage, with no files. -/
def noFiles : Workspace :=
  plainSettings.workspace {}

/-- A session that finds a summary. -/
def sessionWith (summary : ErrorSummary) : Session where
  files := { entries := [
    (["output"], .directory),
    (["output", "error-summary.json"], .file (writeJson summary).toUTF8)] }

theorem readDocument_sessionWith {summary : ErrorSummary} (h : Storable summary) :
    readDocument (sessionWith summary).files plainSettings.summaryPath = .ok summary := by
  have hreach : (sessionWith summary).files.reach plainSettings.summaryPath
      = .ok (.entry ["output", "error-summary.json"] (.file (writeJson summary).toUTF8)) := rfl
  rw [readDocument_eq_ok_iff (readText_of_reach hreach), readJson?_writeJson]
  exact (decode?_reread_iff summary summary).mpr ⟨h, rfl⟩

/-- One failure is noticed by every place. -/
theorem gates_oneFailure :
    ∃ reports summary, reportsOf ⟨"reports"⟩ [suiteOf 1 0] = .ok reports
      ∧ (ErrorSummary.build noFiles "" reports).value = .ok summary
      ∧ reports.hasFailures = true ∧ Analysis.hasFailures ⟨summary, []⟩ = .ok true
      ∧ readDocument (sessionWith summary).files plainSettings.summaryPath = .ok summary
      ∧ (outcome (suggest plainSettings newYear ⟨"", fun _ => .ok ""⟩)
          (sessionWith summary)).1 ≠ .ok none := by
  have hseen : (reportsOf ⟨"reports"⟩ [suiteOf 1 0]).toOption.map (fun reports =>
      ((ErrorSummary.build noFiles "" reports).value.toOption.map (·.sizes),
        reports.times.all fun t => (t * 1000.0).isFinite)) = some (some [1], true) := by
    decide +kernel
  obtain ⟨reports, hreports, hfound⟩ := exists_ok_of_map hseen
  obtain ⟨hsummary, htimes⟩ := Prod.mk.inj hfound
  obtain ⟨summary, hbuild, hsizes⟩ := exists_ok_of_map hsummary
  have hstorable : Storable summary := by
    rw [storable_summary, ErrorSummary.isFinite_floats_of_build hbuild, hsizes]
    exact ⟨List.all_eq_true.mp htimes, by decide⟩
  have hread := readDocument_sessionWith hstorable
  obtain ⟨-, -, hgates⟩ := gates_iff ⟨"reports"⟩ [suiteOf 1 0] noFiles ""
  obtain ⟨hreported, -, hlater⟩ := hgates reports hreports
  obtain ⟨hanalysed, hasked⟩ := hlater summary hbuild
  have hfailures : reports.hasFailures = true :=
    hreported.mpr ⟨_, List.mem_singleton_self _, by decide⟩
  refine ⟨reports, summary, hreports, hbuild, hfailures, ?_, hread, fun hnone => ?_⟩
  · rw [hanalysed, hfailures]
    rfl
  · rw [(hasked _ _ _ _ hread).1, hfailures] at hnone
    cases hnone

/-- A suite whose failures and errors fill a word together has no status and no summary, though the
    reports see that it failed; and where two suites fill it together, each has failed, and an
    analysis gives no answer. -/
theorem counts_overflow :
    (∃ reports, reportsOf ⟨"reports"⟩ [suiteOf (2 ^ 31) (2 ^ 31)] = .ok reports
      ∧ (suiteOf (2 ^ 31) (2 ^ 31)).status = .error .overflow
      ∧ reports.hasFailures = true
      ∧ (ErrorSummary.build noFiles "" reports).value.toOption.isNone = true)
    ∧ ∃ reports summary,
      reportsOf ⟨"reports"⟩ [suiteOf (2 ^ 31) 0, suiteOf 0 (2 ^ 31)] = .ok reports
      ∧ reports.suites.map (·.status) = [.ok "FAILED", .ok "FAILED"]
      ∧ reports.hasFailures = true
      ∧ (ErrorSummary.build noFiles "" reports).value = .ok summary
      ∧ Analysis.hasFailures ⟨summary, []⟩ = .error .overflow := by
  have hone : (reportsOf ⟨"reports"⟩ [suiteOf (2 ^ 31) (2 ^ 31)]).toOption.map (fun reports =>
      (reports.hasFailures, (ErrorSummary.build noFiles "" reports).value.toOption.isNone))
        = some (true, true) := by decide +kernel
  have htwo : (reportsOf ⟨"reports"⟩ [suiteOf (2 ^ 31) 0, suiteOf 0 (2 ^ 31)]).toOption.map
      (fun reports => (reports.hasFailures,
        (ErrorSummary.build noFiles "" reports).value.toOption.map fun _ => ()))
        = some (true, some ()) := by decide +kernel
  obtain ⟨reports, hreports, hanswers⟩ := exists_ok_of_map hone
  obtain ⟨hfailures, hnone⟩ := Prod.mk.inj hanswers
  refine ⟨⟨reports, hreports, (TestSuite.status_eq_error_iff _).mpr (by decide), hfailures, hnone⟩,
    ?_⟩
  obtain ⟨reports, hreports, hanswers⟩ := exists_ok_of_map htwo
  obtain ⟨hfailures, hsome⟩ := Prod.mk.inj hanswers
  obtain ⟨summary, hbuild, -⟩ := exists_ok_of_map hsome
  refine ⟨reports, summary, hreports, ?_, hfailures, hbuild, ?_⟩
  · rw [suites_reportsOf hreports]
    have hfailed : ∀ suite ∈ [suiteOf (2 ^ 31) 0, suiteOf 0 (2 ^ 31)],
        suite.status = .ok "FAILED" := by
      intro suite hsuite
      rw [TestSuite.status_eq_failed_iff]
      revert suite
      decide
    exact List.map_congr_left hfailed
  · rw [hasFailures_of_build (totalled_reportsOf hreports) hbuild, suites_reportsOf hreports]
    rfl

end FailureTriage.Run
