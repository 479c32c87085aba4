import FailureTriage.Proofs.Suite.Totals
import FailureTriage.Summary.Build

/-!
# What a summary is made of

A summary has an entry for each suite, in order, and a description of each failure.  There is none
if a suite counts more failures and errors than a word of 32 bits holds.

* `Logged.value_tryEach_eq_ok_iff`, `Logged.value_tryEach_eq_error`: steps up to one that fails.
* `ErrorSummary.describes_of_build`, `ErrorSummary.failures_of_build`: what a summary says.
* `ErrorSummary.exists_build`, `ErrorSummary.value_build_eq_error_iff`: when there is one.
-/

namespace FailureTriage

/-! ## Steps up to one that fails -/

namespace Logged

variable {α β ε : Type} {f : α → Logged (Except ε β)} {items : List α}

theorem value_tryEach_cons (f : α → Logged (Except ε β)) (a : α) (items : List α) :
    (tryEach f (a :: items)).value
      = (f a).value >>= fun b => (tryEach f items).value.map (b :: ·) := by
  rw [tryEach, value_bind]
  cases (f a).value <;> rfl

/-- **All steps give a value** exactly if there is a value for each of them. -/
theorem value_tryEach_eq_ok_iff {results : List β} :
    (tryEach f items).value = .ok results
      ↔ List.Forall₂ (fun a b => (f a).value = .ok b) items results := by
  induction items generalizing results with
  | nil =>
      rw [List.forall₂_nil_left_iff]
      exact ⟨fun h => (Except.ok.inj h).symm, fun h => congrArg Except.ok h.symm⟩
  | cons a items ih =>
      rw [value_tryEach_cons, bind_eq_ok, List.forall₂_cons_left_iff]
      refine exists_congr fun b => ?_
      rw [exists_and_left]
      refine and_congr_right fun _ => ?_
      cases hrest : (tryEach f items).value with
      | error fault =>
          refine iff_of_false (by rintro ⟨⟩) ?_
          rintro ⟨rest, hall, -⟩
          rw [← ih, hrest] at hall
          cases hall
      | ok rest =>
          constructor
          · intro h
            exact ⟨rest, ih.mp hrest, (Except.ok.inj h).symm⟩
          · rintro ⟨others, hall, rfl⟩
            rw [← ih, hrest] at hall
            rw [Except.ok.inj hall]
            rfl

/-- If they give none, one of them does not. -/
theorem value_tryEach_eq_error {fault : ε} (h : (tryEach f items).value = .error fault) :
    ∃ a ∈ items, (f a).value = .error fault := by
  induction items with
  | nil => cases h
  | cons a items ih =>
      rw [value_tryEach_cons] at h
      rcases bind_eq_error.mp h with hfirst | ⟨b, -, hrest⟩
      · exact ⟨a, List.mem_cons_self, hfirst⟩
      · cases hvalue : (tryEach f items).value with
        | error cause =>
            rw [hvalue] at hrest
            obtain ⟨found, hfound, hfault⟩ := ih (hvalue.trans hrest)
            exact ⟨found, List.mem_cons_of_mem a hfound, hfault⟩
        | ok rest =>
            rw [hvalue] at hrest
            cases hrest

/-- Steps that do the same for each item do the same for the list. -/
theorem tryEach_congr {g : α → Logged (Except ε β)} (h : ∀ a ∈ items, f a = g a) :
    tryEach f items = tryEach g items := by
  induction items with
  | nil => rfl
  | cons a items ih =>
      rw [tryEach, tryEach, h a List.mem_cons_self, ih fun b hb => h b (List.mem_cons_of_mem a hb)]

end Logged

/-! ## Summaries -/

namespace ErrorSummary

variable {w : Workspace} {now : String} {reports : ReportSet} {summary : ErrorSummary}

/-- What a summary says about a suite, its status apart. -/
structure Describes (w : Workspace) (suite : TestSuite) (summary : SuiteSummary) : Prop where
  status : suite.status = .ok summary.status
  time : summary.time = Decimal.toThousandths suite.time
  failures : summary.failures = suite.testFailures.map fun failure => (describe w failure).value

theorem describes_of_ok {suite : TestSuite} {summary : SuiteSummary}
    (h : (describeSuite w suite).value = .ok summary) : Describes w suite summary := by
  rw [describeSuite] at h
  cases hstatus : suite.status with
  | error fault =>
      rw [hstatus] at h
      cases h
  | ok status =>
      rw [hstatus] at h
      obtain rfl := Except.ok.inj h
      exact ⟨hstatus, rfl, Logged.value_forEach _ _⟩

theorem value_describeSuite_eq_error_iff {suite : TestSuite} {fault : TriageFault} :
    (describeSuite w suite).value = .error fault
      ↔ fault = .overflow ∧ 2 ^ 32 ≤ suite.counted := by
  rw [describeSuite, TestSuite.status_eq]
  split
  next cause hcause =>
    split at hcause
    · cases hcause
    next hlarge =>
      rw [and_iff_left (Nat.not_lt.mp hlarge)]
      cases hcause
      exact ⟨fun h => (Except.error.inj h).symm, fun h => congrArg Except.error h.symm⟩
  next status hstatus =>
    split at hstatus
    · exact iff_of_false (by rintro ⟨⟩) (by omega)
    · cases hstatus

/-- **A summary** has the totals of the reports and describes their suites in order. -/
theorem describes_of_build (h : (build w now reports).value = .ok summary) :
    summary.totals = totalsOf reports
      ∧ List.Forall₂ (Describes w) reports.suites summary.suites := by
  rw [build, Logged.value_bind] at h
  cases hsuites : (Logged.tryEach (describeSuite w) reports.suites).value with
  | error fault =>
      rw [hsuites] at h
      cases h
  | ok suites =>
      rw [hsuites] at h
      obtain rfl := Except.ok.inj h
      exact ⟨rfl, (Logged.value_tryEach_eq_ok_iff.mp hsuites).imp fun _ _ => describes_of_ok⟩

/-- What is gathered from the suites of a summary is what is gathered from those of the reports. -/
theorem flatMap_eq_of_describes {α : Type} {suites : List TestSuite}
    {summaries : List SuiteSummary} {f : TestSuite → List α} {g : SuiteSummary → List α}
    (h : List.Forall₂ (Describes w) suites summaries)
    (hsame : ∀ suite summary, Describes w suite summary → g summary = f suite) :
    summaries.flatMap g = suites.flatMap f := by
  induction h with
  | nil => rfl
  | cons hfirst _ ih => rw [List.flatMap_cons, List.flatMap_cons, ih, hsame _ _ hfirst]

/-- **The failures** of a summary are those of the reports, each described. -/
theorem failures_of_build (h : (build w now reports).value = .ok summary) :
    summary.failures = reports.failures.map fun failure => (describe w failure).value := by
  rw [ErrorSummary.failures, ReportSet.failures, List.map_flatMap]
  exact flatMap_eq_of_describes (describes_of_build h).2 fun _ _ hsuite => hsuite.failures

/-- A suite that is described counts no more than a word holds. -/
theorem counted_lt_of_describes {suites : List TestSuite} {summaries : List SuiteSummary}
    (h : List.Forall₂ (Describes w) suites summaries) :
    ∀ suite ∈ suites, suite.counted < 2 ^ 32 := by
  induction h with
  | nil => exact fun suite hsuite => absurd hsuite List.not_mem_nil
  | @cons suite summary _ _ hfirst _ ih =>
      refine List.forall_mem_cons.mpr ⟨Nat.lt_of_not_le fun hlarge => ?_, ih⟩
      have hstatus := hfirst.status
      rw [suite.status_eq_error_iff.mpr hlarge] at hstatus
      cases hstatus

/-- **There is no summary** exactly if a suite counts too much. -/
theorem value_build_eq_error_iff {fault : TriageFault} :
    (build w now reports).value = .error fault
      ↔ fault = .overflow ∧ ∃ suite ∈ reports.suites, 2 ^ 32 ≤ suite.counted := by
  have hfault : ∀ cause, (build w now reports).value = .error cause →
      cause = .overflow ∧ ∃ suite ∈ reports.suites, 2 ^ 32 ≤ suite.counted := by
    intro cause h
    rw [build, Logged.value_bind] at h
    cases hsuites : (Logged.tryEach (describeSuite w) reports.suites).value with
    | ok suites =>
        rw [hsuites] at h
        cases h
    | error found =>
        rw [hsuites] at h
        obtain rfl := Except.error.inj h
        obtain ⟨suite, hsuite, herror⟩ := Logged.value_tryEach_eq_error hsuites
        obtain ⟨hcause, hlarge⟩ := value_describeSuite_eq_error_iff.mp herror
        exact ⟨hcause, suite, hsuite, hlarge⟩
  refine ⟨hfault fault, fun ⟨hoverflow, suite, hsuite, hlarge⟩ => ?_⟩
  cases h : (build w now reports).value with
  | error cause => rw [hoverflow, (hfault cause h).1]
  | ok summary =>
      exact absurd (counted_lt_of_describes (describes_of_build h).2 suite hsuite)
        (Nat.not_lt.mpr hlarge)

theorem exists_build (w : Workspace) (now : String)
    (hcounts : ∀ suite ∈ reports.suites, suite.counted < 2 ^ 32) :
    ∃ summary, (build w now reports).value = .ok summary := by
  cases h : (build w now reports).value with
  | ok summary => exact ⟨summary, rfl⟩
  | error fault =>
      obtain ⟨-, suite, hsuite, hlarge⟩ := value_build_eq_error_iff.mp h
      exact absurd (hcounts suite hsuite) (Nat.not_lt.mpr hlarge)

end ErrorSummary

end FailureTriage
