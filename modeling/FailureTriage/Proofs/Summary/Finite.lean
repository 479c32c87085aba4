import FailureTriage.Proofs.Decimal.Finite
import FailureTriage.Proofs.Summary.Building
import FailureTriage.Proofs.Summary.Stored

/-!
# Which numbers of a summary are finite

A summary has its times rounded to three places.  A time is lost by that exactly if its product with
a thousand is too large, or if it was not finite in the first place; a rate is never lost.

* `ReportSet.times`: the times of a test run.
* `isFinite_successRate`: the rate of success.
* `isFinite_floats_of_build`: when all numbers of a summary are finite.
-/

namespace FailureTriage

open Binary

/-- The times that the reports of a test run state, and their sum. -/
def ReportSet.times (set : ReportSet) : List Float :=
  set.totalTime :: set.suites.flatMap fun suite => suite.time :: suite.testFailures.map (·.duration)

/-- **The rate of success** is finite, whatever the counts are. -/
theorem ReportSet.isFinite_successRate (set : ReportSet) :
    (Decimal.toHundredths set.successRate).isFinite = true := by
  have hhundred : isWhole 100 (100.0 : Float).toModel.unpack = true := by decide +kernel
  rw [Decimal.isFinite_toHundredths_iff, successRate]
  split
  next => decide +kernel
  next hsome =>
    have hsuccess := set.successCount.toNat_lt
    have htests := set.totalTests.toNat_lt
    have hpos : 0 < set.totalTests.toNat :=
      Nat.pos_of_ne_zero fun h => hsome (UInt32.toNat_inj.mp h)
    obtain ⟨m, e, hm, hunpack, hvalue⟩ := unpack_ofNat hpos (by omega)
    have hone : (1 : ℚ) ≤ m * 2 ^ e := by
      rw [hvalue]
      exact_mod_cast hpos
    have hcount : AtMost 32 (Float.ofNat set.successCount.toNat) :=
      atMost_ofNat (by omega) hsuccess.le
    have hshare := hcount.div hunpack hone
    have hpercent : AtMost 39 _ := hshare.mul (k := 7) hhundred (by decide) (by decide) (by decide)
    exact (hpercent.mul (k := 7) hhundred (by decide) (by decide) (by decide)).finite

namespace ErrorSummary

/-- The numbers of a summary come from the times and the rate of the reports. -/
theorem floats_of_build {w : Workspace} {now : String} {reports : ReportSet}
    {summary : ErrorSummary} (h : (build w now reports).value = .ok summary) :
    summary.floats
      = Decimal.toThousandths reports.totalTime :: Decimal.toHundredths reports.successRate
        :: reports.suites.flatMap fun suite =>
          (suite.time :: suite.testFailures.map (·.duration)).map Decimal.toThousandths := by
  obtain ⟨htotals, hsuites⟩ := describes_of_build h
  rw [floats, htotals, flatMap_eq_of_describes hsuites fun suite summary hsuite => ?_]
  · rfl
  · rw [hsuite.time, hsuite.failures, List.map_map, List.map_cons, List.map_map]
    rfl

/-- **A summary has finite numbers** exactly if every time of the reports is finite in thousandths. -/
theorem isFinite_floats_of_build {w : Workspace} {now : String} {reports : ReportSet}
    {summary : ErrorSummary} (h : (build w now reports).value = .ok summary) :
    (∀ x ∈ summary.floats, x.isFinite = true)
      ↔ ∀ t ∈ reports.times, (t * 1000.0).isFinite = true := by
  simp only [floats_of_build h, ReportSet.times, List.forall_mem_cons, List.forall_mem_flatMap,
    List.forall_mem_map, List.map_cons, Decimal.isFinite_toThousandths_iff,
    reports.isFinite_successRate, true_and]

end ErrorSummary

end FailureTriage
