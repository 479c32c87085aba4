import FailureTriage.Proofs.Results
import FailureTriage.Suite.Totals
import Mathlib

/-!
# Counts of suites and of a reports directory

The status of a suite and the totals of a directory are sums of counts.  Such a sum is exact, and if
it is more than a word of 32 bits holds there is none: the run is broken off.

* `TestSuite.status_eq`: the status of a suite, by what it counts.
* `CountsFit`: the counts of some suites can be added up.
* `Totalled`: the totals of a set are the sums of the counts of its suites.
* `Totalled.pushAll`, `Totalled.pushAll_eq_error_iff`: what comes of more suites.
* `Totalled.hasFailures_iff`: when the suites of a set count as failing.
-/

namespace FailureTriage

namespace TestSuite

/-- How many failures and errors a suite counts. -/
def counted (suite : TestSuite) : Nat :=
  suite.failures.toNat + suite.errors.toNat

/-- **The status of a suite** goes by its failures and errors together, if they can be added up. -/
theorem status_eq (suite : TestSuite) :
    suite.status
      = if suite.counted < 2 ^ 32 then .ok (if suite.counted = 0 then "PASSED" else "FAILED")
        else .error .overflow := by
  rw [status, passed]
  cases hsum : Count.add suite.failures suite.errors with
  | error fault =>
      obtain ⟨rfl, hlarge⟩ := Count.add_eq_error_iff.mp hsum
      exact (if_neg (Nat.not_lt.mpr hlarge)).symm
  | ok sum =>
      have hcounted : sum.toNat = suite.counted := Count.add_eq_ok_iff.mp hsum
      rw [if_pos (hcounted ▸ sum.toNat_lt), ← hcounted]
      by_cases hzero : sum = 0
      · rw [hzero]
        rfl
      · have hnat : sum.toNat ≠ 0 := fun h => hzero (UInt32.toNat_inj.mp h)
        rw [if_neg hnat]
        simp [bind, Except.bind, pure, Except.pure, hzero]

theorem status_eq_failed_iff (suite : TestSuite) :
    suite.status = .ok "FAILED" ↔ suite.counted ≠ 0 ∧ suite.counted < 2 ^ 32 := by
  rw [status_eq]
  split
  next hfits =>
    rw [and_iff_left hfits, Except.ok.injEq]
    split <;> simp [*]
  next hlarge => exact iff_of_false (by rintro ⟨⟩) fun h => hlarge h.2

theorem status_eq_passed_iff (suite : TestSuite) :
    suite.status = .ok "PASSED" ↔ suite.counted = 0 := by
  rw [status_eq]
  split
  next hfits =>
    rw [Except.ok.injEq]
    split <;> simp [*]
  next hlarge => exact iff_of_false (by rintro ⟨⟩) fun h => hlarge (by omega)

/-- There is no status exactly if the count is too large. -/
theorem status_eq_error_iff (suite : TestSuite) :
    suite.status = .error .overflow ↔ 2 ^ 32 ≤ suite.counted := by
  rw [status_eq]
  split
  next hfits => exact iff_of_false (by rintro ⟨⟩) (by omega)
  next hlarge => exact iff_of_true rfl (by omega)

end TestSuite

/-! ## Sums over suites -/

/-- What suites count of one kind, added up. -/
def stated (count : TestSuite → UInt32) (suites : List TestSuite) : Nat :=
  (suites.map fun suite => (count suite).toNat).sum

theorem stated_append (count : TestSuite → UInt32) (suites more : List TestSuite) :
    stated count (suites ++ more) = stated count suites + stated count more := by
  rw [stated, stated, stated, List.map_append, List.sum_append]

theorem stated_singleton (count : TestSuite → UInt32) (suite : TestSuite) :
    stated count [suite] = (count suite).toNat :=
  List.sum_singleton

/-- Nothing is counted if no suite counts anything. -/
theorem stated_eq_zero_iff {count : TestSuite → UInt32} {suites : List TestSuite} :
    stated count suites = 0 ↔ ∀ suite ∈ suites, (count suite).toNat = 0 := by
  rw [stated, List.sum_eq_zero_iff_forall_eq_nat, List.forall_mem_map]

/-- No failure and no error is counted if no suite counts any. -/
theorem stated_counted_eq_zero_iff {suites : List TestSuite} :
    stated (·.failures) suites + stated (·.errors) suites = 0
      ↔ ∀ suite ∈ suites, suite.counted = 0 := by
  rw [Nat.add_eq_zero_iff, stated_eq_zero_iff, stated_eq_zero_iff, ← forall₂_and]
  exact forall₂_congr fun suite _ => Nat.add_eq_zero_iff.symm

/-- What suites count together are their failures and their errors. -/
theorem sum_counted (suites : List TestSuite) :
    (suites.map (·.counted)).sum = stated (·.failures) suites + stated (·.errors) suites :=
  List.sum_map_add

/-- Whether the counts of suites can be added up. -/
structure CountsFit (suites : List TestSuite) : Prop where
  tests : stated (·.tests) suites < 2 ^ 32
  failures : stated (·.failures) suites < 2 ^ 32
  errors : stated (·.errors) suites < 2 ^ 32
  skipped : stated (·.skipped) suites < 2 ^ 32

theorem countsFit_iff {suites : List TestSuite} :
    CountsFit suites
      ↔ stated (·.tests) suites < 2 ^ 32 ∧ stated (·.failures) suites < 2 ^ 32
        ∧ stated (·.errors) suites < 2 ^ 32 ∧ stated (·.skipped) suites < 2 ^ 32 :=
  ⟨fun h => ⟨h.tests, h.failures, h.errors, h.skipped⟩, fun ⟨tests, failures, errors, skipped⟩ =>
    ⟨tests, failures, errors, skipped⟩⟩

instance (suites : List TestSuite) : Decidable (CountsFit suites) :=
  decidable_of_iff _ countsFit_iff.symm

/-- So can those of the first ones. -/
theorem CountsFit.of_append {suites more : List TestSuite} (h : CountsFit (suites ++ more)) :
    CountsFit suites := by
  obtain ⟨htests, hfailures, herrors, hskipped⟩ := h
  rw [stated_append] at htests hfailures herrors hskipped
  constructor <;> omega

namespace ReportSet

/-- Whether the totals of a set are the sums of the counts of its suites. -/
structure Totalled (set : ReportSet) : Prop where
  tests : set.totalTests.toNat = stated (·.tests) set.suites
  failures : set.totalFailures.toNat = stated (·.failures) set.suites
  errors : set.totalErrors.toNat = stated (·.errors) set.suites
  skipped : set.totalSkipped.toNat = stated (·.skipped) set.suites

theorem totalled_nil (dir : Path) : Totalled { reportsDir := dir } :=
  ⟨rfl, rfl, rfl, rfl⟩

variable {set after : ReportSet} {suite : TestSuite} {more : List TestSuite} {fault : TriageFault}

/-- Sums that are words of 32 bits can be added up. -/
theorem Totalled.countsFit (h : set.Totalled) : CountsFit set.suites where
  tests := h.tests ▸ set.totalTests.toNat_lt
  failures := h.failures ▸ set.totalFailures.toNat_lt
  errors := h.errors ▸ set.totalErrors.toNat_lt
  skipped := h.skipped ▸ set.totalSkipped.toNat_lt

/-! ## One more suite -/

theorem suites_push (h : set.push suite = .ok after) : after.suites = set.suites ++ [suite] := by
  simp only [push, bind_eq_ok] at h
  obtain ⟨_, -, _, -, _, -, _, -, ⟨⟩⟩ := h
  rfl

theorem Totalled.push (h : set.Totalled) (hpush : set.push suite = .ok after) :
    after.Totalled := by
  have hsuites := suites_push hpush
  simp only [ReportSet.push, bind_eq_ok, Count.add_eq_ok_iff] at hpush
  obtain ⟨tests, htests, failures, hfailures, errors, herrors, skipped, hskipped, ⟨⟩⟩ := hpush
  constructor
  · rw [hsuites, stated_append, stated_singleton, ← h.tests]
    exact htests
  · rw [hsuites, stated_append, stated_singleton, ← h.failures]
    exact hfailures
  · rw [hsuites, stated_append, stated_singleton, ← h.errors]
    exact herrors
  · rw [hsuites, stated_append, stated_singleton, ← h.skipped]
    exact hskipped

/-- A suite is not taken only if one of the four sums is too large. -/
theorem Totalled.push_eq_error (h : set.Totalled) (hpush : set.push suite = .error fault) :
    fault = .overflow ∧ ¬ CountsFit (set.suites ++ [suite]) := by
  have hlarge {count : TestSuite → UInt32} {total : UInt32}
      (htotal : total.toNat = stated count set.suites)
      (hsum : 2 ^ 32 ≤ total.toNat + (count suite).toNat) :
      ¬ stated count (set.suites ++ [suite]) < 2 ^ 32 := by
    rw [stated_append, stated_singleton, ← htotal]
    exact Nat.not_lt.mpr hsum
  simp only [ReportSet.push, bind_eq_error, Count.add_eq_error_iff] at hpush
  obtain ⟨rfl, hsum⟩ | ⟨_, -, ⟨rfl, hsum⟩ | ⟨_, -, ⟨rfl, hsum⟩ | ⟨_, -, ⟨rfl, hsum⟩ |
    ⟨_, -, ⟨⟩⟩⟩⟩⟩ := hpush
  · exact ⟨rfl, fun hfit => hlarge h.tests hsum hfit.tests⟩
  · exact ⟨rfl, fun hfit => hlarge h.failures hsum hfit.failures⟩
  · exact ⟨rfl, fun hfit => hlarge h.errors hsum hfit.errors⟩
  · exact ⟨rfl, fun hfit => hlarge h.skipped hsum hfit.skipped⟩

/-! ## Any number of suites -/

/-- More suites are taken one after the other. -/
theorem pushAll_append (set : ReportSet) (suites more : List TestSuite) :
    set.pushAll (suites ++ more) = set.pushAll suites >>= fun between => between.pushAll more := by
  induction suites generalizing set with
  | nil => rfl
  | cons suite suites ih =>
      rw [List.cons_append, pushAll, pushAll]
      cases set.push suite with
      | error fault => rfl
      | ok between => exact ih between

/-- The suites of a set come first, then the suites that it gets. -/
theorem suites_pushAll (h : set.pushAll more = .ok after) :
    after.suites = set.suites ++ more := by
  induction more generalizing set with
  | nil =>
      obtain rfl := Except.ok.inj h
      exact (List.append_nil _).symm
  | cons suite more ih =>
      obtain ⟨between, hpush, hrest⟩ := bind_eq_ok.mp h
      rw [ih hrest, suites_push hpush, List.append_assoc, List.singleton_append]

theorem Totalled.pushAll (h : set.Totalled) (hpush : set.pushAll more = .ok after) :
    after.Totalled := by
  induction more generalizing set with
  | nil =>
      obtain rfl := Except.ok.inj hpush
      exact h
  | cons suite more ih =>
      obtain ⟨between, hfirst, hrest⟩ := bind_eq_ok.mp hpush
      exact ih (h.push hfirst) hrest

theorem Totalled.pushAll_eq_error (h : set.Totalled) (hpush : set.pushAll more = .error fault) :
    fault = .overflow ∧ ¬ CountsFit (set.suites ++ more) := by
  induction more generalizing set with
  | nil => cases hpush
  | cons suite more ih =>
      rcases bind_eq_error.mp hpush with hfirst | ⟨between, hfirst, hrest⟩
      · obtain ⟨hfault, hlarge⟩ := h.push_eq_error hfirst
        refine ⟨hfault, fun hfit => hlarge ?_⟩
        rw [List.append_cons] at hfit
        exact hfit.of_append
      · have hlarge := ih (h.push hfirst) hrest
        rwa [suites_push hfirst, ← List.append_cons] at hlarge

/-- **More suites** are taken exactly if all counts together can be added up. -/
theorem Totalled.pushAll_eq_error_iff (h : set.Totalled) :
    set.pushAll more = .error fault ↔ fault = .overflow ∧ ¬ CountsFit (set.suites ++ more) := by
  refine ⟨h.pushAll_eq_error, fun ⟨hfault, hlarge⟩ => ?_⟩
  cases hpush : set.pushAll more with
  | error cause => rw [hfault, (h.pushAll_eq_error hpush).1]
  | ok after => exact absurd (suites_pushAll hpush ▸ (h.pushAll hpush).countsFit) hlarge

theorem Totalled.exists_pushAll (h : set.Totalled) (hfit : CountsFit (set.suites ++ more)) :
    ∃ after, set.pushAll more = .ok after := by
  cases hpush : set.pushAll more with
  | error cause => exact absurd hfit (h.pushAll_eq_error hpush).2
  | ok after => exact ⟨after, rfl⟩

/-! ## Whether anything failed -/

/-- **A set** counts as failing exactly if one of its suites counts a failure or an error. -/
theorem Totalled.hasFailures_iff (h : set.Totalled) :
    set.hasFailures = true ↔ ∃ suite ∈ set.suites, suite.counted ≠ 0 := by
  have hwords : set.hasFailures = true
      ↔ set.totalFailures.toNat + set.totalErrors.toNat ≠ 0 := by
    rw [hasFailures, Bool.or_eq_true, decide_eq_true_eq, decide_eq_true_eq, gt_iff_lt, gt_iff_lt,
      UInt32.lt_iff_toNat_lt, UInt32.lt_iff_toNat_lt, UInt32.toNat_zero]
    omega
  rw [hwords, h.failures, h.errors, ne_eq, stated_counted_eq_zero_iff, not_forall]
  simp only [exists_prop, not_forall, ne_eq]

/-- All failures and errors together, if they can be added up. -/
theorem Totalled.failing_eq_ok_iff (h : set.Totalled) {failing : UInt32} :
    Count.add set.totalFailures set.totalErrors = .ok failing
      ↔ failing.toNat = stated (·.failures) set.suites + stated (·.errors) set.suites := by
  rw [Count.add_eq_ok_iff, h.failures, h.errors]

theorem Totalled.failing_eq_error_iff (h : set.Totalled) :
    Count.add set.totalFailures set.totalErrors = .error fault
      ↔ fault = .overflow
        ∧ 2 ^ 32 ≤ stated (·.failures) set.suites + stated (·.errors) set.suites := by
  rw [Count.add_eq_error_iff, h.failures, h.errors]
  exact Iff.rfl

end ReportSet

end FailureTriage
