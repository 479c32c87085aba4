import FailureTriage.Fault

/-!
# Counts

Counts of tests are words of 32 bits.  A sum of counts that is no such word is a fault.
-/

namespace FailureTriage.Count

/-- The sum of two counts. -/
def add (a b : UInt32) : Except TriageFault UInt32 :=
  if a.toNat + b.toNat < UInt32.size then .ok (a + b) else .error .overflow

variable {a b sum : UInt32}

/-- A sum that is a count is the sum of the numbers. -/
theorem add_eq_ok_iff : add a b = .ok sum ↔ sum.toNat = a.toNat + b.toNat := by
  rw [add]
  split
  next hfits =>
    rw [Except.ok.injEq, ← UInt32.toNat_inj, UInt32.toNat_add, Nat.mod_eq_of_lt hfits, eq_comm]
  next hlarge =>
    have hsum := sum.toNat_lt_size
    exact iff_of_false nofun (by omega)

/-- There is no such sum exactly if it is too large. -/
theorem add_eq_error_iff {fault : TriageFault} :
    add a b = .error fault ↔ fault = .overflow ∧ UInt32.size ≤ a.toNat + b.toNat := by
  rw [add]
  split
  next hfits => exact iff_of_false nofun fun h => absurd hfits (Nat.not_lt.mpr h.2)
  next hlarge =>
    rw [Except.error.injEq, and_iff_left (Nat.not_lt.mp hlarge), eq_comm]

end FailureTriage.Count
