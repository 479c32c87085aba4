/-!
# The order of names

Names stand in the order of their characters.
-/

namespace FailureTriage

/-- Of two different names one comes first. -/
theorem name_lt_of_not_lt {a b : String} (h : ¬ a < b) (different : a ≠ b) : b < a :=
  Decidable.byContradiction fun h' =>
    different (String.le_antisymm (String.not_lt.1 h') (String.not_lt.1 h))

/-- No names are in increasing order. -/
theorem increasing_nil : ([] : List String).Pairwise (· < ·) :=
  .nil

end FailureTriage
