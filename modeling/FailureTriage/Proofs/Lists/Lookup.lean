/-!
# Looking up in lists

What a list of entries says about a key.

* `lookup_cons_eq_ite`: a list with one more entry.
* `lookup_map_replace`: a list in which the entries of one key were replaced.
-/

namespace FailureTriage

variable {α β : Type} [DecidableEq α] [BEq α] [LawfulBEq α]

theorem lookup_cons_eq_ite (key seen : α) (value : β) (rest : List (α × β)) :
    ((key, value) :: rest).lookup seen = if seen = key then some value else rest.lookup seen := by
  rw [List.lookup_cons]
  by_cases h : seen = key
  · rw [if_pos h, beq_iff_eq.mpr h]
  · rw [if_neg h, beq_false_of_ne h]

/-- Replacing the entries of a key changes what is found for that key, if there was one. -/
theorem lookup_map_replace (entries : List (α × β)) (key seen : α) (value : β) :
    (entries.map fun e => if e.1 == key then (key, value) else e).lookup seen
      = if seen = key then (if entries.any (·.1 == key) then some value else none)
        else entries.lookup seen := by
  induction entries with
  | nil => simp
  | cons e entries ih =>
      obtain ⟨first, found⟩ := e
      rw [List.map_cons]
      by_cases hfirst : first = key
      · subst hfirst
        rw [if_pos (beq_self_eq_true _), lookup_cons_eq_ite, ih]
        by_cases hseen : seen = first <;> simp [hseen, lookup_cons_eq_ite]
      · rw [if_neg (by simpa using hfirst), lookup_cons_eq_ite, ih]
        by_cases hseen : seen = key
        · subst hseen
          have hne : (first == seen) = false := beq_false_of_ne hfirst
          simp only [List.any_cons, hne, Bool.false_or, Ne.symm hfirst, if_false, if_true]
        · simp [hseen, lookup_cons_eq_ite]

end FailureTriage
