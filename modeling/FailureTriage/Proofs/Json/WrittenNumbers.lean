import FailureTriage.Json.Writer
import FailureTriage.Proofs.Json.Grammar
import FailureTriage.Proofs.Text.Numbers
import Mathlib

/-!
# Numbers as they are written

A number is written as one of the grammar.  A whole number is written as it is; a scaled one may be
written with more digits and a smaller exponent.

* `Decimal.reread`: a scaled number as it is written.
* `writesNumber_whole`, `writesNumber_scaled`: the two sorts of numbers.
-/

namespace FailureTriage

namespace Json

/-! ## The digits before the point -/

theorem isWhole_natDigits (n : Nat) : IsWhole (Text.natDigits n) where
  nonempty := Nat.toDigits_ne_nil
  isDigit := fun _ hc => Text.isDigit_of_mem_natDigits hc
  noZero hlength := by
    refine Text.head?_natDigits ?_
    rintro rfl
    exact absurd hlength (by decide)

theorem isWhole_zero : IsWhole ['0'] :=
  isWhole_natDigits 0

/-- The first digits of a number with more digits after them. -/
theorem IsWhole.append {digits : List Char} (h : IsWhole digits) {more : List Char}
    (hmore : ∀ c ∈ more, c.isDigit = true) (hzero : digits.head? ≠ some '0') :
    IsWhole (digits ++ more) where
  nonempty := fun hnil => h.nonempty (List.append_eq_nil_iff.mp hnil).1
  isDigit c hc := by
    rcases List.mem_append.mp hc with hc | hc
    · exact h.isDigit c hc
    · exact hmore c hc
  noZero _ := by
    rw [List.head?_append_of_ne_nil _ h.nonempty]
    exact hzero

/-- The first digits of a number that does not start with a zero. -/
theorem IsWhole.take {digits : List Char} (h : IsWhole digits) {count : Nat} (hcount : 0 < count)
    (hzero : digits.head? ≠ some '0') : IsWhole (digits.take count) where
  nonempty hnil := by
    rcases List.take_eq_nil_iff.mp hnil with hnone | hnil
    · omega
    · exact h.nonempty hnil
  isDigit c hc := h.isDigit c (List.mem_of_mem_take hc)
  noZero _ := by
    rw [List.head?_take, if_neg (by omega)]
    exact hzero

variable {negative : Bool} {before digits : List Char}

/-! ## Numbers by their parts -/

/-- The text of an exponent. -/
def powerText (power : Int) : List Char :=
  'e' :: (if power < 0 then '-' else '+') :: Text.natDigits power.natAbs

theorem isPower_powerText (power : Int) : IsPower (powerText power) (some power) := by
  have hdigits : ∀ c ∈ Text.natDigits power.natAbs, c.isDigit = true :=
    fun _ hc => Text.isDigit_of_mem_natDigits hc
  have hne : Text.natDigits power.natAbs ≠ [] := Nat.toDigits_ne_nil
  have hvalue := Text.digitsValue_natDigits power.natAbs
  by_cases hneg : power < 0
  · have hpower := @IsPower.digits 'e' ['-'] _ (-1) (Or.inl rfl) (by decide) hne hdigits
    rw [hvalue, show -1 * (power.natAbs : Int) = power by omega] at hpower
    rw [powerText, if_pos hneg]
    exact hpower
  · have hpower := @IsPower.digits 'e' ['+'] _ 1 (Or.inl rfl) (by decide) hne hdigits
    rw [hvalue, show 1 * (power.natAbs : Int) = power by omega] at hpower
    rw [powerText, if_neg hneg]
    exact hpower

/-- **A whole number** is written as it is. -/
theorem writesNumber_whole (negative : Bool) (value : Nat) :
    WritesNumber (.whole negative value) (numberText (.whole negative value)) := by
  have h := @WritesNumber.parts negative _ _ _ _ _ (isWhole_natDigits value) .none .none
  rwa [numeralOf, Text.digitsValue_natDigits, List.append_nil, List.append_nil] at h

/-- A number with digits after its point. -/
private theorem writesNumber_fraction (hwhole : IsWhole before) (hne : digits ≠ [])
    (hdigits : ∀ c ∈ digits, c.isDigit = true) :
    WritesNumber (.ofParts negative before digits 0)
      (signText negative ++ (before ++ '.' :: digits)) := by
  have h := @WritesNumber.parts negative _ _ _ _ _ hwhole (.digits hne hdigits) .none
  rwa [List.append_nil] at h

/-- A number with an exponent and no point. -/
private theorem writesNumber_power (hwhole : IsWhole before) (power : Int) :
    WritesNumber (.ofParts negative before [] power)
      (signText negative ++ (before ++ powerText power)) :=
  .parts hwhole .none (isPower_powerText power)

/-- A number with digits after its point and an exponent. -/
private theorem writesNumber_fraction_power (hwhole : IsWhole before) (hne : digits ≠ [])
    (hdigits : ∀ c ∈ digits, c.isDigit = true) (power : Int) :
    WritesNumber (.ofParts negative before digits power)
      (signText negative ++ (before ++ '.' :: (digits ++ powerText power))) :=
  .parts hwhole (.digits hne hdigits) (isPower_powerText power)

end Json

namespace Decimal

open Json

/-- A number as it is written: with a zero after its point, if it is a whole one that is written
    without an exponent. -/
def reread (d : Decimal) : Decimal :=
  if d.digits = 0 then ⟨d.negative, 0, -1⟩
  else if 0 ≤ d.exponent ∧ (Text.natDigits d.digits).length + d.exponent ≤ 16 then
    ⟨d.negative, d.digits * 10 ^ (d.exponent.toNat + 1), -1⟩
  else d

variable {d : Decimal}

private theorem isDigit_zero : ∀ c ∈ ['0'], c.isDigit = true := by
  intro c hc
  rw [List.mem_singleton.mp hc]
  rfl

private theorem isDigit_zeros {count : Nat} : ∀ c ∈ zeros count, c.isDigit = true := by
  intro c hc
  rw [List.eq_of_mem_replicate hc]
  rfl

/-- A whole number with a point and a zero after its digits. -/
private theorem writesNumber_padded (hdigits : d.digits ≠ 0) (hexponent : 0 ≤ d.exponent) :
    WritesNumber (.scaled ⟨d.negative, d.digits * 10 ^ (d.exponent.toNat + 1), -1⟩)
      (signText d.negative ++ (withPoint (Text.natDigits d.digits) d.exponent ++ ['.', '0'])) := by
  have hwhole : IsWhole (Text.natDigits d.digits ++ zeros d.exponent.toNat) :=
    (isWhole_natDigits d.digits).append isDigit_zeros (Text.head?_natDigits hdigits)
  have h := @writesNumber_fraction d.negative _ _ hwhole (List.cons_ne_nil _ _) isDigit_zero
  rw [Numeral.ofParts, Text.digitsValue_append, Text.digitsValue_append,
    Text.digitsValue_natDigits, zeros, Text.digitsValue_replicate, List.length_replicate] at h
  rw [withPoint, if_pos hexponent, zeros, Nat.pow_succ, ← Nat.mul_assoc]
  exact h

/-- A number with its point among its digits, or before them. -/
private theorem writesNumber_pointed (hdigits : d.digits ≠ 0) (hexponent : d.exponent < 0) :
    WritesNumber (.scaled d)
      (signText d.negative ++ withPoint (Text.natDigits d.digits) d.exponent) := by
  have hall : ∀ c ∈ Text.natDigits d.digits, c.isDigit = true :=
    fun _ hc => Text.isDigit_of_mem_natDigits hc
  have hwhole := isWhole_natDigits d.digits
  have hhead := Text.head?_natDigits hdigits
  have hvalue := Text.digitsValue_natDigits d.digits
  -- the point stands among the digits, or before them with zeros in between
  rw [withPoint, if_neg (by omega)]
  generalize Text.natDigits d.digits = text at *
  by_cases hplace : 0 < text.length + d.exponent
  · have hdrop : text.drop (text.length + d.exponent).toNat ≠ [] := by
      rw [ne_eq, List.drop_eq_nil_iff]
      omega
    have hscale : (0 : Int) - (text.drop (text.length + d.exponent).toNat).length = d.exponent := by
      rw [List.length_drop]
      omega
    have hstart : IsWhole (text.take (text.length + d.exponent).toNat) :=
      hwhole.take (by omega) hhead
    have h := @writesNumber_fraction d.negative _ _ hstart hdrop
      fun c hc => hall c (List.mem_of_mem_drop hc)
    rw [Numeral.ofParts, List.take_append_drop, hvalue, hscale] at h
    rw [if_pos hplace]
    exact h
  · have hmore : zeros (-(text.length + d.exponent)).toNat ++ text ≠ [] :=
      fun hnil => hwhole.nonempty (List.append_eq_nil_iff.mp hnil).2
    have hmoreDigits : ∀ c ∈ zeros (-(text.length + d.exponent)).toNat ++ text,
        c.isDigit = true := by
      intro c hc
      rcases List.mem_append.mp hc with hc | hc
      · exact isDigit_zeros c hc
      · exact hall c hc
    have hscale : (0 : Int) - (zeros (-(text.length + d.exponent)).toNat ++ text).length
        = d.exponent := by
      rw [List.length_append, zeros, List.length_replicate]
      omega
    have hzeros : Text.digitsValue (['0'] ++ (zeros (-(text.length + d.exponent)).toNat ++ text))
        = d.digits := by
      rw [Text.digitsValue_append, Text.digitsValue_append, hvalue, zeros,
        Text.digitsValue_replicate]
      simp [Text.digitsValue]
    have h := @writesNumber_fraction d.negative _ _ isWhole_zero hmore hmoreDigits
    rw [Numeral.ofParts, hscale, hzeros] at h
    rw [if_neg hplace]
    exact h

/-- A number with an exponent. -/
private theorem writesNumber_exponent (hdigits : d.digits ≠ 0) :
    WritesNumber (.scaled d) (signText d.negative ++ (
        match Text.natDigits d.digits with
        | [only] => only :: powerText ((Text.natDigits d.digits).length + d.exponent - 1)
        | first :: more =>
          first :: '.' :: more ++ powerText ((Text.natDigits d.digits).length + d.exponent - 1)
        | [] => [])) := by
  have hwhole := isWhole_natDigits d.digits
  have hhead := Text.head?_natDigits hdigits
  have hvalue := Text.digitsValue_natDigits d.digits
  generalize Text.natDigits d.digits = text at *
  obtain ⟨first, more, rfl⟩ := List.exists_cons_of_ne_nil hwhole.nonempty
  have hfirst : IsWhole [first] := hwhole.take (show 0 < 1 by decide) hhead
  cases more with
  | nil =>
      have h := @writesNumber_power d.negative _ hfirst ((1 : Int) + d.exponent - 1)
      have hscale : (1 : Int) + d.exponent - 1 - (0 : Nat) = d.exponent := by omega
      rw [Numeral.ofParts, List.append_nil, hvalue, List.length_nil, hscale] at h
      exact h
  | cons second more =>
      have hmore : ∀ c ∈ second :: more, c.isDigit = true :=
        fun c hc => hwhole.isDigit c (List.mem_cons_of_mem first hc)
      have h := @writesNumber_fraction_power d.negative _ _ hfirst (List.cons_ne_nil _ _) hmore
        ((first :: second :: more).length + d.exponent - 1)
      have hscale : ((first :: second :: more).length : Int) + d.exponent - 1
          - (second :: more).length = d.exponent := by
        rw [List.length_cons]
        omega
      rw [Numeral.ofParts, List.singleton_append, hvalue, hscale] at h
      exact h

/-- **A scaled number** is written as one of the grammar. -/
theorem writesNumber_scaled (d : Decimal) :
    WritesNumber (.scaled d.reread) (numberText (.scaled d)) := by
  rw [numberText, scientific, reread]
  by_cases hdigits : d.digits = 0
  · -- zero has one digit before its point and one after it
    rw [if_pos hdigits, if_pos hdigits]
    exact writesNumber_fraction isWhole_zero (List.cons_ne_nil _ _) isDigit_zero
  · rw [if_neg hdigits, if_neg hdigits]
    by_cases hpad : 0 ≤ d.exponent ∧ (Text.natDigits d.digits).length + d.exponent ≤ 16
    · rw [if_pos hpad, if_pos (by simpa using hpad)]
      exact writesNumber_padded hdigits hpad.1
    · rw [if_neg hpad, if_neg (by simpa using hpad)]
      by_cases hpoint : -5 < (Text.natDigits d.digits).length + d.exponent
          ∧ (Text.natDigits d.digits).length + d.exponent ≤ 16
      · rw [if_pos (by simpa using hpoint)]
        exact writesNumber_pointed hdigits (by omega)
      · rw [if_neg (by simpa using hpoint)]
        have hsign : ((Text.natDigits d.digits).length + d.exponent ≤ 0)
            ↔ (Text.natDigits d.digits).length + d.exponent - 1 < 0 := by omega
        have h := writesNumber_exponent hdigits
        rw [powerText] at h
        generalize Text.natDigits d.digits = text at hsign h ⊢
        cases text with
        | nil => exact h
        | cons first more => cases more <;> simpa only [hsign] using h

end Decimal

end FailureTriage
