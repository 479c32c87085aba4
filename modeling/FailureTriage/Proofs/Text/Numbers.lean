import FailureTriage.Proofs.Text.Cutting
import FailureTriage.Text.Digits
import Mathlib

/-!
# Numbers read back

A number written in decimal digits is read as that number, with blanks around it or without.

* `digitsValue_append`, `takeWhile_digits`: the value of digits, and where they end.
* `Writes`: which number a text of digits writes.
* `Writes.readNat?_eq`, `writes_of_readNat?`: what is read of such a text.
* `readNat?_natDigits`: a written number is read back.
-/

namespace FailureTriage.Text

/-- The digits of a number have its value. -/
theorem digitsValue_natDigits (n : Nat) : digitsValue (natDigits n) = n := by
  have hfold : digitsValue (natDigits n) = Nat.ofDigitChars 10 (natDigits n) 0 := by
    rw [digitsValue, Nat.ofDigitChars_eq_foldl]
    congr 1
    funext value c
    rw [Nat.mul_comm]
  rw [hfold, natDigits, Nat.ofDigitChars_ten_toDigits]

/-- Every character of a written number is a digit. -/
theorem isDigit_of_mem_natDigits {n : Nat} {c : Char} (h : c ∈ natDigits n) :
    c.isDigit = true :=
  Nat.isDigit_of_mem_toDigits (by decide) (by decide) h

/-- The digits of a number other than zero start with another digit than zero. -/
theorem head?_natDigits {n : Nat} (h : n ≠ 0) : (natDigits n).head? ≠ some '0' := by
  rw [natDigits]
  induction n using Nat.strongRecOn with
  | ind n ih =>
      by_cases hsmall : n < 10
      · have hall : ∀ n < 10, n ≠ 0 → n.digitChar ≠ '0' := by decide
        rw [Nat.toDigits_of_lt_base hsmall, List.head?_cons]
        exact fun heq => hall n hsmall h (Option.some.inj heq)
      · have hten : 10 ≤ n := Nat.le_of_not_lt hsmall
        rw [Nat.toDigits_of_base_le (by decide) hten, List.head?_append_of_ne_nil _
          Nat.toDigits_ne_nil]
        exact ih (n / 10) (by omega) (by omega)

private theorem foldl_digits (digits : List Char) (start : Nat) :
    digits.foldl (fun value c => value * 10 + (c.toNat - '0'.toNat)) start
      = start * 10 ^ digits.length + digitsValue digits := by
  induction digits generalizing start with
  | nil => simp [digitsValue]
  | cons c digits ih =>
      have hcons : digitsValue (c :: digits)
          = (0 * 10 + (c.toNat - '0'.toNat)) * 10 ^ digits.length + digitsValue digits := by
        show digits.foldl _ (0 * 10 + (c.toNat - '0'.toNat)) = _
        rw [ih]
      rw [List.foldl_cons, ih, hcons, List.length_cons, Nat.pow_succ, Nat.zero_mul, Nat.zero_add,
        Nat.add_mul, Nat.add_assoc, Nat.mul_assoc, Nat.mul_comm 10 (10 ^ digits.length)]

/-- The value of digits followed by digits. -/
theorem digitsValue_append (before after : List Char) :
    digitsValue (before ++ after) = digitsValue before * 10 ^ after.length + digitsValue after := by
  rw [digitsValue, List.foldl_append, foldl_digits]
  rfl

theorem digitsValue_replicate (count : Nat) : digitsValue (List.replicate count '0') = 0 := by
  induction count with
  | zero => rfl
  | succ count ih =>
      rw [List.replicate_succ, ← List.singleton_append, digitsValue_append, ih,
        show digitsValue ['0'] = 0 from rfl, Nat.zero_mul]

/-- Digits are cut off from a text that goes on with something else. -/
theorem takeWhile_digits {digits rest : List Char} (h : ∀ c ∈ digits, c.isDigit = true)
    (hrest : ∀ c ∈ rest.head?, c.isDigit = false) :
    (digits ++ rest).takeWhile Char.isDigit = digits
      ∧ (digits ++ rest).dropWhile Char.isDigit = rest := by
  rw [List.takeWhile_append_of_pos h, List.dropWhile_append_of_pos h]
  cases rest with
  | nil => exact ⟨List.append_nil _, rfl⟩
  | cons c rest =>
      have hc := hrest c rfl
      rw [List.takeWhile_cons_of_neg (by simp [hc]), List.dropWhile_cons_of_neg (by simp [hc]),
        List.append_nil]
      exact ⟨rfl, rfl⟩

/-- A digit is no blank. -/
theorem isBlank_of_isDigit {c : Char} (h : c.isDigit = true) : isBlank c = false := by
  have hrange : 48 ≤ c.toNat ∧ c.toNat ≤ 57 := by
    rw [Char.isDigit, Bool.and_eq_true, decide_eq_true_eq, decide_eq_true_eq] at h
    exact h
  unfold isBlank
  simp only [Bool.or_eq_false_iff, Bool.and_eq_false_iff, beq_eq_false_iff_ne,
    decide_eq_false_iff_not]
  omega

/-- A decimal digit of any script is no blank. -/
theorem isBlank_of_isDecimalDigit {c : Char} (h : isDecimalDigit c = true) : isBlank c = false := by
  refine Bool.eq_false_iff.mpr fun hblank => ?_
  have hnone : ∀ n ∈ blankCodes, isDecimalDigit (Char.ofNat n) = false := by decide +kernel
  have hc := hnone _ (toNat_mem_blankCodes hblank)
  rw [Char.ofNat_toNat, h] at hc
  cases hc

/-- Whether a text of ASCII digits writes a number, with leading zeros or without. -/
structure Writes (digits : List Char) (n : Nat) : Prop where
  nonempty : digits ≠ []
  isDigit : ∀ c ∈ digits, c.isDigit = true
  value : digitsValue digits = n

theorem writes_natDigits (n : Nat) : Writes (natDigits n) n where
  nonempty := Nat.toDigits_ne_nil
  isDigit _ h := isDigit_of_mem_natDigits h
  value := digitsValue_natDigits n

theorem readDigits?_eq_some_iff {text : List Char} {n : Nat} :
    readDigits? text = some n ↔ Writes text n := by
  rw [readDigits?]
  constructor
  · intro h
    split at h
    · cases h
    · rename_i hdigits
      rw [Bool.or_eq_true, not_or, List.isEmpty_iff, Bool.not_eq_true', Bool.not_eq_false,
        List.all_eq_true] at hdigits
      exact ⟨hdigits.1, hdigits.2, Option.some.inj h⟩
  · rintro ⟨hne, hdigits, rfl⟩
    rw [if_neg]
    rw [Bool.or_eq_true, not_or, List.isEmpty_iff, Bool.not_eq_true', Bool.not_eq_false,
      List.all_eq_true]
    exact ⟨hne, hdigits⟩

/-- A number that is written in digits is read, if it is not too large. -/
theorem Writes.readNat?_eq {digits : List Char} {n : Nat} (h : Writes digits n) (largest : Nat) :
    readNat? largest digits = if n ≤ largest then some n else none := by
  have hplus : ∀ more, digits ≠ '+' :: more := by
    rintro more rfl
    exact absurd (h.isDigit '+' List.mem_cons_self) (by decide)
  rw [readNat?]
  · rw [readDigits?_eq_some_iff.mpr h, Option.filter_some]
    simp only [decide_eq_true_eq]
  · exact hplus

/-- What is read of a text of digits is the number that it writes. -/
theorem writes_of_readNat? {digits : List Char} {n largest : Nat}
    (hplus : digits.head? ≠ some '+') (h : readNat? largest digits = some n) :
    Writes digits n ∧ n ≤ largest := by
  rw [readNat?] at h
  · obtain ⟨hread, hle⟩ := Option.filter_eq_some_iff.mp h
    exact ⟨readDigits?_eq_some_iff.mp hread, of_decide_eq_true hle⟩
  · rintro more rfl
    exact hplus rfl

/-- A number of 32 bits that is written in digits is read back. -/
theorem Writes.readNat?_word32 {digits : List Char} {word : UInt32} (h : Writes digits word.toNat) :
    readNat? maxWord32 digits = some word.toNat := by
  have hle : word.toNat ≤ maxWord32 := Nat.le_of_lt_succ word.toNat_lt
  rw [h.readNat?_eq, if_pos hle]

/-- What is read of decimal digits is a number of 32 bits that they write. -/
theorem writes_word32_of_readNat? {digits : List Char} {n : Nat}
    (hdigits : ∀ c ∈ digits, isDecimalDigit c = true) (h : readNat? maxWord32 digits = some n) :
    Writes digits (UInt32.ofNat n).toNat := by
  have hplus : digits.head? ≠ some '+' := fun hhead =>
    absurd (hdigits '+' (List.mem_of_head? hhead)) (by decide)
  obtain ⟨hwrites, hle⟩ := writes_of_readNat? hplus h
  rwa [UInt32.toNat_ofNat_of_lt' (Nat.lt_succ_of_le hle)]

/-- **A number that is written in digits is read back**, if it is not too large. -/
theorem readNat?_natDigits {n largest : Nat} (h : n ≤ largest) :
    readNat? largest (trim (natDigits n)) = some n := by
  have hblank : ∀ c ∈ natDigits n, isBlank c = false :=
    fun c hc => isBlank_of_isDigit (isDigit_of_mem_natDigits hc)
  rw [trim_eq_self hblank, (writes_natDigits n).readNat?_eq, if_pos h]

end FailureTriage.Text
