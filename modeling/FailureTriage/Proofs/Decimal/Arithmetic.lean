import FailureTriage.Proofs.Decimal.Packing
import Mathlib.Tactic.FieldSimp

/-!
# Arithmetic on numbers of 64 bits

Products, quotients, whole numbers and decimal numbers are rounded from their exact value.

* `roundedFrom_mul`, `roundedFrom_div`, `roundedFrom_ofNat`: the operations on unpacked numbers.
* `exists_ofScientific`: a decimal number, whether it is read through a table of powers of ten or
  not.
-/

namespace FailureTriage.Binary

open Float.Model Float.Model.UnpackedFloat

variable {f : UnpackedFloat} {sign : Sign} {n : Nat} {e : Int}

/-! ## Operations on unpacked numbers -/

/-- A number that is known exactly is rounded, if it has bits enough. -/
theorem roundedFrom_exact (h : 2 ^ 52 ≤ n ∨ e ≤ -1074) :
    RoundedFrom (roundWithAccuracy Format.binary64 sign n e .exact) sign (n * 2 ^ e) := by
  refine ⟨n, e, .exact, ?_, ?_, rfl⟩
  · exact mul_div_cancel_right₀ _ (zpow_ne_zero e (by norm_num))
  · rw [roundingExponent]
    rcases h with h | h
    · have := (Nat.le_log2 (by omega : n ≠ 0)).mpr h
      omega
    · exact le_max_of_le_right h

/-- Where a fraction lies between two whole numbers. -/
private theorem tells_fraction (n : Nat) {num den : Nat} (h : num < den) :
    Tells (.ofMantissaAndAccuracy n (accuracyOfFraction num den)) (n + (num : ℚ) / den) := by
  have hden : (0 : ℚ) < den := by exact_mod_cast Nat.zero_lt_of_lt h
  have hless : (num : ℚ) < den := by exact_mod_cast h
  rw [accuracyOfFraction]
  rcases Nat.eq_zero_or_pos num with rfl | hpos
  · rw [if_pos rfl]
    simp [Tells, ExtendedMantissa.ofMantissaAndAccuracy]
  · have hpos' : (0 : ℚ) < num := by exact_mod_cast hpos
    rw [if_neg (Nat.ne_of_gt hpos)]
    rcases lt_trichotomy (2 * num) den with hlt | heq | hgt
    · have hlt' : (2 : ℚ) * num < den := by exact_mod_cast hlt
      rw [Nat.compare_eq_lt.mpr hlt]
      refine ⟨lt_add_of_pos_right _ (div_pos hpos' hden), ?_⟩
      have : (num : ℚ) / den < 1 / 2 := by rw [div_lt_div_iff₀ hden (by norm_num)]; linarith
      show (n : ℚ) + num / den < n + 1 / 2
      linarith
    · have heq' : (2 : ℚ) * num = den := by exact_mod_cast heq
      rw [Nat.compare_eq_eq.mpr heq]
      show (n : ℚ) + num / den = n + 1 / 2
      rw [← heq', mul_comm, div_mul_cancel_left₀ hpos'.ne', one_div]
    · have hgt' : (den : ℚ) < 2 * num := by exact_mod_cast hgt
      rw [Nat.compare_eq_gt.mpr hgt]
      constructor
      · have : (1 : ℚ) / 2 < num / den := by rw [div_lt_div_iff₀ (by norm_num) hden]; linarith
        show (n : ℚ) + 1 / 2 < n + num / den
        linarith
      · have : (num : ℚ) / den < 1 := by rw [div_lt_one hden]; exact hless
        show (n : ℚ) + num / den < n + 1
        linarith

/-- The exponent that a quotient is computed down to. -/
private def quotientExponent (m₁ : Nat) (e₁ : Int) (m₂ : Nat) (e₂ : Int) : Int :=
  min (e₁ - e₂) (max ((m₁.log2 : Int) + e₁ - (m₂.log2 + e₂) - 53) (-1074))

private theorem divCore_eq (m₁ : Nat) (e₁ : Int) (m₂ : Nat) (e₂ : Int) :
    divCore Format.binary64 m₁ e₁ m₂ e₂ =
      (m₁ * 2 ^ (e₁ - e₂ - quotientExponent m₁ e₁ m₂ e₂).toNat / m₂,
        quotientExponent m₁ e₁ m₂ e₂,
        accuracyOfFraction (m₁ * 2 ^ (e₁ - e₂ - quotientExponent m₁ e₁ m₂ e₂).toNat % m₂) m₂) := by
  have htarget : min (e₁ - e₂) (Format.binary64.targetExponent
      (totalExponent m₁ e₁ - totalExponent m₂ e₂)) = quotientExponent m₁ e₁ m₂ e₂ := by
    rw [quotientExponent, Format.targetExponent, totalExponent, totalExponent]
    simp only [Format.mantissaBits, Format.minExponent]
    omega
  rw [divCore]
  simp only [htarget, Nat.shiftLeft_eq]

/-- The quotient has bits enough. -/
private theorem le_quotient {m₁ m₂ : Nat} {e₁ e₂ : Int} (h₁ : 0 < m₁) (h₂ : 0 < m₂) :
    2 ^ 52 ≤ m₁ * 2 ^ (e₁ - e₂ - quotientExponent m₁ e₁ m₂ e₂).toNat / m₂
      ∨ quotientExponent m₁ e₁ m₂ e₂ ≤ -1074 := by
  rcases le_or_gt (quotientExponent m₁ e₁ m₂ e₂) (-1074) with hlow | hhigh
  · exact Or.inr hlow
  · refine Or.inl ((Nat.le_div_iff_mul_le h₂).mpr ?_)
    have hshift : m₂.log2 + 53 ≤ m₁.log2 + (e₁ - e₂ - quotientExponent m₁ e₁ m₂ e₂).toNat := by
      rw [quotientExponent] at hhigh ⊢
      omega
    calc 2 ^ 52 * m₂ ≤ 2 ^ 52 * 2 ^ (m₂.log2 + 1) := Nat.mul_le_mul_left _ Nat.lt_log2_self.le
      _ = 2 ^ (m₂.log2 + 53) := by rw [← Nat.pow_add]; congr 1; omega
      _ ≤ 2 ^ (m₁.log2 + (e₁ - e₂ - quotientExponent m₁ e₁ m₂ e₂).toNat) :=
          Nat.pow_le_pow_right (by decide) hshift
      _ = 2 ^ m₁.log2 * 2 ^ (e₁ - e₂ - quotientExponent m₁ e₁ m₂ e₂).toNat := Nat.pow_add _ _ _
      _ ≤ m₁ * 2 ^ (e₁ - e₂ - quotientExponent m₁ e₁ m₂ e₂).toNat :=
          Nat.mul_le_mul_right _ (Nat.log2_self_le (Nat.ne_of_gt h₁))

/-- A quotient is rounded. -/
theorem roundedFrom_div {s₁ s₂ : Sign} {m₁ m₂ : Nat} {e₁ e₂ : Int} (h₁ : 0 < m₁) (h₂ : 0 < m₂) :
    RoundedFrom (UnpackedFloat.div Format.binary64 (.finite s₁ m₁ e₁ h₁) (.finite s₂ m₂ e₂ h₂))
      (s₁ / s₂) (m₁ * 2 ^ e₁ / (m₂ * 2 ^ e₂)) := by
  have hexponent : quotientExponent m₁ e₁ m₂ e₂ ≤ e₁ - e₂ := min_le_left _ _
  have henough := @le_quotient m₁ m₂ e₁ e₂ h₁ h₂
  rw [UnpackedFloat.div, divCore_eq]
  dsimp only
  generalize quotientExponent m₁ e₁ m₂ e₂ = t at *
  refine ⟨_, t, _, ?_, ?_, rfl⟩
  · have hden : (m₂ : ℚ) ≠ 0 := by exact_mod_cast Nat.ne_of_gt h₂
    have hvalue : (m₁ : ℚ) * 2 ^ e₁ / (m₂ * 2 ^ e₂) / 2 ^ t
        = ((m₁ * 2 ^ (e₁ - e₂ - t).toNat / m₂ : Nat) : ℚ)
          + ((m₁ * 2 ^ (e₁ - e₂ - t).toNat % m₂ : Nat) : ℚ) / m₂ := by
      have hsplit := Nat.div_add_mod (m₁ * 2 ^ (e₁ - e₂ - t).toNat) m₂
      have hpower : (2 : ℚ) ^ e₁ = 2 ^ (e₁ - e₂ - t).toNat * 2 ^ e₂ * 2 ^ t := by
        rw [← zpow_natCast, ← zpow_add₀ (by norm_num), ← zpow_add₀ (by norm_num)]
        congr 1
        omega
      generalize m₁ * 2 ^ (e₁ - e₂ - t).toNat / m₂ = q at *
      generalize m₁ * 2 ^ (e₁ - e₂ - t).toNat % m₂ = r at *
      have hsplit' : (m₁ : ℚ) * 2 ^ (e₁ - e₂ - t).toNat = m₂ * q + r := by
        exact_mod_cast hsplit.symm
      have hB : (2 : ℚ) ^ e₂ ≠ 0 := zpow_ne_zero e₂ (by norm_num)
      have hT : (2 : ℚ) ^ t ≠ 0 := zpow_ne_zero t (by norm_num)
      calc (m₁ : ℚ) * 2 ^ e₁ / (m₂ * 2 ^ e₂) / 2 ^ t
          = m₁ * 2 ^ (e₁ - e₂ - t).toNat / m₂ := by rw [hpower]; field_simp
        _ = q + r / m₂ := by rw [hsplit', add_div, mul_div_cancel_left₀ _ hden]
    rw [hvalue]
    exact tells_fraction _ (Nat.mod_lt _ h₂)
  · rw [roundingExponent]
    rcases henough with h | h
    · have := (Nat.le_log2 (by omega)).mpr h
      omega
    · exact le_max_of_le_right h

/-- A product is rounded. -/
theorem roundedFrom_mul {s₁ s₂ : Sign} {m₁ m₂ : Nat} {e₁ e₂ : Int} (h₁ : 0 < m₁) (h₂ : 0 < m₂)
    (h : 2 ^ 52 ≤ m₁ * m₂ ∨ e₁ + e₂ ≤ -1074) :
    RoundedFrom (UnpackedFloat.mul Format.binary64 (.finite s₁ m₁ e₁ h₁) (.finite s₂ m₂ e₂ h₂))
      (s₁ * s₂) (m₁ * 2 ^ e₁ * (m₂ * 2 ^ e₂)) := by
  have hvalue : (m₁ : ℚ) * 2 ^ e₁ * (m₂ * 2 ^ e₂) = (m₁ * m₂ : Nat) * 2 ^ (e₁ + e₂) := by
    rw [zpow_add₀ (by norm_num)]
    push_cast
    ring
  rw [hvalue]
  exact roundedFrom_exact h

/-- A whole number is rounded. -/
theorem roundedFrom_ofNat (h : 0 < n) :
    RoundedFrom (UnpackedFloat.ofNat Format.binary64 n) .positive n := by
  have hcompare : compare (n : Int) 0 = .gt := Int.compare_eq_gt.mpr (by omega)
  rw [UnpackedFloat.ofNat, UnpackedFloat.ofInt, UnpackedFloat.normalize, hcompare]
  dsimp only
  rw [UnpackedFloat.round, targetExponent_eq, decreaseExponent, Int.toNat_natCast]
  have hbits : 2 ^ 52 ≤ n * 2 ^ (0 - roundingExponent n 0).toNat := by
    have hshift : 52 ≤ n.log2 + (0 - roundingExponent n 0).toNat := by
      rw [roundingExponent]
      omega
    calc 2 ^ 52 ≤ 2 ^ (n.log2 + (0 - roundingExponent n 0).toNat) :=
          Nat.pow_le_pow_right (by decide) hshift
      _ = 2 ^ n.log2 * 2 ^ (0 - roundingExponent n 0).toNat := Nat.pow_add _ _ _
      _ ≤ n * 2 ^ (0 - roundingExponent n 0).toNat :=
          Nat.mul_le_mul_right _ (Nat.log2_self_le (Nat.ne_of_gt h))
  generalize (0 - roundingExponent n 0).toNat = k at *
  have hvalue : (n : ℚ) = (n * 2 ^ k : Nat) * 2 ^ (0 - k : Int) := by
    rw [zero_sub, zpow_neg, zpow_natCast]
    push_cast
    exact (mul_inv_cancel_right₀ (pow_ne_zero k (by norm_num)) _).symm
  have hrounded :
      RoundedFrom (roundWithAccuracy _ .positive (n * 2 ^ k) (0 - k) .exact) .positive _ :=
    roundedFrom_exact (Or.inl hbits)
  rw [← hvalue, ← Nat.shiftLeft_eq] at hrounded
  exact hrounded

/-! ## Decimal numbers -/

/-- Whether an unpacked number is a whole positive one, with all bits of its mantissa. -/
def isWhole (value : Nat) : UnpackedFloat → Bool
  | .finite .positive m e _ => 2 ^ 52 ≤ m && m * 2 ^ e.toNat == value * 2 ^ (-e).toNat
  | _ => false

theorem exists_of_isWhole (h : isWhole n f = true) :
    ∃ m e hm, f = .finite .positive m e hm ∧ 2 ^ 52 ≤ m ∧ (m : ℚ) * 2 ^ e = n := by
  cases f with
  | infinity s => cases h
  | notANumber => cases h
  | zero s => cases h
  | finite s m e hm =>
    cases s with
    | negative => cases h
    | positive =>
      rw [isWhole, Bool.and_eq_true, decide_eq_true_eq, beq_iff_eq] at h
      obtain ⟨hbits, hvalue⟩ := h
      refine ⟨m, e, hm, rfl, hbits, ?_⟩
      have hpower : (2 : ℚ) ^ e * 2 ^ (-e).toNat = 2 ^ e.toNat := by
        rw [← zpow_natCast, ← zpow_natCast, ← zpow_add₀ (by norm_num)]
        congr 1
        omega
      have hvalue' : (m : ℚ) * 2 ^ e.toNat = n * 2 ^ (-e).toNat := by exact_mod_cast hvalue
      have hne : (2 : ℚ) ^ (-e).toNat ≠ 0 := pow_ne_zero _ (by norm_num)
      apply mul_right_cancel₀ hne
      rw [mul_assoc, hpower, hvalue']

/-- The powers of ten that a number of 64 bits holds. -/
theorem isWhole_powerOfTen (i : Nat) (h : i < Float.exactlyRepresentablePowersOfTen.size) :
    isWhole (10 ^ i) Float.exactlyRepresentablePowersOfTen[i].toModel.unpack = true := by
  have hall : ∀ i, ∀ h : i < Float.exactlyRepresentablePowersOfTen.size,
    isWhole (10 ^ i) Float.exactlyRepresentablePowersOfTen[i].toModel.unpack = true := by
    decide +kernel
  exact hall i h

/-- **A whole number** of 53 bits is held exactly. -/
theorem RoundedFrom.eq_ofNat (h : RoundedFrom f .positive n) (hpos : 0 < n) (hn : n < 2 ^ 53) :
    Fits f ∧ ∃ m e hm, f = .finite .positive m e hm ∧ (m : ℚ) * 2 ^ e = n := by
  have hlog : n.log2 ≤ 52 := Nat.lt_succ_iff.mp ((Nat.log2_lt (Nat.ne_of_gt hpos)).mpr hn)
  have hlower := Nat.log2_self_le (Nat.ne_of_gt hpos)
  have hupper := @Nat.lt_log2_self n
  have hfull : 2 ^ 52 = 2 ^ n.log2 * 2 ^ (52 - n.log2) := by rw [← Nat.pow_add]; congr 1; omega
  have hover : 2 ^ 53 = 2 ^ (n.log2 + 1) * 2 ^ (52 - n.log2) := by
    rw [← Nat.pow_add]
    congr 1
    omega
  have hbits : 2 ^ 52 ≤ n * 2 ^ (52 - n.log2) := by
    rw [hfull]; exact Nat.mul_le_mul_right _ hlower
  have hbits' : n * 2 ^ (52 - n.log2) < 2 ^ 53 := by
    rw [hover]; exact Nat.mul_lt_mul_of_pos_right hupper (Nat.two_pow_pos _)
  let b : Binary := ⟨n * 2 ^ (52 - n.log2), n.log2 - 52, decide (n * 2 ^ (52 - n.log2) = 2 ^ 52)⟩
  have hb : b.IsDouble := by
    refine ⟨Nat.mul_pos hpos (Nat.two_pow_pos _), hbits', ?_, Or.inl hbits, ?_⟩
    · show (-1074 : Int) ≤ n.log2 - 52
      omega
    · show decide (_ = _) = true ↔ _ = _ ∧ (-1074 : Int) < n.log2 - 52
      rw [decide_eq_true_eq]
      exact ⟨fun h => ⟨h, by omega⟩, And.left⟩
  have hvalue : (n : ℚ) = b.mantissa * 2 ^ b.exponent := by
    have hexponent : b.exponent = -((52 - n.log2 : Nat) : Int) := by
      show (n.log2 : Int) - 52 = _
      omega
    rw [hexponent, zpow_neg, zpow_natCast]
    show (n : ℚ) = (n * 2 ^ (52 - n.log2) : Nat) * _
    push_cast
    exact (mul_inv_cancel_right₀ (pow_ne_zero _ (by norm_num)) _).symm
  refine ⟨h.fits hn (by decide : (-1074 : Int) ≤ 0) (by decide) (by simp), b.mantissa, b.exponent,
    hb.positive, h.eq_self hb hvalue, hvalue.symm⟩

/-- A whole number of 53 bits, by way of a word. -/
private theorem exists_ofNat (hpos : 0 < n) (hn : n < 2 ^ 53) :
    ∃ m e hm, n.toUInt64.toFloat.toModel.unpack = .finite .positive m e hm
      ∧ (m : ℚ) * 2 ^ e = n := by
  obtain ⟨hfits, m, e, hm, hf, hvalue⟩ := (roundedFrom_ofNat hpos).eq_ofNat hpos hn
  have hword : n.toUInt64.toNat = n := Nat.mod_eq_of_lt (by omega)
  refine ⟨m, e, hm, ?_, hvalue⟩
  show (Float.Model.pack (UnpackedFloat.ofNat Format.binary64 n.toUInt64.toNat)).unpack = _
  rw [hword, hfits.unpack_pack, hf]

/-- A whole number that is scaled up. -/
private theorem roundedFrom_scaledUp (hpos : 0 < n) {scale : Nat} (hscale : scale ≤ 2048) :
    RoundedFrom (UnpackedFloat.ofScientific Format.binary64 n scale) .positive
      (n * (10 ^ scale : Nat)) := by
  have hlarge : ¬ (scale : Int) > 2 ^ Format.binary64.exponentBits := by
    show ¬ (scale : Int) > 2048
    omega
  have hsmall : ¬ (scale : Int) < -((2 ^ Format.binary64.exponentBits : Int) + n.log2) := by
    show ¬ (scale : Int) < -(2048 + n.log2)
    omega
  have hbits : 2 ^ 52 ≤ n <<< 53 * 10 ^ scale := by
    rw [Nat.shiftLeft_eq]
    calc 2 ^ 52 ≤ 1 * 2 ^ 53 * 1 := by decide
      _ ≤ n * 2 ^ 53 * 10 ^ scale :=
          Nat.mul_le_mul (Nat.mul_le_mul_right _ hpos) (Nat.pow_pos (by decide))
  have hvalue : ((n <<< 53 : Nat) : ℚ) * 2 ^ (-53 : Int) * ((10 ^ scale : Nat) * 2 ^ (0 : Int))
      = n * (10 ^ scale : Nat) := by
    rw [Nat.shiftLeft_eq, zpow_neg, zpow_zero]
    push_cast
    field_simp
  rw [UnpackedFloat.ofScientific, dif_neg (Nat.ne_of_gt hpos), if_neg hlarge, if_neg hsmall,
    if_pos (by omega), ← hvalue]
  exact roundedFrom_mul _ _ (Or.inl hbits)

/-- A whole number that is scaled down. -/
private theorem roundedFrom_scaledDown (hpos : 0 < n) {scale : Nat} (hsome : 0 < scale)
    (hscale : scale ≤ 2048 + n.log2) :
    RoundedFrom (UnpackedFloat.ofScientific Format.binary64 n (-scale)) .positive
      (n / (10 ^ scale : Nat)) := by
  have hlarge : ¬ -(scale : Int) > 2 ^ Format.binary64.exponentBits := by
    show ¬ -(scale : Int) > 2048
    omega
  have hsmall : ¬ -(scale : Int) < -((2 ^ Format.binary64.exponentBits : Int) + n.log2) := by
    show ¬ -(scale : Int) < -(2048 + n.log2)
    omega
  have hvalue : (n : ℚ) * 2 ^ (0 : Int) / ((10 ^ scale : Nat) * 2 ^ (0 : Int))
      = n / (10 ^ scale : Nat) := by
    rw [zpow_zero, mul_one, mul_one]
  rw [UnpackedFloat.ofScientific, dif_neg (Nat.ne_of_gt hpos), if_neg hlarge, if_neg hsmall,
    if_neg (by omega), ← hvalue]
  simp only [Int.neg_neg, Int.toNat_natCast]
  exact roundedFrom_div hpos (Nat.pow_pos (by decide))

/-- **A decimal number** is rounded from its exact value, if it is neither too large nor too small to
    be looked at. -/
theorem exists_ofScientific (hpos : 0 < n) (hlow : -(2048 + n.log2 : Int) ≤ e) (hhigh : e ≤ 2048) :
    ∃ f, Float.ofScientific n (e < 0) e.natAbs = .ofModel (.pack f)
      ∧ RoundedFrom f .positive (n * 10 ^ e) := by
  rcases lt_or_ge e 0 with hneg | hnonneg
  · obtain ⟨scale, rfl⟩ : ∃ scale : Nat, e = -scale := ⟨e.natAbs, by omega⟩
    have hvalue : (n : ℚ) * 10 ^ (-scale : Int) = n / (10 ^ scale : Nat) := by
      rw [zpow_neg, zpow_natCast, ← div_eq_mul_inv, Nat.cast_pow]
      rfl
    rw [Int.natAbs_neg, Int.natAbs_natCast, decide_eq_true hneg, Float.ofScientific, hvalue]
    split
    next h =>
      -- both numbers are held exactly
      obtain ⟨m₁, e₁, h₁, hunpack₁, hvalue₁⟩ := exists_ofNat hpos h.1
      obtain ⟨m₂, e₂, h₂, hunpack₂, -, hvalue₂⟩ := exists_of_isWhole (isWhole_powerOfTen scale _)
      refine ⟨_, rfl, ?_⟩
      rw [hunpack₁, hunpack₂, ← hvalue₁, ← hvalue₂]
      exact roundedFrom_div h₁ h₂
    next h =>
      refine ⟨_, rfl, ?_⟩
      rw [Int.negOfNat_eq]
      exact roundedFrom_scaledDown hpos (by omega) (by omega)
  · obtain ⟨scale, rfl⟩ : ∃ scale : Nat, e = scale := ⟨e.natAbs, by omega⟩
    have hvalue : (n : ℚ) * 10 ^ (scale : Int) = n * (10 ^ scale : Nat) := by
      rw [zpow_natCast, Nat.cast_pow]
      rfl
    rw [Int.natAbs_natCast, decide_eq_false (by omega), Float.ofScientific, hvalue]
    split
    next h =>
      obtain ⟨m₁, e₁, h₁, hunpack₁, hvalue₁⟩ := exists_ofNat hpos h.1
      obtain ⟨m₂, e₂, h₂, hunpack₂, hbits₂, hvalue₂⟩ :=
        exists_of_isWhole (isWhole_powerOfTen scale _)
      refine ⟨_, rfl, ?_⟩
      rw [hunpack₁, hunpack₂, ← hvalue₁, ← hvalue₂]
      exact roundedFrom_mul h₁ h₂ (Or.inl (hbits₂.trans (Nat.le_mul_of_pos_left _ h₁)))
    next h => exact ⟨_, rfl, roundedFrom_scaledUp hpos (by omega)⟩

end FailureTriage.Binary
