import FailureTriage.Decimal.Whole
import FailureTriage.Proofs.Decimal.Shortest

/-!
# Numbers that stay finite

A number that is not finite never becomes so again by division, and one that is finite stays so if
it is divided by one or more, or rounded to a whole number.

* `isFinite_div_iff`, `AtMost.div`, `AtMost.mul`: quotients and products.
* `isFinite_toWhole_iff`: a whole number.
* `isFinite_toThousandths_iff`: rounding to three places loses a number only by its product.
-/

namespace FailureTriage

open Float.Model Float.Model.UnpackedFloat

namespace Binary

variable {x y : Float} {n : Nat} {s : Int}

/-! ## Numbers within bounds -/

/-- Whether a number is finite and at most a power of two. -/
structure AtMost (s : Int) (x : Float) : Prop where
  finite : x.isFinite = true
  bound : magnitude x.toModel.unpack ≤ 2 ^ s

/-- A number that was packed. -/
theorem atMost_pack {f : UnpackedFloat} (h : Fits f) (hbound : magnitude f ≤ 2 ^ s) :
    AtMost s (.ofModel (.pack f)) where
  finite := h.isFinite_pack
  bound := by
    show magnitude (Float.Model.pack f).unpack ≤ _
    rwa [h.unpack_pack]

/-- What is rounded from at most a power of two. -/
theorem RoundedFrom.atMost {f : UnpackedFloat} {sign : Sign} {v : ℚ} (h : RoundedFrom f sign v)
    (hlow : -1074 ≤ s) (hhigh : s ≤ 971) (hv : v ≤ 2 ^ s) : AtMost s (.ofModel (.pack f)) := by
  have hv' : v ≤ (1 : Nat) * 2 ^ s := by rwa [Nat.cast_one, one_mul]
  refine atMost_pack (h.fits (by decide) hlow hhigh hv') ?_
  have hbound := h.magnitude_le (by decide) hlow hv'
  rwa [Nat.cast_one, one_mul] at hbound

private theorem atMost_zero {sign : Sign} : AtMost s (.ofModel (.pack (.zero sign))) :=
  atMost_pack fits_zero (zpow_pos (by norm_num) s).le

/-- **A whole number** of 53 bits. -/
theorem unpack_ofNat (hpos : 0 < n) (hn : n < 2 ^ 53) :
    ∃ m e hm, (Float.ofNat n).toModel.unpack = .finite .positive m e hm ∧ (m : ℚ) * 2 ^ e = n := by
  obtain ⟨f, hf, hrounded⟩ := exists_ofScientific (e := 0) hpos (by omega) (by decide)
  rw [zpow_zero, mul_one] at hrounded
  obtain ⟨hfits, m, e, hm, hfinite, hvalue⟩ := hrounded.eq_ofNat hpos hn
  refine ⟨m, e, hm, ?_, hvalue⟩
  rw [← hfinite, ← hfits.unpack_pack]
  exact congrArg (·.toModel.unpack) hf

theorem atMost_ofNat (hn : n < 2 ^ 53) {k : Nat} (hk : n ≤ 2 ^ k) : AtMost k (Float.ofNat n) := by
  rcases Nat.eq_zero_or_pos n with rfl | hpos
  · rw [show Float.ofNat 0 = .ofModel (.pack (.zero .positive)) by decide +kernel]
    exact atMost_zero
  · obtain ⟨m, e, hm, hunpack, hvalue⟩ := unpack_ofNat hpos hn
    constructor
    · show (Float.ofNat n).toModel.unpack.isFinite = true
      rw [hunpack]
      rfl
    · rw [hunpack, magnitude, hvalue, zpow_natCast]
      exact_mod_cast hk

/-! ## Quotients and products -/

private theorem isFinite_pack_infinity (sign : Sign) :
    (Float.Model.pack (.infinity sign)).unpack.isFinite = false := by
  cases sign <;> decide

private theorem isFinite_pack_notANumber :
    (Float.Model.pack .notANumber).unpack.isFinite = false := by
  decide

/-- **A quotient** is finite only if what was divided is. -/
theorem isFinite_of_div (h : (x / y).isFinite = true) : x.isFinite = true := by
  change (Float.Model.pack (UnpackedFloat.div Format.binary64 x.toModel.unpack
    y.toModel.unpack)).unpack.isFinite = true at h
  show x.toModel.unpack.isFinite = true
  cases hx : x.toModel.unpack with
  | zero sign => rfl
  | finite sign m e hm => rfl
  | notANumber =>
    rw [hx] at h
    exact absurd (isFinite_pack_notANumber.symm.trans h) Bool.false_ne_true
  | infinity sign =>
    rw [hx] at h
    -- infinity, or no number
    have hlost : (Float.Model.pack (UnpackedFloat.div Format.binary64 (.infinity sign)
        y.toModel.unpack)).unpack.isFinite = false := by
      cases y.toModel.unpack with
      | notANumber => exact isFinite_pack_notANumber
      | infinity s => exact isFinite_pack_notANumber
      | zero s => exact isFinite_pack_infinity _
      | finite s m e hm => exact isFinite_pack_infinity _
    exact absurd (hlost.symm.trans h) Bool.false_ne_true

/-- **A number divided** by one or more does not get larger. -/
theorem fits_div (hx : x.isFinite = true) {sign : Sign} {m : Nat} {e : Int} {hm : 0 < m}
    (hy : y.toModel.unpack = .finite sign m e hm) (hone : (1 : ℚ) ≤ m * 2 ^ e) :
    Fits (UnpackedFloat.div Format.binary64 x.toModel.unpack y.toModel.unpack)
      ∧ magnitude (UnpackedFloat.div Format.binary64 x.toModel.unpack y.toModel.unpack)
        ≤ magnitude x.toModel.unpack := by
  rw [hy]
  rcases unpack_eq hx with ⟨-, hzero⟩ | ⟨hb, hhighest, hfinite⟩
  · rw [hzero]
    exact ⟨fits_zero, le_rfl⟩
  · rw [hfinite]
    have hpos : (0 : ℚ) ≤ (ofDouble x).mantissa * 2 ^ (ofDouble x).exponent := by positivity
    have hless := div_le_self hpos hone
    exact ⟨(roundedFrom_div hb.positive hm).fits hb.bits hb.lowest hhighest hless,
      (roundedFrom_div hb.positive hm).magnitude_le hb.bits hb.lowest hless⟩

theorem isFinite_div_iff {sign : Sign} {m : Nat} {e : Int} {hm : 0 < m}
    (hy : y.toModel.unpack = .finite sign m e hm) (hone : (1 : ℚ) ≤ m * 2 ^ e) :
    (x / y).isFinite = true ↔ x.isFinite = true :=
  ⟨isFinite_of_div, fun hx => (fits_div hx hy hone).1.isFinite_pack⟩

theorem AtMost.div (h : AtMost s x) {sign : Sign} {m : Nat} {e : Int} {hm : 0 < m}
    (hy : y.toModel.unpack = .finite sign m e hm) (hone : (1 : ℚ) ≤ m * 2 ^ e) :
    AtMost s (x / y) :=
  have ⟨hfits, hless⟩ := fits_div h.finite hy hone
  atMost_pack hfits (hless.trans h.bound)

/-- **A number multiplied** by a whole one. -/
theorem AtMost.mul (h : AtMost s x) {k : Nat} (hy : isWhole n y.toModel.unpack = true)
    (hn : n ≤ 2 ^ k) (hlow : -1074 ≤ s) (hhigh : s + k ≤ 971) : AtMost (s + k) (x * y) := by
  obtain ⟨m, e, hm, hunpack, hbits, hvalue⟩ := exists_of_isWhole hy
  show AtMost (s + k) (.ofModel (.pack (UnpackedFloat.mul Format.binary64 x.toModel.unpack
    y.toModel.unpack)))
  have hbound := h.bound
  rw [hunpack]
  rcases unpack_eq h.finite with ⟨-, hzero⟩ | ⟨hb, hhighest, hfinite⟩
  · rw [hzero]
    exact atMost_zero
  · rw [hfinite] at hbound ⊢
    have hmore : 2 ^ 52 ≤ (ofDouble x).mantissa * m :=
      hbits.trans (Nat.le_mul_of_pos_left m hb.positive)
    refine (roundedFrom_mul hb.positive hm (Or.inl hmore)).atMost (by omega) hhigh ?_
    have hn' : (n : ℚ) ≤ 2 ^ k := by exact_mod_cast hn
    rw [hvalue, zpow_add₀ (by norm_num), zpow_natCast]
    exact mul_le_mul hbound hn' (by positivity) (by positivity)

end Binary

/-! ## Rounding -/

namespace Decimal

open Binary

variable {x : Float}

/-- A finite number is so with either sign. -/
theorem isFinite_signed (negative : Bool) (hx : x.isFinite = true) :
    (signed negative x).isFinite = true := by
  cases negative with
  | false => exact hx
  | true =>
    have hfits := fits_unpack hx
    show (Float.ofModel (.pack x.toModel.unpack.neg)).isFinite = true
    refine Fits.isFinite_pack ?_
    cases hunpack : x.toModel.unpack with
    | finite sign m e hm =>
      rw [hunpack] at hfits
      exact ⟨hfits.canonical, hfits.range⟩
    | zero sign => exact fits_zero
    | infinity sign =>
      rw [hunpack] at hfits
      exact hfits.canonical.elim
    | notANumber =>
      rw [hunpack] at hfits
      exact hfits.canonical.elim

/-- A number with bits after its point has less than 53 before it. -/
private theorem rounded_lt (hx : x.isFinite = true) (hexponent : (ofDouble x).exponent < 0) :
    (2 * (ofDouble x).mantissa + 2 ^ (-(ofDouble x).exponent).toNat)
      / (2 * 2 ^ (-(ofDouble x).exponent).toNat) < 2 ^ 53 := by
  have hbits : (ofDouble x).mantissa < 2 ^ 53 := by
    rcases unpack_eq hx with ⟨hzero, -⟩ | ⟨hb, -⟩
    · omega
    · exact hb.bits
  have hunit : 2 ^ 1 ≤ 2 ^ (-(ofDouble x).exponent).toNat :=
    Nat.pow_le_pow_right (by decide) (by omega)
  generalize 2 ^ (-(ofDouble x).exponent).toNat = unit at hunit ⊢
  refine Nat.div_lt_of_lt_mul ?_
  have := Nat.mul_le_mul_left (2 ^ 53) hunit
  omega

/-- **Rounding to a whole number** keeps finite numbers finite, and leaves others as they are. -/
theorem isFinite_toWhole_iff : (toWhole x).isFinite = true ↔ x.isFinite = true := by
  rw [toWhole]
  dsimp only
  split
  next h =>
    rw [Bool.and_eq_true, decide_eq_true_eq] at h
    have hless := rounded_lt h.1 h.2
    exact iff_of_true (isFinite_signed _ (atMost_ofNat hless hless.le).finite) h.1
  next => exact Iff.rfl

/-- A number that is rounded to places is lost only if it is while it is scaled. -/
private theorem isFinite_round_iff {scale : Float} {n : Nat} (hn : 0 < n)
    (hscale : isWhole n scale.toModel.unpack = true) :
    (toWhole (x * scale) / scale).isFinite = true ↔ (x * scale).isFinite = true := by
  obtain ⟨m, e, hm, hunpack, -, hvalue⟩ := exists_of_isWhole hscale
  have hone : (1 : ℚ) ≤ m * 2 ^ e := by
    rw [hvalue]
    exact_mod_cast hn
  rw [isFinite_div_iff hunpack hone, isFinite_toWhole_iff]

theorem isFinite_toThousandths_iff :
    (toThousandths x).isFinite = true ↔ (x * 1000.0).isFinite = true :=
  isFinite_round_iff (by decide : 0 < 1000) (by decide +kernel)

theorem isFinite_toHundredths_iff :
    (toHundredths x).isFinite = true ↔ (x * 100.0).isFinite = true :=
  isFinite_round_iff (by decide : 0 < 100) (by decide +kernel)

end Decimal

end FailureTriage
