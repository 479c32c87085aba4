import FailureTriage.Decimal.Shortest
import Mathlib

/-!
# Rounding to a number of 64 bits

What the logical model of the numbers of 64 bits rounds to, said of exact rational numbers.

A mantissa with its two residual bits tells of the number it was cut from (`Tells`), and still does
after any number of bits was cut off; the rounded mantissa is the nearest one.  Which exponent a
number is rounded at depends on its magnitude alone, so all that is rounded from one magnitude
(`RoundedFrom`) is one number:

* `RoundedFrom.exists_nearest`: the mantissa and the exponent that a magnitude is rounded to;
* `RoundedFrom.eq_finite`: a magnitude that lies in the interval of a number is rounded to it;
* `RoundedFrom.magnitude_le`: what is at most a number of 64 bits is so after it was rounded.
-/

namespace FailureTriage.Binary

open Float.Model Float.Model.UnpackedFloat

/-! ## A mantissa and what was cut off -/

/-- What the mantissa and the two bits after it tell of the exact number `x`. -/
def Tells (em : ExtendedMantissa) (x : ℚ) : Prop :=
  match em.roundBit, em.stickyBit with
  | false, false => x = em.mantissa
  | false, true => em.mantissa < x ∧ x < em.mantissa + 1 / 2
  | true, false => x = em.mantissa + 1 / 2
  | true, true => em.mantissa + 1 / 2 < x ∧ x < em.mantissa + 1

variable {em : ExtendedMantissa} {x v : ℚ} {n : Nat} {e : Int} {accuracy : Accuracy}

theorem Tells.bounds (h : Tells em x) : (em.mantissa : ℚ) ≤ x ∧ x < em.mantissa + 1 := by
  obtain ⟨m, r, s⟩ := em
  cases r <;> cases s <;> simp only [Tells] at h <;> constructor <;> linarith

/-- One bit less of the mantissa tells of half the number. -/
theorem Tells.shiftRightOne (h : Tells em x) : Tells em.shiftRightOne (x / 2) := by
  obtain ⟨m, r, s⟩ := em
  have hm : ((m % 2 : Nat) : ℚ) + 2 * ((m / 2 : Nat) : ℚ) = m := by
    exact_mod_cast Nat.mod_add_div m 2
  rcases Nat.mod_two_eq_zero_or_one m with hbit | hbit <;> rw [hbit] at hm <;>
    cases r <;> cases s <;>
    simp only [Tells, ExtendedMantissa.shiftRightOne, hbit] at h ⊢ <;> push_cast at hm <;>
    simp <;> first | (constructor <;> linarith) | linarith

theorem Tells.shiftRight (h : Tells em x) (count : Nat) :
    Tells (em >>> count) (x / 2 ^ count) := by
  show Tells (count.repeat ExtendedMantissa.shiftRightOne em) _
  induction count with
  | zero => simpa [Nat.repeat] using h
  | succ count ih =>
      rw [Nat.repeat, pow_succ, ← div_div]
      exact ih.shiftRightOne

/-- Whether a whole number is the nearest one to `x`, an even one if two are equally near. -/
def IsNearest (x : ℚ) (n : Nat) : Prop :=
  |x - n| ≤ 1 / 2 ∧ (|x - n| = 1 / 2 → n % 2 = 0)

/-- The rounded mantissa is the nearest one. -/
theorem Tells.isNearest (h : Tells em x) : IsNearest x em.roundedMantissa := by
  obtain ⟨m, r, s⟩ := em
  cases r <;> cases s <;>
    simp only [Tells, IsNearest, ExtendedMantissa.roundedMantissa, ExtendedMantissa.accuracy,
      Accuracy.roundToNearestEven] at h ⊢
  · subst h; simp
  · have : |x - m| < 1 / 2 := by rw [abs_lt]; constructor <;> linarith
    exact ⟨this.le, fun heq => absurd heq this.ne⟩
  · subst h
    rcases Nat.mod_two_eq_zero_or_one m with hbit | hbit
    · rw [hbit, Nat.add_zero]
      refine ⟨?_, fun _ => hbit⟩
      rw [abs_le]; constructor <;> linarith
    · rw [hbit]
      refine ⟨?_, fun _ => by omega⟩
      push_cast
      rw [abs_le]; constructor <;> linarith
  · have : |x - ((m + 1 : Nat) : ℚ)| < 1 / 2 := by
      push_cast; rw [abs_lt]; constructor <;> linarith
    exact ⟨this.le, fun heq => absurd heq this.ne⟩

/-- Only one whole number is the nearest one. -/
theorem IsNearest.unique {a b : Nat} (ha : IsNearest x a) (hb : IsNearest x b) : a = b := by
  obtain ⟨ha, hatie⟩ := ha
  obtain ⟨hb, hbtie⟩ := hb
  by_contra hne
  have hgap : (a : ℚ) + 1 ≤ b ∨ (b : ℚ) + 1 ≤ a := by
    rcases Nat.lt_or_gt_of_ne hne with hlt | hlt
    · exact Or.inl (by exact_mod_cast hlt)
    · exact Or.inr (by exact_mod_cast hlt)
  rw [abs_le] at ha hb
  -- the point is halfway between the two, so both would be even
  rcases hgap with hgap | hgap
  · have hx : x = a + 1 / 2 := by linarith
    have hx' : x = b - 1 / 2 := by linarith
    have h1 := hatie (by rw [hx]; norm_num)
    have h2 := hbtie (by rw [hx']; norm_num [abs_neg])
    have : (b : ℚ) = (a + 1 : Nat) := by push_cast; linarith
    have : b = a + 1 := by exact_mod_cast this
    omega
  · have hx : x = b + 1 / 2 := by linarith
    have hx' : x = a - 1 / 2 := by linarith
    have h1 := hbtie (by rw [hx]; norm_num)
    have h2 := hatie (by rw [hx']; norm_num [abs_neg])
    have : (a : ℚ) = (b + 1 : Nat) := by push_cast; linarith
    have : a = b + 1 := by exact_mod_cast this
    omega

/-! ## Rounding to the bits of a format -/

/-- A rounded mantissa at an exponent; one bit too many is carried to the exponent. -/
def carried (sign : Sign) (r : Nat) (t : Int) : UnpackedFloat :=
  if h : r = 0 then .zero sign
  else if r < 2 ^ 53 then .finite sign r t (Nat.pos_of_ne_zero h)
  else .finite sign (2 ^ 52) (t + 1) (by decide)

/-- The exponent at which a number is rounded whose mantissa is known down to another one. -/
def roundingExponent (n : Nat) (e : Int) : Int :=
  max (n.log2 + e - 52) (-1074)

theorem targetExponent_eq (n : Nat) (e : Int) :
    Format.binary64.targetExponent (totalExponent n e) = roundingExponent n e := by
  simp only [Format.targetExponent, totalExponent, Format.mantissaBits, Format.minExponent,
    roundingExponent]
  omega

theorem le_roundingExponent (n : Nat) (e : Int) : -1074 ≤ roundingExponent n e :=
  le_max_right _ _

private theorem shiftToTargetExponent_eq {n : Nat} {e : Int} (accuracy : Accuracy)
    (h : e ≤ roundingExponent n e) :
    shiftToTargetExponent Format.binary64 n e accuracy
      = (ExtendedMantissa.ofMantissaAndAccuracy n accuracy >>> (roundingExponent n e - e).toNat,
        roundingExponent n e) := by
  have hshift : e + ((roundingExponent n e - e).toNat : Int) = roundingExponent n e := by omega
  rw [shiftToTargetExponent, targetExponent_eq, shiftToExponent, hshift]

private theorem shiftToTargetExponent_small {r : Nat} {t : Int} (hr : r < 2 ^ 53)
    (ht : -1074 ≤ t) :
    shiftToTargetExponent Format.binary64 r t .exact = (⟨r, false, false⟩, t) := by
  have hlog : r.log2 ≤ 52 := by
    rcases Nat.eq_zero_or_pos r with rfl | hpos
    · decide
    · have := (Nat.log2_lt (Nat.ne_of_gt hpos)).mpr hr
      omega
  have hshift : (roundingExponent r t - t).toNat = 0 := by
    rw [roundingExponent]
    omega
  rw [shiftToTargetExponent, targetExponent_eq, shiftToExponent, hshift, Int.natCast_zero,
    Int.add_zero]
  rfl

private theorem shiftToTargetExponent_carry {t : Int} (ht : -1074 ≤ t) :
    shiftToTargetExponent Format.binary64 (2 ^ 53) t .exact = (⟨2 ^ 52, false, false⟩, t + 1) := by
  have hshift : (roundingExponent (2 ^ 53) t - t).toNat = 1 := by
    rw [roundingExponent, Nat.log2_two_pow]
    omega
  rw [shiftToTargetExponent, targetExponent_eq, shiftToExponent, hshift]
  rfl

private theorem mantissa_ofMantissaAndAccuracy (n : Nat) (accuracy : Accuracy) :
    (ExtendedMantissa.ofMantissaAndAccuracy n accuracy).mantissa = n := by
  cases accuracy with
  | exact => rfl
  | inexact side => cases side <;> rfl

/-- A magnitude lies between the powers of two that belong to its mantissa. -/
private theorem magnitude_bounds
    (h : Tells (.ofMantissaAndAccuracy n accuracy) (v / 2 ^ e)) :
    v < 2 ^ ((n.log2 : Int) + 1 + e) ∧ (n ≠ 0 → 2 ^ ((n.log2 : Int) + e) ≤ v) := by
  have htwo : (2 : ℚ) ≠ 0 := by norm_num
  have hpos : (0 : ℚ) < 2 ^ e := zpow_pos (by norm_num) e
  obtain ⟨hlow, hhigh⟩ := h.bounds
  rw [mantissa_ofMantissaAndAccuracy] at hlow hhigh
  rw [le_div_iff₀ hpos] at hlow
  rw [div_lt_iff₀ hpos] at hhigh
  constructor
  · have hn : (n : ℚ) + 1 ≤ 2 ^ (n.log2 + 1) := by exact_mod_cast Nat.lt_log2_self
    calc v < (n + 1) * 2 ^ e := hhigh
      _ ≤ 2 ^ (n.log2 + 1) * 2 ^ e := by gcongr
      _ = 2 ^ ((n.log2 : Int) + 1 + e) := by
          rw [zpow_add₀ htwo, ← zpow_natCast]
          push_cast
          rfl
  · intro hne
    have hn : (2 : ℚ) ^ n.log2 ≤ n := by exact_mod_cast Nat.log2_self_le hne
    calc (2 : ℚ) ^ ((n.log2 : Int) + e) = 2 ^ n.log2 * 2 ^ e := by
          rw [zpow_add₀ htwo, zpow_natCast]
      _ ≤ n * 2 ^ e := by gcongr
      _ ≤ v := hlow

/-- Whether a float is what the magnitude `v` is rounded to. -/
def RoundedFrom (f : UnpackedFloat) (sign : Sign) (v : ℚ) : Prop :=
  ∃ (n : Nat) (e : Int) (accuracy : Accuracy),
    Tells (.ofMantissaAndAccuracy n accuracy) (v / 2 ^ e) ∧ e ≤ roundingExponent n e
      ∧ f = roundWithAccuracy Format.binary64 sign n e accuracy

/-- The nearest number to one with at most 53 bits before its point has as many, or one more. -/
private theorem IsNearest.le {r : Nat} (h : IsNearest x r) (hx : x < 2 ^ 53) : r ≤ 2 ^ 53 := by
  by_contra hmore
  have hr : ((2 ^ 53 + 1 : Nat) : ℚ) ≤ r := by exact_mod_cast Nat.lt_of_not_le hmore
  push_cast at hr
  have hclose := (abs_le.mp h.1).1
  linarith

/-- **What rounding does**: of 53 bits, or of fewer if the exponent would get too small, the nearest
    number is taken. -/
theorem RoundedFrom.exists_nearest {f : UnpackedFloat} {sign : Sign} (h : RoundedFrom f sign v) :
    ∃ (t : Int) (r : Nat), -1074 ≤ t ∧ IsNearest (v / 2 ^ t) r ∧ v < 2 ^ (t + 53)
      ∧ (t = -1074 ∨ 2 ^ (t + 52) ≤ v) ∧ f = carried sign r t := by
  obtain ⟨n, e, accuracy, htells, he, rfl⟩ := h
  obtain ⟨hupper, hlower⟩ := magnitude_bounds htells
  have hshifted := htells.shiftRight (roundingExponent n e - e).toNat
  have hvalue : v / 2 ^ e / 2 ^ (roundingExponent n e - e).toNat
      = v / 2 ^ roundingExponent n e := by
    rw [div_div, ← zpow_natCast, ← zpow_add₀ (by norm_num : (2 : ℚ) ≠ 0)]
    congr 2
    omega
  have ht := le_roundingExponent n e
  have hfirst := shiftToTargetExponent_eq accuracy he
  rw [hvalue] at hshifted
  have hlarge : v < 2 ^ (roundingExponent n e + 53) :=
    lt_of_lt_of_le hupper (zpow_le_zpow_right₀ (by norm_num) (by rw [roundingExponent]; omega))
  have hsmall : roundingExponent n e = -1074 ∨ 2 ^ (roundingExponent n e + 52) ≤ v := by
    rcases max_choice ((n.log2 : Int) + e - 52) (-1074) with hmax | hmax
    · have hne : n ≠ 0 := by
        rintro rfl
        rw [roundingExponent, Nat.log2_zero] at he
        rw [Nat.log2_zero] at hmax
        omega
      refine Or.inr (le_trans (le_of_eq ?_) (hlower hne))
      rw [roundingExponent, hmax]
      congr 1
      omega
    · exact Or.inl hmax
  generalize roundingExponent n e = t at *
  have hnearest := hshifted.isNearest
  have hr := hnearest.le (by
    rw [div_lt_iff₀ (zpow_pos (by norm_num) t), ← zpow_natCast,
      ← zpow_add₀ (by norm_num : (2 : ℚ) ≠ 0), add_comm]
    exact hlarge)
  refine ⟨t, _, ht, hnearest, hlarge, hsmall, ?_⟩
  rw [roundWithAccuracy, hfirst]
  dsimp only
  generalize ExtendedMantissa.roundedMantissa
    (ExtendedMantissa.ofMantissaAndAccuracy n accuracy >>> (t - e).toNat) = r at hr ⊢
  rw [carried]
  by_cases hfits : r < 2 ^ 53
  · rw [shiftToTargetExponent_small hfits ht]
    simp only [if_pos hfits]
  · obtain rfl : r = 2 ^ 53 := by omega
    rw [shiftToTargetExponent_carry ht]
    rfl

/-! ## The reals that round to a binary number -/

/-- Whether a magnitude is one of a positive number of 64 bits, in its only form. -/
structure IsDouble (b : Binary) : Prop where
  positive : 0 < b.mantissa
  bits : b.mantissa < 2 ^ 53
  lowest : -1074 ≤ b.exponent
  full : 2 ^ 52 ≤ b.mantissa ∨ b.exponent = -1074
  narrow : b.narrowBelow = true ↔ b.mantissa = 2 ^ 52 ∧ -1074 < b.exponent

/-- How far the reals that round to a number reach below it, in units of its last place. -/
def reachBelow (b : Binary) : ℚ :=
  if b.narrowBelow then 1 / 4 else 1 / 2

/-- Whether a real rounds to a number: both ends belong to a number with an even mantissa. -/
structure Covers (b : Binary) (v : ℚ) : Prop where
  low : b.mantissa - b.reachBelow ≤ v / 2 ^ b.exponent
  high : v / 2 ^ b.exponent ≤ b.mantissa + 1 / 2
  closed : v / 2 ^ b.exponent = b.mantissa - b.reachBelow
    ∨ v / 2 ^ b.exponent = b.mantissa + 1 / 2 → b.mantissa % 2 = 0

variable {b : Binary} {f : UnpackedFloat} {sign : Sign}

/-- In units of its last place a number is the nearest whole one of the reals that round to it. -/
private theorem Covers.isNearest (h : b.Covers v) : IsNearest (v / 2 ^ b.exponent) b.mantissa := by
  obtain ⟨hlow, hhigh, hclosed⟩ := h
  have hreach : b.reachBelow ≤ 1 / 2 := by
    rw [reachBelow]
    split <;> norm_num
  refine ⟨by rw [abs_le]; constructor <;> linarith, fun htie => hclosed ?_⟩
  rcases (abs_eq (by norm_num)).mp htie with hup | hdown
  · exact Or.inr (by linarith)
  · exact Or.inl (by linarith)

private theorem div_zpow_lt {s : Int} {k : Nat} (h : v < 2 ^ s) (hs : s ≤ e + k) :
    v / 2 ^ e < 2 ^ k := by
  rw [div_lt_iff₀ (zpow_pos (by norm_num) e), ← zpow_natCast,
    ← zpow_add₀ (by norm_num : (2 : ℚ) ≠ 0)]
  exact lt_of_lt_of_le h (zpow_le_zpow_right₀ (by norm_num) (by omega))

private theorem le_div_zpow {s : Int} {k : Nat} (h : 2 ^ s ≤ v) (hs : e + k ≤ s) :
    2 ^ k ≤ v / 2 ^ e := by
  rw [le_div_iff₀ (zpow_pos (by norm_num) e), ← zpow_natCast,
    ← zpow_add₀ (by norm_num : (2 : ℚ) ≠ 0)]
  exact le_trans (zpow_le_zpow_right₀ (by norm_num) (by omega)) h

/-- Below the smallest number of an exponent the next smaller one is nearer: there a number with one
    bit more is carried. -/
private theorem carried_below {t : Int} {r : Nat} (hb : b.IsDouble) (hv : b.Covers v)
    (ht : t < b.exponent) (hlarge : v < 2 ^ (t + 53)) (hlowest : -1074 ≤ t)
    (hr : IsNearest (v / 2 ^ t) r) :
    r = 2 ^ 53 ∧ t + 1 = b.exponent ∧ b.mantissa = 2 ^ 52 := by
  have hless : v / 2 ^ b.exponent < 2 ^ 52 := div_zpow_lt hlarge (by omega)
  have hfull : 2 ^ 52 ≤ b.mantissa := hb.full.resolve_right (by omega)
  have hmantissa : b.mantissa = 2 ^ 52 := by
    by_contra hne
    have hmore : ((2 ^ 52 + 1 : Nat) : ℚ) ≤ b.mantissa := by exact_mod_cast by omega
    have hclose := (abs_le.mp hv.isNearest.1).1
    push_cast at hmore
    linarith
  have hnarrow : b.narrowBelow = true := hb.narrow.mpr ⟨hmantissa, by omega⟩
  have hlow := hv.low
  rw [reachBelow, if_pos hnarrow, hmantissa] at hlow
  push_cast at hlow
  have hnext : t + 1 = b.exponent := by
    by_contra hne
    have hfar : v / 2 ^ b.exponent < 2 ^ 51 := div_zpow_lt hlarge (by omega)
    norm_num at hlow hfar
    linarith
  refine ⟨hr.unique ?_, hnext, hmantissa⟩
  have hdouble : v / 2 ^ t = 2 * (v / 2 ^ b.exponent) := by
    rw [← hnext, zpow_add_one₀ (by norm_num), ← div_div]
    ring
  rw [hdouble, IsNearest]
  push_cast
  exact ⟨by rw [abs_le]; constructor <;> linarith, fun _ => by norm_num⟩

/-- **A real that rounds to a number** is rounded to it. -/
theorem RoundedFrom.eq_finite (h : RoundedFrom f sign v) (hb : b.IsDouble) (hv : b.Covers v) :
    f = .finite sign b.mantissa b.exponent hb.positive := by
  obtain ⟨t, r, hlowest, hr, hlarge, hsmall, rfl⟩ := h.exists_nearest
  rcases lt_trichotomy t b.exponent with hbelow | rfl | habove
  · obtain ⟨rfl, hnext, hmantissa⟩ := carried_below hb hv hbelow hlarge hlowest hr
    simp [carried, hnext, hmantissa]
  · obtain rfl : r = b.mantissa := hr.unique hv.isNearest
    rw [carried, dif_neg (Nat.ne_of_gt hb.positive), if_pos hb.bits]
  · have hfar : 2 ^ 53 ≤ v / 2 ^ b.exponent :=
      le_div_zpow (hsmall.resolve_left (by have := hb.lowest; omega)) (by omega)
    have hhigh := hv.high
    have hbits : ((b.mantissa + 1 : Nat) : ℚ) ≤ 2 ^ 53 := by exact_mod_cast hb.bits
    push_cast at hbits
    linarith

/-- A magnitude of 53 bits is rounded to itself. -/
theorem RoundedFrom.eq_self (h : RoundedFrom f sign v) (hb : b.IsDouble)
    (hv : v = b.mantissa * 2 ^ b.exponent) :
    f = .finite sign b.mantissa b.exponent hb.positive := by
  have hunits : v / 2 ^ b.exponent = b.mantissa := by
    rw [hv, mul_div_cancel_right₀ _ (zpow_ne_zero _ (by norm_num))]
  have hreach : 0 < b.reachBelow := by
    rw [reachBelow]
    split <;> norm_num
  refine h.eq_finite hb ⟨?_, ?_, ?_⟩ <;> rw [hunits]
  · linarith
  · linarith
  · rintro (h | h) <;> linarith

/-! ## The range of rounded numbers -/

/-- The magnitude of an unpacked number. -/
def magnitude : UnpackedFloat → ℚ
  | .finite _ m e _ => m * 2 ^ e
  | _ => 0

/-- Whether an unpacked number is finite and in its only form, its exponent as large as it may be. -/
def Canonical : UnpackedFloat → Prop
  | .zero _ => True
  | .finite _ m e _ => m < 2 ^ 53 ∧ -1074 ≤ e ∧ (2 ^ 52 ≤ m ∨ e = -1074)
  | _ => False

theorem RoundedFrom.canonical (h : RoundedFrom f sign v) : Canonical f := by
  obtain ⟨t, r, hlowest, hr, -, hsmall, rfl⟩ := h.exists_nearest
  rw [carried]
  split
  · exact trivial
  · split
    · refine ⟨‹_›, hlowest, hsmall.symm.imp (fun hv => ?_) id⟩
      have hfull : (2 : ℚ) ^ 52 ≤ v / 2 ^ t := le_div_zpow hv (by omega)
      by_contra hless
      have hr' : ((r + 1 : Nat) : ℚ) ≤ 2 ^ 52 := by exact_mod_cast Nat.lt_of_not_le hless
      have hclose := (abs_le.mp hr.1).2
      push_cast at hr'
      linarith
    · exact ⟨by decide, by omega, Or.inl le_rfl⟩

/-- **What is at most a number** of 53 bits is so after it was rounded. -/
theorem RoundedFrom.magnitude_le (h : RoundedFrom f sign v) {s : Int} (hn : n < 2 ^ 53)
    (hs : -1074 ≤ s) (hv : v ≤ n * 2 ^ s) : magnitude f ≤ n * 2 ^ s := by
  obtain ⟨t, r, -, hr, -, hsmall, rfl⟩ := h.exists_nearest
  have hpos : (0 : ℚ) < 2 ^ t := zpow_pos (by norm_num) t
  -- the bound is a whole number of the units that the magnitude is rounded in
  have hts : t ≤ s := by
    rcases hsmall with rfl | hsmall
    · exact hs
    · have hlt : (2 : ℚ) ^ (t + 52) < 2 ^ (s + 53) := by
        calc (2 : ℚ) ^ (t + 52) ≤ n * 2 ^ s := hsmall.trans hv
          _ < 2 ^ 53 * 2 ^ s := by
              have : (n : ℚ) < 2 ^ 53 := by exact_mod_cast hn
              gcongr
          _ = 2 ^ (s + 53) := by rw [zpow_add₀ (by norm_num), mul_comm]; rfl
      have := (zpow_lt_zpow_iff_right₀ (by norm_num : (1 : ℚ) < 2)).mp hlt
      omega
  obtain ⟨k, rfl⟩ : ∃ k : Nat, s = t + k := ⟨(s - t).toNat, by omega⟩
  have hunits : (n : ℚ) * 2 ^ (t + k : Int) = (n * 2 ^ k : Nat) * 2 ^ t := by
    rw [zpow_add₀ (by norm_num), zpow_natCast]
    push_cast
    ring
  have hless : r ≤ n * 2 ^ k := by
    rw [hunits, ← div_le_iff₀ hpos] at hv
    have hclose := (abs_le.mp hr.1).1
    by_contra hmore
    have : ((n * 2 ^ k + 1 : Nat) : ℚ) ≤ r := by exact_mod_cast Nat.lt_of_not_le hmore
    rw [Nat.cast_add_one] at this
    linarith
  have hless' : (r : ℚ) * 2 ^ t ≤ (n * 2 ^ k : Nat) * 2 ^ t := by
    have : (r : ℚ) ≤ (n * 2 ^ k : Nat) := by exact_mod_cast hless
    gcongr
  rw [hunits, carried]
  split
  · exact mul_nonneg (Nat.cast_nonneg _) hpos.le
  · split
    · exact hless'
    · refine le_trans ?_ hless'
      have hfull : ((2 ^ 53 : Nat) : ℚ) ≤ r := by exact_mod_cast by omega
      have hcarry : magnitude (.finite sign (2 ^ 52) (t + 1) (by decide))
          = (2 ^ 53 : Nat) * 2 ^ t := by
        rw [magnitude, zpow_add_one₀ (by norm_num)]
        push_cast
        ring
      rw [hcarry]
      gcongr

end FailureTriage.Binary
