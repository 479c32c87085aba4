import FailureTriage.Proofs.Decimal.Arithmetic
import FailureTriage.Proofs.Json.WrittenNumbers

/-!
# Numbers of 64 bits read back

The shortest decimal of a number of 64 bits lies in the interval of the reals that round to it, and
every decimal in that interval is read as the number.

* `covers_shortest`: the search for the shortest decimal ends in the interval.  Seventeen digits are
  always enough, since `10 ^ 16` is more than `2 ^ 53`.
* `toFloat_eq`: a decimal in the interval of a number is read as the number.
* `toFloat_reread`: a finite number is read back from its text.
-/

namespace FailureTriage

open Float.Model Float.Model.UnpackedFloat

namespace Text

/-- A number has the digits of the power of ten below it. -/
theorem length_natDigits_bounds {n : Nat} (h : 0 < n) :
    10 ^ ((natDigits n).length - 1) ≤ n ∧ n < 10 ^ (natDigits n).length := by
  have hlength : 0 < (natDigits n).length := Nat.length_toDigits_pos
  refine ⟨?_, (Nat.length_toDigits_le_iff (by decide) hlength).mp le_rfl⟩
  by_contra hless
  rcases Nat.eq_zero_or_pos ((natDigits n).length - 1) with hone | hmore
  · rw [hone] at hless
    omega
  · have := (Nat.length_toDigits_le_iff (by decide) hmore).mpr (Nat.lt_of_not_le hless)
    change (natDigits n).length ≤ _ at this
    omega

end Text

namespace Binary

variable {b : Binary} {tie : Tie} {grid : Int} {digits : Nat}

/-! ## Neighbours on a grid -/

/-- How many quarters of the last place the interval of a number reaches below it. -/
def quartersBelow (b : Binary) : Nat :=
  if b.narrowBelow then 1 else 2

/-- The units in which a quarter of the last place, and a step of a grid, are both whole. -/
def quarter (b : Binary) (grid : Int) : Nat :=
  2 ^ (b.exponent - 2).toNat * 10 ^ (-grid).toNat

/-- A step of a grid in these units. -/
def gridStep (b : Binary) (grid : Int) : Nat :=
  2 ^ (-(b.exponent - 2)).toNat * 10 ^ grid.toNat

theorem quarter_pos (b : Binary) (grid : Int) : 0 < b.quarter grid :=
  Nat.mul_pos (Nat.two_pow_pos _) (Nat.pow_pos (by decide))

theorem gridStep_pos (b : Binary) (grid : Int) : 0 < b.gridStep grid :=
  Nat.mul_pos (Nat.two_pow_pos _) (Nat.pow_pos (by decide))

/-- A point of the grid in units of the number's last place. -/
theorem point_eq (b : Binary) (grid : Int) (point : ℚ) :
    point * 10 ^ grid / 2 ^ b.exponent = point * b.gridStep grid / (4 * b.quarter grid) := by
  have hten : (10 : ℚ) ^ grid * 10 ^ (-grid).toNat = 10 ^ grid.toNat := by
    rw [← zpow_natCast, ← zpow_natCast, ← zpow_add₀ (by norm_num)]
    congr 1
    omega
  have htwo : (2 : ℚ) ^ b.exponent * 2 ^ (-(b.exponent - 2)).toNat
      = 4 * 2 ^ (b.exponent - 2).toNat := by
    have hfour : (4 : ℚ) = 2 ^ (2 : Int) := by norm_num
    rw [hfour, ← zpow_natCast, ← zpow_natCast, ← zpow_add₀ (by norm_num), ← zpow_add₀ (by norm_num)]
    congr 1
    omega
  rw [quarter, gridStep, Nat.cast_mul, Nat.cast_mul, Nat.cast_pow, Nat.cast_pow, Nat.cast_pow,
    Nat.cast_pow, div_eq_div_iff (zpow_ne_zero _ (by norm_num)) (by positivity)]
  push_cast
  calc point * 10 ^ grid * (4 * (2 ^ (b.exponent - 2).toNat * 10 ^ (-grid).toNat))
      = point * (10 ^ grid * 10 ^ (-grid).toNat) * (4 * 2 ^ (b.exponent - 2).toNat) := by ring
    _ = point * (2 ^ (-(b.exponent - 2)).toNat * 10 ^ grid.toNat) * 2 ^ b.exponent := by
        rw [hten, ← htwo]; ring

/-- The point of a grid at the number or next below it. -/
def pointBelow (b : Binary) (grid : Int) : Nat :=
  4 * b.mantissa * b.quarter grid / b.gridStep grid

/-- Whether a point of a grid lies between the ends of the interval. -/
def isInside (b : Binary) (grid : Int) (point : Nat) : Bool :=
  inside ((4 * b.mantissa - b.quartersBelow) * b.quarter grid)
    ((4 * b.mantissa + 2) * b.quarter grid) (b.gridStep grid) point (b.mantissa % 2 == 0)

/-- The search on one grid: one of the two neighbours, if one lies inside. -/
theorem onGrid?_cases (b : Binary) (tie : Tie) (grid : Int) :
    (∃ digits, b.onGrid? tie grid = some digits ∧ b.isInside grid digits = true)
    ∨ b.onGrid? tie grid = none ∧ b.isInside grid (b.pointBelow grid) = false
      ∧ b.isInside grid (b.pointBelow grid + 1) = false := by
  rw [onGrid?]
  split
  next hbelow habove =>
    refine Or.inl ⟨_, rfl, ?_⟩
    rw [Tie.nearer]
    split
    · exact hbelow
    · exact habove
  next hbelow habove => exact Or.inl ⟨_, rfl, hbelow⟩
  next hbelow habove => exact Or.inl ⟨_, rfl, habove⟩
  next hbelow habove => exact Or.inr ⟨rfl, hbelow, habove⟩

/-- What it is to lie inside: the ends count only if the mantissa is even. -/
theorem isInside_iff (point : Nat) :
    b.isInside grid point = true ↔
      ((4 * b.mantissa - b.quartersBelow) * b.quarter grid ≤ point * b.gridStep grid
        ∧ point * b.gridStep grid ≤ (4 * b.mantissa + 2) * b.quarter grid)
      ∧ ((4 * b.mantissa - b.quartersBelow) * b.quarter grid = point * b.gridStep grid
        ∨ point * b.gridStep grid = (4 * b.mantissa + 2) * b.quarter grid → b.mantissa % 2 = 0) := by
  rw [isInside, inside]
  by_cases heven : b.mantissa % 2 = 0
  · simp [heven]
  · simp only [heven, beq_iff_eq, if_false, Bool.and_eq_true, decide_eq_true_eq, imp_false]
    omega

/-- **A point inside** is one of the reals that round to the number. -/
theorem covers_of_isInside (hb : b.IsDouble) (h : b.isInside grid digits = true) :
    0 < digits ∧ b.Covers (digits * 10 ^ grid) := by
  obtain ⟨⟨hlow, hhigh⟩, hclosed⟩ := (isInside_iff digits).mp h
  have hquarter := b.quarter_pos grid
  have hless : b.quartersBelow < 4 * b.mantissa := by
    have := hb.positive
    rw [quartersBelow]
    split <;> omega
  have hreach : b.reachBelow = (b.quartersBelow : ℚ) / 4 := by
    rw [reachBelow, quartersBelow]
    split <;> norm_num
  have hunit : (0 : ℚ) < 4 * b.quarter grid := by exact_mod_cast (by omega : 0 < 4 * b.quarter grid)
  have hlowEnd : (((4 * b.mantissa - b.quartersBelow) * b.quarter grid : Nat) : ℚ)
      = (b.mantissa - b.reachBelow) * (4 * b.quarter grid) := by
    rw [hreach, Nat.cast_mul, Nat.cast_sub hless.le]
    push_cast
    ring
  have hhighEnd : (((4 * b.mantissa + 2) * b.quarter grid : Nat) : ℚ)
      = (b.mantissa + 1 / 2) * (4 * b.quarter grid) := by
    push_cast
    ring
  have hlow' : (b.mantissa - b.reachBelow) * (4 * b.quarter grid)
      ≤ (digits : ℚ) * b.gridStep grid := by
    rw [← hlowEnd]
    exact_mod_cast hlow
  have hhigh' : (digits : ℚ) * b.gridStep grid
      ≤ (b.mantissa + 1 / 2) * (4 * b.quarter grid) := by
    rw [← hhighEnd]
    exact_mod_cast hhigh
  refine ⟨?_, ?_, ?_, ?_⟩
  · rcases Nat.eq_zero_or_pos digits with rfl | hpos
    · have := Nat.mul_pos (Nat.sub_pos_of_lt hless) hquarter
      omega
    · exact hpos
  · rw [point_eq, le_div_iff₀ hunit]
    exact hlow'
  · rw [point_eq, div_le_iff₀ hunit]
    exact hhigh'
  · rw [point_eq, div_eq_iff hunit.ne', div_eq_iff hunit.ne', ← hlowEnd, ← hhighEnd]
    rintro (heq | heq)
    · exact hclosed (Or.inl (by exact_mod_cast heq.symm))
    · exact hclosed (Or.inr (by exact_mod_cast heq))

/-- **A fine grid** has a point inside. -/
theorem exists_onGrid? (tie : Tie) (hb : b.quartersBelow ≤ 4 * b.mantissa)
    (h : b.gridStep grid < (2 + b.quartersBelow) * b.quarter grid) :
    ∃ digits, b.onGrid? tie grid = some digits ∧ b.isInside grid digits = true := by
  refine (b.onGrid?_cases tie grid).resolve_right ?_
  rintro ⟨-, hbelow, habove⟩
  rw [← Bool.not_eq_true, isInside_iff] at hbelow habove
  have hdiv : b.pointBelow grid * b.gridStep grid
      + 4 * b.mantissa * b.quarter grid % b.gridStep grid = 4 * b.mantissa * b.quarter grid := by
    rw [Nat.mul_comm]
    exact Nat.div_add_mod _ _
  have hmod := Nat.mod_lt (4 * b.mantissa * b.quarter grid) (b.gridStep_pos grid)
  have hends := Nat.mul_le_mul_right (b.quarter grid) hb
  have hquarter := b.quarter_pos grid
  have hreach : 0 < b.quartersBelow * b.quarter grid :=
    Nat.mul_pos (by rw [quartersBelow]; split <;> decide) hquarter
  rw [Nat.sub_mul, Nat.add_mul (4 * b.mantissa)] at hbelow habove
  rw [Nat.add_mul, Nat.one_mul] at habove
  rw [Nat.add_mul] at h
  -- the number lies between two points of which neither is inside
  generalize b.pointBelow grid * b.gridStep grid = point at *
  generalize 4 * b.mantissa * b.quarter grid = number at *
  generalize b.quartersBelow * b.quarter grid = reach at *
  omega

/-! ## The search -/

theorem dropZeros_eq (limit n : Nat) :
    (dropZeros limit n).1 * 10 ^ (dropZeros limit n).2 = n := by
  induction limit generalizing n with
  | zero => rw [dropZeros, Nat.pow_zero, Nat.mul_one]
  | succ limit ih =>
    rw [dropZeros]
    split
    next h =>
      show (dropZeros limit (n / 10)).1 * 10 ^ ((dropZeros limit (n / 10)).2 + 1) = n
      rw [Nat.pow_succ, ← Nat.mul_assoc, ih]
      omega
    next => rw [Nat.pow_zero, Nat.mul_one]

/-- The number with the given digits and power of ten. -/
def scaled (d : Nat × Int) : ℚ :=
  d.1 * 10 ^ d.2

/-- A grid with a point inside ends the search. -/
private theorem covers_hit (hb : b.IsDouble) {leading : Int} {count grids : Nat}
    (hhit : b.onGrid? tie (leading - count) = some digits) :
    0 < (b.search tie leading count (grids + 1)).1
      ∧ b.Covers (scaled (b.search tie leading count (grids + 1))) := by
  have hinside : b.isInside (leading - count) digits = true := by
    rcases b.onGrid?_cases tie (leading - count) with ⟨found, heq, hfound⟩ | ⟨hnone, -⟩
    · rw [hhit] at heq
      rwa [Option.some.inj heq]
    · rw [hhit] at hnone
      cases hnone
  obtain ⟨hpos, hcovers⟩ := covers_of_isInside hb hinside
  have hdrop := dropZeros_eq 20 digits
  have hsearch : b.search tie leading count (grids + 1)
      = ((dropZeros 20 digits).1, leading - count + (dropZeros 20 digits).2) := by
    rw [search, hhit]
  have hvalue : scaled (b.search tie leading count (grids + 1))
      = digits * 10 ^ (leading - count : Int) := by
    rw [hsearch, scaled, zpow_add₀ (by norm_num), zpow_natCast]
    conv_rhs => rw [← hdrop]
    push_cast
    ring
  rw [hvalue, hsearch]
  refine ⟨Nat.pos_of_ne_zero fun hzero => ?_, hcovers⟩
  change (dropZeros 20 digits).1 = 0 at hzero
  rw [hzero, Nat.zero_mul] at hdrop
  omega

/-- A search whose last grid has a point inside ends at such a point. -/
theorem covers_search (hb : b.IsDouble) (leading : Int) (count grids : Nat)
    (hlast : ∃ digits, b.onGrid? tie (leading - (count + grids : Nat)) = some digits) :
    0 < (b.search tie leading count (grids + 1)).1
      ∧ b.Covers (scaled (b.search tie leading count (grids + 1))) := by
  cases hgrid : b.onGrid? tie (leading - count) with
  | some digits => exact covers_hit hb hgrid
  | none =>
    cases grids with
    | zero =>
      obtain ⟨digits, hlast⟩ := hlast
      rw [Nat.add_zero, hgrid] at hlast
      cases hlast
    | succ grids =>
      have hnext : b.search tie leading count (grids + 1 + 1)
          = b.search tie leading (count + 1) (grids + 1) := by
        rw [search, hgrid]
      rw [hnext]
      refine covers_search hb leading (count + 1) grids ?_
      rwa [Nat.add_assoc count 1, Nat.add_comm 1 grids]

/-- The leading digit of a positive number is not before its first. -/
theorem pow_leadingExponent_le {num den : Nat} (hnum : 0 < num) (hden : 0 < den) :
    (10 : ℚ) ^ leadingExponent num den ≤ (num : ℚ) / den := by
  have hden' : (0 : ℚ) < den := by exact_mod_cast hden
  rw [leadingExponent, le_div_iff₀ hden']
  split
  next hge =>
    have hq : 0 < num / den := Nat.div_pos hge hden
    obtain ⟨hlow, -⟩ := Text.length_natDigits_bounds hq
    have hlength : (Text.natDigits (num / den)).length ≠ 0 := by
      have : 0 < (Text.natDigits (num / den)).length := Nat.length_toDigits_pos
      omega
    have hpower : ((digitCount (num / den) : Int) - 1)
        = ((Text.natDigits (num / den)).length - 1 : Nat) := by
      rw [digitCount]
      omega
    have : 10 ^ ((Text.natDigits (num / den)).length - 1) * den ≤ num :=
      (Nat.mul_le_mul_right den hlow).trans (Nat.div_mul_le_self num den)
    rw [hpower, zpow_natCast]
    exact_mod_cast this
  next hlt =>
    -- the number of digits of the inverse, rounded up
    have hceil : den ≤ (den + num - 1) / num * num := by
      have hdiv := Nat.div_add_mod (den + num - 1) num
      have hmod := Nat.mod_lt (den + num - 1) hnum
      rw [Nat.mul_comm] at hdiv
      omega
    dsimp only
    generalize (den + num - 1) / num = inverse at hceil ⊢
    split
    next hone =>
      have := Nat.mul_le_mul_right num hone
      omega
    next hmore =>
      obtain ⟨-, hhigh⟩ := Text.length_natDigits_bounds (n := inverse - 1) (by omega)
      have hinverse : den ≤ 10 ^ (Text.natDigits (inverse - 1)).length * num :=
        hceil.trans (Nat.mul_le_mul_right num (by omega))
      rw [digitCount, zpow_neg, zpow_natCast, inv_mul_le_iff₀ (by positivity)]
      exact_mod_cast hinverse

/-- The grid of seventeen digits is fine enough. -/
private theorem gridStep_lt (hb : b.IsDouble) {leading : Int}
    (hleading : (10 : ℚ) ^ leading ≤ b.mantissa * 2 ^ b.exponent) :
    b.gridStep (leading - 16) < (2 + b.quartersBelow) * b.quarter (leading - 16) := by
  have hquarter := b.quarter_pos (leading - 16)
  have hstep : b.gridStep (leading - 16) * 10 ^ 16
      ≤ b.mantissa * (4 * b.quarter (leading - 16)) := by
    have hpoint := b.point_eq (leading - 16) (10 ^ 16)
    have hpower : (10 : ℚ) ^ 16 * 10 ^ (leading - 16) = 10 ^ leading := by
      rw [← zpow_natCast, ← zpow_add₀ (by norm_num)]
      congr 1
      omega
    rw [← div_le_iff₀ (zpow_pos (by norm_num) _), ← hpower, hpoint,
      div_le_iff₀ (by exact_mod_cast (by omega : 0 < 4 * b.quarter (leading - 16)))] at hleading
    rw [mul_comm] at hleading
    exact_mod_cast hleading
  generalize b.quarter (leading - 16) = quarter at *
  generalize b.gridStep (leading - 16) = step at *
  have hbits := hb.bits
  rw [quartersBelow]
  split
  next hnarrow =>
    rw [(hb.narrow.mp hnarrow).1] at hstep
    omega
  next =>
    have := Nat.mul_lt_mul_of_pos_right hbits (by omega : 0 < 4 * quarter)
    omega

/-- **The shortest decimal** of a number is one of the reals that round to it. -/
theorem covers_shortest (hb : b.IsDouble) (tie : Tie) :
    0 < (b.shortest tie).1 ∧ b.Covers (scaled (b.shortest tie)) := by
  have hnum : 0 < b.mantissa * 2 ^ b.exponent.toNat := Nat.mul_pos hb.positive (Nat.two_pow_pos _)
  have hden : 0 < 2 ^ (-b.exponent).toNat := Nat.two_pow_pos _
  have hvalue : ((b.mantissa * 2 ^ b.exponent.toNat : Nat) : ℚ) / (2 ^ (-b.exponent).toNat : Nat)
      = b.mantissa * 2 ^ b.exponent := by
    rw [div_eq_iff (by positivity), Nat.cast_mul, mul_assoc]
    congr 1
    push_cast
    rw [← zpow_natCast, ← zpow_natCast, ← zpow_add₀ (by norm_num)]
    congr 1
    omega
  have hleading := pow_leadingExponent_le hnum hden
  rw [hvalue] at hleading
  rw [shortest, if_neg (Nat.ne_of_gt hb.positive)]
  have hends : b.quartersBelow ≤ 4 * b.mantissa := by
    have := hb.positive
    rw [quartersBelow]
    split <;> omega
  obtain ⟨digits, hdigits, -⟩ := exists_onGrid? tie hends (gridStep_lt hb hleading)
  exact covers_search hb _ 0 16 ⟨digits, hdigits⟩

/-! ## Reading back -/

private theorem two_zpow_le (k : Nat) : (2 : ℚ) ^ (3 * k : Int) ≤ 10 ^ (k : Int) := by
  rw [zpow_mul, zpow_natCast, zpow_natCast]
  exact pow_le_pow_left₀ (by norm_num) (by norm_num) k

/-- The reals that round to a number lie between the smallest and the largest ones. -/
private theorem Covers.range {v : ℚ} (h : b.Covers v) (hb : b.IsDouble)
    (hhighest : b.exponent ≤ 971) :
    (10 : ℚ) ^ (-359 : Int) ≤ v ∧ v ≤ 10 ^ (342 : Int) := by
  have hpos : (0 : ℚ) < 2 ^ b.exponent := zpow_pos (by norm_num) _
  have hreach : b.reachBelow ≤ 1 / 2 := by
    rw [reachBelow]
    split <;> norm_num
  have hone : (1 : ℚ) ≤ b.mantissa := by exact_mod_cast hb.positive
  have hbits : (b.mantissa : ℚ) + 1 ≤ 2 ^ (53 : Int) := by exact_mod_cast hb.bits
  have hlow := h.low
  have hhigh := h.high
  rw [le_div_iff₀ hpos] at hlow
  rw [div_le_iff₀ hpos] at hhigh
  have htwo : (2 : ℚ) ^ (-1 : Int) = 1 / 2 := by norm_num
  constructor
  · calc (10 : ℚ) ^ (-359 : Int) ≤ 2 ^ (-1077 : Int) := by
          rw [zpow_neg, zpow_neg]
          exact inv_anti₀ (zpow_pos (by norm_num) _) (two_zpow_le 359)
      _ ≤ 2 ^ (-1 + b.exponent) :=
          zpow_le_zpow_right₀ (by norm_num) (by have := hb.lowest; omega)
      _ = 1 / 2 * 2 ^ b.exponent := by rw [zpow_add₀ (by norm_num), htwo]
      _ ≤ (b.mantissa - b.reachBelow) * 2 ^ b.exponent := by
          have : (1 : ℚ) / 2 ≤ b.mantissa - b.reachBelow := by linarith
          gcongr
      _ ≤ v := hlow
  · calc v ≤ (b.mantissa + 1 / 2) * 2 ^ b.exponent := hhigh
      _ ≤ 2 ^ (53 : Int) * 2 ^ b.exponent := by
          have : (b.mantissa : ℚ) + 1 / 2 ≤ 2 ^ (53 : Int) := by linarith
          gcongr
      _ = 2 ^ (53 + b.exponent) := (zpow_add₀ (by norm_num) _ _).symm
      _ ≤ 2 ^ (3 * (342 : Nat) : Int) := zpow_le_zpow_right₀ (by norm_num) (by omega)
      _ ≤ 10 ^ (342 : Int) := two_zpow_le 342

end Binary

namespace Decimal

/-- The magnitude of a decimal number. -/
def magnitude (d : Decimal) : ℚ :=
  d.digits * 10 ^ d.exponent

/-- The power of ten next above a number, from its exponent and its digits. -/
def size (d : Decimal) : Int :=
  d.exponent + (Text.natDigits d.digits).length

theorem magnitude_bounds {d : Decimal} (h : 0 < d.digits) :
    (10 : ℚ) ^ (d.size - 1) ≤ d.magnitude ∧ d.magnitude < 10 ^ d.size := by
  obtain ⟨hlow, hhigh⟩ := Text.length_natDigits_bounds h
  have hlength : 0 < (Text.natDigits d.digits).length := Nat.length_toDigits_pos
  have hpos : (0 : ℚ) < 10 ^ d.exponent := zpow_pos (by norm_num) _
  have hsize : d.size - 1 = ((Text.natDigits d.digits).length - 1 : Nat) + d.exponent := by
    rw [size]
    omega
  rw [hsize, size, add_comm d.exponent, zpow_add₀ (by norm_num), zpow_add₀ (by norm_num),
    zpow_natCast, zpow_natCast, magnitude]
  constructor
  · have : (10 : ℚ) ^ ((Text.natDigits d.digits).length - 1) ≤ d.digits := by exact_mod_cast hlow
    gcongr
  · have : (d.digits : ℚ) < 10 ^ (Text.natDigits d.digits).length := by exact_mod_cast hhigh
    gcongr

/-- A number has no more decimal digits than binary ones. -/
private theorem length_le_log2 {n : Nat} (h : 0 < n) : (Text.natDigits n).length ≤ n.log2 + 1 := by
  obtain ⟨hlow, -⟩ := Text.length_natDigits_bounds h
  have : 2 ^ ((Text.natDigits n).length - 1) ≤ n :=
    (Nat.pow_le_pow_left (by decide) _).trans hlow
  have := (Nat.le_log2 (Nat.ne_of_gt h)).mpr this
  omega

/-- A decimal of a usual size is rounded from its exact value. -/
theorem exists_toFloat {d : Decimal} (h : 0 < d.digits) (hlow : -400 ≤ d.size)
    (hhigh : d.size ≤ 400) :
    ∃ f, d.toFloat = signed d.negative (.ofModel (.pack f))
      ∧ Binary.RoundedFrom f .positive d.magnitude := by
  have hlength := length_le_log2 h
  have hguard : ¬ (decide (d.digits = 0) || decide (d.size < -400)) = true := by
    simp only [Bool.or_eq_true, decide_eq_true_eq]
    omega
  obtain ⟨f, hf, hrounded⟩ := Binary.exists_ofScientific (e := d.exponent) h
    (by rw [size] at hlow; omega) (by rw [size] at hhigh; omega)
  refine ⟨f, ?_, hrounded⟩
  rw [← hf]
  show signed d.negative (if (decide (d.digits = 0) || decide (d.size < -400)) = true then 0.0
    else if d.size > 400 then 1.0 / 0.0
    else Float.ofScientific d.digits (d.exponent < 0) d.exponent.natAbs) = _
  rw [if_neg hguard, if_neg (by omega)]

/-- The sign of a number of 64 bits, as it is written. -/
def sign (negative : Bool) : Sign :=
  if negative then .negative else .positive

/-- A number is given its sign. -/
theorem signed_pack (negative : Bool) {f : UnpackedFloat} (hf : Binary.Fits f) :
    signed negative (.ofModel (.pack f)) = .ofModel (.pack (if negative then f.neg else f)) := by
  cases negative with
  | false => rfl
  | true =>
    show Float.ofModel (.pack (Float.Model.pack f).unpack.neg) = .ofModel (.pack f.neg)
    rw [hf.unpack_pack]

private theorem signOf_eq (x : Float) :
    Binary.signOf x = sign (x.toBits.toNat / 2 ^ 63 == 1) := by
  rw [Binary.signOf, Sign.ofBitVec, sign]
  have hsign := Binary.toNat_unpackSign x.toBits.toBitVec
  change _ = x.toBits.toNat / 2 ^ 63 at hsign
  have hlt := (@unpackSign Float.Model.Format.binary64 x.toBits.toBitVec).isLt
  by_cases hzero : @unpackSign Float.Model.Format.binary64 x.toBits.toBitVec = 0#1
  · rw [if_pos hzero, ← hsign, hzero]
    rfl
  · have hone : (@unpackSign Float.Model.Format.binary64 x.toBits.toBitVec).toNat = 1 := by
      have : (@unpackSign Float.Model.Format.binary64 x.toBits.toBitVec).toNat ≠ 0 :=
        fun h => hzero (BitVec.eq_of_toNat_eq h)
      omega
    rw [if_neg hzero, ← hsign, hone]
    rfl

/-- Whether a decimal is the shortest one of a number but for the way it is written. -/
structure Names (d : Decimal) (x : Float) : Prop where
  finite : x.isFinite = true
  negative : d.negative = (x.toBits.toNat / 2 ^ 63 == 1)
  digits : d.digits = 0 ↔ (Binary.ofDouble x).mantissa = 0
  covers : (Binary.ofDouble x).IsDouble → (Binary.ofDouble x).Covers d.magnitude

theorem Names.toFloat_eq {d : Decimal} {x : Float} (h : d.Names x) : d.toFloat = x := by
  rw [← Binary.pack_unpack h.finite]
  rcases Binary.unpack_eq h.finite with ⟨hzero, hunpack⟩ | ⟨hb, hhighest, hunpack⟩
  · have hnone : d.toFloat = signed d.negative 0.0 := by
      rw [toFloat, h.digits.mpr hzero]
      rfl
    have hpack : (0.0 : Float) = .ofModel (.pack (.zero .positive)) := by decide +kernel
    rw [hunpack, hnone, hpack, signed_pack _ Binary.fits_zero, signOf_eq,
      ← h.negative]
    cases d.negative <;> rfl
  · have hcovers := h.covers hb
    have hpos : 0 < d.digits := by
      refine Nat.pos_of_ne_zero fun hzero => ?_
      have := hb.positive
      rw [h.digits.mp hzero] at this
      omega
    obtain ⟨hlow, hhigh⟩ := hcovers.range hb hhighest
    obtain ⟨hlowSize, hhighSize⟩ := magnitude_bounds hpos
    have hsizeLow := (zpow_lt_zpow_iff_right₀ (by norm_num)).mp (hlow.trans_lt hhighSize)
    have hsizeHigh := (zpow_le_zpow_iff_right₀ (by norm_num)).mp (hlowSize.trans hhigh)
    obtain ⟨f, hf, hrounded⟩ := exists_toFloat hpos (by omega) (by omega)
    obtain rfl := hrounded.eq_finite hb hcovers
    rw [hf, hunpack, signed_pack _ (hb.fits hhighest), signOf_eq, ← h.negative]
    cases d.negative <;> rfl

/-- The shortest decimal of a number. -/
theorem names_of_ofFloat? {tie : Tie} {x : Float} {d : Decimal} (h : ofFloat? tie x = some d) :
    d.Names x := by
  rw [ofFloat?] at h
  split at h
  next hfinite =>
    change some (⟨x.toBits.toNat / 2 ^ 63 == 1, ((Binary.ofDouble x).shortest tie).1,
      ((Binary.ofDouble x).shortest tie).2⟩ : Decimal) = some d at h
    obtain rfl := Option.some.inj h
    refine ⟨hfinite, rfl, ?_, fun hb => (Binary.covers_shortest hb tie).2⟩
    show ((Binary.ofDouble x).shortest tie).1 = 0 ↔ _
    constructor
    · intro hdigits
      rcases Binary.unpack_eq hfinite with ⟨hzero, -⟩ | ⟨hb, -⟩
      · exact hzero
      · have := (Binary.covers_shortest hb tie).1
        omega
    · intro hzero
      rw [Binary.shortest, if_pos hzero]
  next => cases h

/-- A number comes back from its text with other digits, but as large as it was. -/
theorem Names.reread {d : Decimal} {x : Float} (h : d.Names x) : d.reread.Names x := by
  rw [Decimal.reread]
  split
  next hzero =>
    refine ⟨h.finite, h.negative, ⟨fun _ => h.digits.mp hzero, fun _ => rfl⟩, fun hb => ?_⟩
    have := hb.positive
    rw [h.digits.mp hzero] at this
    omega
  next hsome =>
    split
    next hpad =>
      have hmagnitude : magnitude ⟨d.negative, d.digits * 10 ^ (d.exponent.toNat + 1), -1⟩
          = d.magnitude := by
        have hpower : (10 : ℚ) ^ (d.exponent.toNat + 1) * 10 ^ (-1 : Int) = 10 ^ d.exponent := by
          rw [← zpow_natCast, ← zpow_add₀ (by norm_num)]
          congr 1
          omega
        rw [magnitude, magnitude, ← hpower]
        push_cast
        ring
      refine ⟨h.finite, h.negative, ?_, fun hb => ?_⟩
      · rw [← h.digits]
        simp
      · rw [hmagnitude]
        exact h.covers hb
    next => exact h

/-- **A finite number is read back** from its text. -/
theorem toFloat_reread {tie : Tie} {x : Float} {d : Decimal} (h : ofFloat? tie x = some d) :
    d.reread.toFloat = x :=
  (names_of_ofFloat? h).reread.toFloat_eq

end Decimal

end FailureTriage
