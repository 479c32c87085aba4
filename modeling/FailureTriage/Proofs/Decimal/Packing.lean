import FailureTriage.Proofs.Decimal.Rounding

/-!
# The bits of a number of 64 bits

A number of 64 bits is a sign, an exponent field and a fraction.  The logical model works on an
unpacked form of it; what is unpacked can be packed again, and the other way around.

* `unpack_eq`: a finite number is unpacked to the magnitude that its bits stand for;
* `pack_unpack`, `Fits.unpack_pack`: packing undoes unpacking, and unpacking packing;
* `Fits.isFinite_pack`: what is packed is finite.
-/

namespace FailureTriage.Binary

open Float.Model Float.Model.UnpackedFloat

/-! ## Fields -/

theorem toNat_packComponents (sign : Sign) (field : BitVec 11) (fraction : BitVec 52) :
    (packComponents Format.binary64 sign field fraction).toNat
      = (sign.toBitVec.toNat * 2 ^ 11 + field.toNat) * 2 ^ 52 + fraction.toNat := by
  rw [packComponents]
  show ((sign.toBitVec ++ field) ++ fraction).toNat = _
  rw [BitVec.toNat_append, BitVec.toNat_append,
    ← Nat.shiftLeft_add_eq_or_of_lt field.isLt, ← Nat.shiftLeft_add_eq_or_of_lt fraction.isLt,
    Nat.shiftLeft_eq, Nat.shiftLeft_eq]

theorem toNat_unpackMantissa (b : BitVec 64) :
    (@unpackMantissa Format.binary64 b).toNat = b.toNat % 2 ^ 52 := by
  simp [unpackMantissa, BitVec.extractLsb]

theorem toNat_unpackExponent (b : BitVec 64) :
    (@unpackExponent Format.binary64 b).toNat = b.toNat / 2 ^ 52 % 2 ^ 11 := by
  simp [unpackExponent, BitVec.extractLsb, Nat.shiftRight_eq_div_pow]

theorem toNat_unpackSign (b : BitVec 64) :
    (@unpackSign Format.binary64 b).toNat = b.toNat / 2 ^ 63 := by
  have := b.isLt
  simp [unpackSign, BitVec.extractLsb, Nat.shiftRight_eq_div_pow]
  omega

theorem toNat_toBitVec_ofBitVec (b : BitVec 1) : (Sign.ofBitVec b).toBitVec = b := by
  revert b
  decide

theorem packComponents_unpack (b : BitVec 64) :
    packComponents Format.binary64 (Sign.ofBitVec (@unpackSign Format.binary64 b))
      (@unpackExponent Format.binary64 b) (@unpackMantissa Format.binary64 b)
      = b := by
  apply BitVec.eq_of_toNat_eq
  rw [toNat_packComponents, toNat_toBitVec_ofBitVec, toNat_unpackSign, toNat_unpackExponent,
    toNat_unpackMantissa]
  omega

theorem unpackSign_packComponents (sign : Sign) (field : BitVec 11) (fraction : BitVec 52) :
    unpackSign (packComponents Format.binary64 sign field fraction) = sign.toBitVec := by
  apply BitVec.eq_of_toNat_eq
  rw [toNat_unpackSign, toNat_packComponents]
  omega

theorem ofBitVec_toBitVec (sign : Sign) : Sign.ofBitVec sign.toBitVec = sign := by
  cases sign <;> rfl

/-- The bits of a sign, an exponent field and a fraction. -/
def bitsOf (sign : Sign) (field fraction : Nat) : BitVec 64 :=
  packComponents Format.binary64 sign (BitVec.ofNat 11 field) (BitVec.ofNat 52 fraction)

variable {sign : Sign} {field fraction : Nat}

theorem unpack_normal (hpos : 0 < field) (hfield : field < 2047) (hfraction : fraction < 2 ^ 52) :
    UnpackedFloat.unpack Format.binary64 (bitsOf sign field fraction)
      = .finite sign (2 ^ 52 + fraction) (field - 1075) (by omega) := by
  have hvalue : (BitVec.ofNat 11 field).toNat = field := Nat.mod_eq_of_lt (by omega)
  have hlast : BitVec.ofNat 11 field ≠ -1#11 := fun h => by
    rw [h] at hvalue
    exact absurd hvalue (Nat.ne_of_gt hfield)
  have hfirst : BitVec.ofNat 11 field ≠ 0#11 := fun h => by
    rw [h] at hvalue
    exact absurd hvalue (Nat.ne_of_lt hpos)
  have hmantissa : (1#1 ++ BitVec.ofNat 52 fraction).toNat = 2 ^ 52 + fraction := by
    rw [BitVec.toNat_append, ← Nat.shiftLeft_add_eq_or_of_lt (BitVec.isLt _)]
    exact congrArg (2 ^ 52 + ·) (Nat.mod_eq_of_lt hfraction)
  rw [UnpackedFloat.unpack, bitsOf]
  simp only [unpackExponent_packComponents, unpackMantissa_packComponents,
    unpackSign_packComponents, ofBitVec_toBitVec, if_neg hlast, if_neg hfirst, hvalue]
  congr 1

theorem unpack_subnormal (hpos : 0 < fraction) (hfraction : fraction < 2 ^ 52) :
    UnpackedFloat.unpack Format.binary64 (bitsOf sign 0 fraction)
      = .finite sign fraction (-1074) hpos := by
  have hvalue : (BitVec.ofNat 52 fraction).toNat = fraction := Nat.mod_eq_of_lt hfraction
  have hne : BitVec.ofNat 52 fraction ≠ 0#52 := fun h => by
    rw [h] at hvalue
    exact absurd hvalue (Nat.ne_of_lt hpos)
  rw [UnpackedFloat.unpack, bitsOf]
  simp only [unpackExponent_packComponents, unpackMantissa_packComponents,
    unpackSign_packComponents, ofBitVec_toBitVec, dif_neg hne, hvalue]
  rfl

theorem unpack_zero : UnpackedFloat.unpack Format.binary64 (bitsOf sign 0 0) = .zero sign := by
  rw [UnpackedFloat.unpack, bitsOf]
  simp only [unpackExponent_packComponents, unpackMantissa_packComponents,
    unpackSign_packComponents, ofBitVec_toBitVec]
  rfl

theorem isFinite_unpack_last :
    (UnpackedFloat.unpack Format.binary64 (bitsOf sign 2047 fraction)).isFinite = false := by
  rw [UnpackedFloat.unpack, bitsOf]
  simp only [unpackExponent_packComponents, unpackMantissa_packComponents,
    unpackSign_packComponents, ofBitVec_toBitVec]
  rw [if_pos (show BitVec.ofNat 11 2047 = -1#11 from rfl)]
  split <;> rfl

theorem pack_normal (hpos : 0 < field) (hfield : field < 2047) (hfraction : fraction < 2 ^ 52) :
    UnpackedFloat.pack Format.binary64
      (.finite sign (2 ^ 52 + fraction) (field - 1075) (by omega))
        = bitsOf sign field fraction := by
  have hexponent : ((field : Int) - 1075 + (Format.binary64.exponentBias : Int)
      + (Format.binary64.mantissaBitsWithoutImplicit : Int)).toNat = field := by
    show ((field : Int) - 1075 + 1023 + 52).toNat = field
    omega
  have hlog : (2 ^ 52 + fraction).log2 = 52 := by
    rw [Nat.log2_eq_iff (by omega)]
    omega
  simp only [UnpackedFloat.pack, hexponent]
  rw [if_neg (by show ¬ 2 ^ 11 ≤ _; omega), if_pos (by rw [hlog]; rfl), bitsOf]
  congr 1
  apply BitVec.eq_of_toNat_eq
  rw [BitVec.toNat_ofNat, BitVec.toNat_ofNat, Nat.add_mod_left]

theorem pack_subnormal (hpos : 0 < fraction) (hfraction : fraction < 2 ^ 52) :
    UnpackedFloat.pack Format.binary64 (.finite sign fraction (-1074) hpos)
      = bitsOf sign 0 fraction := by
  have hlog : fraction.log2 < 52 := (Nat.log2_lt (Nat.ne_of_gt hpos)).mpr hfraction
  have hexponent : (-1074 + (Format.binary64.exponentBias : Int)
      + (Format.binary64.mantissaBitsWithoutImplicit : Int)).toNat = 1 := rfl
  simp only [UnpackedFloat.pack, hexponent]
  rw [if_neg (by show ¬ 2 ^ 11 ≤ _; omega), if_neg (by show ¬ _ = 1 + 52; omega), bitsOf]

theorem pack_zero : UnpackedFloat.pack Format.binary64 (.zero sign) = bitsOf sign 0 0 :=
  rfl

/-! ## Packing and unpacking -/

/-- Whether an unpacked number is finite, and in the form that its bits have. -/
structure Fits (f : UnpackedFloat) : Prop where
  canonical : Canonical f
  range : magnitude f < 2 ^ (1024 : Int)

private theorem two_pow_mul (k : Nat) (e : Int) : (2 : ℚ) ^ k * 2 ^ e = 2 ^ (k + e) := by
  rw [zpow_add₀ (by norm_num), zpow_natCast]

/-- In range the exponent is at most the largest one. -/
private theorem exponent_le {m : Nat} {e : Int} (hm : 2 ^ 52 ≤ m ∨ e = -1074)
    (hrange : (m : ℚ) * 2 ^ e < 2 ^ (1024 : Int)) : e ≤ 971 := by
  by_contra hlarge
  have hfull : (2 : ℚ) ^ 52 ≤ m := by exact_mod_cast hm.resolve_right (by omega)
  have hover : (2 : ℚ) ^ ((52 : Nat) + e) < 2 ^ (1024 : Int) := by
    rw [← two_pow_mul]
    calc (2 : ℚ) ^ 52 * 2 ^ e ≤ m * 2 ^ e := by gcongr
      _ < 2 ^ (1024 : Int) := hrange
  have := (zpow_lt_zpow_iff_right₀ (by norm_num)).mp hover
  omega

private theorem mul_lt_range {m : Nat} {e : Int} (hm : m < 2 ^ 53) (he : e ≤ 971) :
    (m : ℚ) * 2 ^ e < 2 ^ (1024 : Int) := by
  have hm' : (m : ℚ) < 2 ^ 53 := by exact_mod_cast hm
  calc (m : ℚ) * 2 ^ e < 2 ^ 53 * 2 ^ e := by gcongr
    _ = 2 ^ ((53 : Nat) + e) := two_pow_mul 53 e
    _ ≤ 2 ^ (1024 : Int) := zpow_le_zpow_right₀ (by norm_num) (by omega)

/-- What is rounded from at most a number of 53 bits in range is in range. -/
theorem RoundedFrom.fits {f : UnpackedFloat} {v : ℚ} (h : RoundedFrom f sign v) {m : Nat} {e : Int}
    (hm : m < 2 ^ 53) (hlowest : -1074 ≤ e) (hhighest : e ≤ 971) (hv : v ≤ m * 2 ^ e) : Fits f where
  canonical := h.canonical
  range := (h.magnitude_le hm hlowest hv).trans_lt (mul_lt_range hm hhighest)

theorem fits_zero : Fits (.zero sign) where
  canonical := trivial
  range := by
    show (0 : ℚ) < _
    positivity

/-- A number in range. -/
theorem IsDouble.fits {b : Binary} (hb : b.IsDouble) (hhighest : b.exponent ≤ 971) :
    Fits (.finite sign b.mantissa b.exponent hb.positive) where
  canonical := ⟨hb.bits, hb.lowest, hb.full⟩
  range := mul_lt_range hb.bits hhighest

/-- **Unpacking undoes packing.** -/
theorem Fits.unpack_pack {f : UnpackedFloat} (h : Fits f) : (Float.Model.pack f).unpack = f := by
  show UnpackedFloat.unpack Format.binary64 (UnpackedFloat.pack Format.binary64 f) = f
  cases f with
  | infinity s => exact h.canonical.elim
  | notANumber => exact h.canonical.elim
  | zero s => rw [pack_zero, unpack_zero]
  | finite s m e hm =>
    obtain ⟨⟨hbits, hlow, hfull⟩, hrange⟩ := h
    have hhigh := exponent_le hfull hrange
    by_cases hnormal : 2 ^ 52 ≤ m
    · obtain ⟨fraction, rfl⟩ := Nat.exists_eq_add_of_le hnormal
      obtain ⟨field, rfl⟩ : ∃ field : Nat, e = field - 1075 := ⟨(e + 1075).toNat, by omega⟩
      rw [pack_normal (by omega) (by omega) (by omega),
        unpack_normal (by omega) (by omega) (by omega)]
    · obtain rfl := hfull.resolve_left hnormal
      rw [pack_subnormal hm (by omega), unpack_subnormal hm (by omega)]

theorem isFinite_of_canonical {f : UnpackedFloat} (h : Canonical f) : f.isFinite = true := by
  cases f with
  | infinity s => exact h.elim
  | notANumber => exact h.elim
  | zero s => rfl
  | finite s m e hm => rfl

theorem Fits.isFinite_pack {f : UnpackedFloat} (h : Fits f) :
    (Float.ofModel (Float.Model.pack f)).isFinite = true := by
  show (Float.Model.pack f).unpack.isFinite = true
  rw [h.unpack_pack]
  exact isFinite_of_canonical h.canonical

/-- The sign of a number of 64 bits. -/
def signOf (x : Float) : Sign :=
  Sign.ofBitVec (@unpackSign Format.binary64 x.toBits.toBitVec)

/-- The magnitude that the bits of a number of 64 bits stand for. -/
def ofDouble (x : Float) : Binary :=
  ofBits 52 1023 (x.toBits.toNat % Nat.pow 2 63)

/-- The fields of a number's bits, and the magnitude they stand for. -/
private theorem exists_fields (x : Float) : ∃ field fraction, field ≤ 2047 ∧ fraction < 2 ^ 52
    ∧ x.toBits.toBitVec = bitsOf (signOf x) field fraction
    ∧ ofDouble x = if field = 0 then ⟨fraction, -1074, false⟩
        else ⟨2 ^ 52 + fraction, field - 1075, fraction = 0 && field > 1⟩ := by
  have hbits := packComponents_unpack x.toBits.toBitVec
  have hlast := (@unpackExponent Format.binary64 x.toBits.toBitVec).isLt
  have hfield := toNat_unpackExponent x.toBits.toBitVec
  have hfraction := toNat_unpackMantissa x.toBits.toBitVec
  refine ⟨(@unpackExponent Format.binary64 x.toBits.toBitVec).toNat,
    (@unpackMantissa Format.binary64 x.toBits.toBitVec).toNat, Nat.le_of_lt_succ hlast,
    (@unpackMantissa Format.binary64 x.toBits.toBitVec).isLt, ?_, ?_⟩
  · rw [bitsOf, BitVec.ofNat_toNat, BitVec.ofNat_toNat, BitVec.setWidth_eq, BitVec.setWidth_eq]
    exact hbits.symm
  · have hlow : x.toBits.toNat % 2 ^ 63 % 2 ^ 52 = x.toBits.toBitVec.toNat % 2 ^ 52 := by
      show x.toBits.toBitVec.toNat % 2 ^ 63 % 2 ^ 52 = _
      omega
    have hhigh : x.toBits.toNat % 2 ^ 63 / 2 ^ 52 = x.toBits.toBitVec.toNat / 2 ^ 52 % 2 ^ 11 := by
      show x.toBits.toBitVec.toNat % 2 ^ 63 / 2 ^ 52 = _
      omega
    rw [hfield, hfraction, ← hlow, ← hhigh]
    rfl

/-- The fields of a finite number, by what it is unpacked to. -/
private theorem fields_of_isFinite {x : Float} (hx : x.isFinite = true) :
    ∃ field fraction, field < 2047 ∧ fraction < 2 ^ 52
    ∧ x.toBits.toBitVec = bitsOf (signOf x) field fraction
    ∧ ofDouble x = (if field = 0 then ⟨fraction, -1074, false⟩
        else ⟨2 ^ 52 + fraction, field - 1075, fraction = 0 && field > 1⟩)
    ∧ x.toModel.unpack
      = UnpackedFloat.unpack Format.binary64 (bitsOf (signOf x) field fraction) := by
  obtain ⟨field, fraction, hfield, hfraction, hbits, hmagnitude⟩ := exists_fields x
  have hunpack : x.toModel.unpack
      = UnpackedFloat.unpack Format.binary64 (bitsOf (signOf x) field fraction) := by
    rw [← hbits]
    rfl
  refine ⟨field, fraction, lt_of_le_of_ne hfield fun h => ?_, hfraction, hbits, hmagnitude, hunpack⟩
  replace hx : x.toModel.unpack.isFinite = true := hx
  rw [hunpack, h, isFinite_unpack_last] at hx
  cases hx

/-- **A finite number** is unpacked to its sign and to the magnitude that its bits stand for. -/
theorem unpack_eq {x : Float} (hx : x.isFinite = true) :
    ((ofDouble x).mantissa = 0 ∧ x.toModel.unpack = .zero (signOf x)) ∨
    ∃ h : (ofDouble x).IsDouble, (ofDouble x).exponent ≤ 971 ∧
      x.toModel.unpack
        = .finite (signOf x) (ofDouble x).mantissa (ofDouble x).exponent h.positive := by
  obtain ⟨field, fraction, hfield, hfraction, -, hmagnitude, hunpack⟩ := fields_of_isFinite hx
  rw [hmagnitude, hunpack]
  rcases Nat.eq_zero_or_pos field with rfl | hpos
  · rw [if_pos rfl]
    rcases Nat.eq_zero_or_pos fraction with rfl | hsome
    · exact Or.inl ⟨rfl, unpack_zero⟩
    · refine Or.inr ⟨⟨hsome, ?_, ?_, ?_, ?_⟩, ?_, unpack_subnormal hsome hfraction⟩
      all_goals simp
      omega
  · rw [if_neg (Nat.ne_of_gt hpos)]
    refine Or.inr ⟨⟨?_, ?_, ?_, ?_, ?_⟩, ?_, unpack_normal hpos hfield hfraction⟩ <;> simp <;> omega

/-- **Packing undoes unpacking** of a finite number. -/
theorem pack_unpack {x : Float} (hx : x.isFinite = true) :
    Float.ofModel (Float.Model.pack x.toModel.unpack) = x := by
  obtain ⟨field, fraction, hfield, hfraction, hbits, -, hunpack⟩ := fields_of_isFinite hx
  have hpacked : UnpackedFloat.pack Format.binary64 x.toModel.unpack = x.toBits.toBitVec := by
    rw [hbits, hunpack]
    rcases Nat.eq_zero_or_pos field with rfl | hpos
    · rcases Nat.eq_zero_or_pos fraction with rfl | hsome
      · rw [unpack_zero, pack_zero]
      · rw [unpack_subnormal hsome hfraction, pack_subnormal hsome hfraction]
    · rw [unpack_normal hpos hfield hfraction, pack_normal hpos hfield hfraction]
  obtain ⟨bits, hvalid⟩ := x
  rw [Float.Model.pack]
  congr 2
  exact congrArg UInt64.ofBitVec hpacked

/-- What is unpacked is in range, and in its only form. -/
theorem fits_unpack {x : Float} (hx : x.isFinite = true) : Fits x.toModel.unpack := by
  rcases unpack_eq hx with ⟨-, hzero⟩ | ⟨hb, hhighest, hfinite⟩
  · rw [hzero]
    exact fits_zero
  · rw [hfinite]
    exact hb.fits hhighest

end FailureTriage.Binary
