import FailureTriage.Decimal.Shortest

/-!
# Rounding to whole numbers

Binary numbers rounded to a whole one, a half away from zero, and to some decimal places.
-/

namespace FailureTriage.Decimal

/-- The nearest whole number; what is not finite stays as it is. -/
def toWhole (x : Float) : Float :=
  let bits := x.toBits.toNat
  let b := Binary.ofBits 52 1023 (bits % Nat.pow 2 63)
  if x.isFinite && b.exponent < 0 then
    let unit := Nat.pow 2 (-b.exponent).toNat
    signed (bits / Nat.pow 2 63 == 1) (Float.ofNat ((2 * b.mantissa + unit) / (2 * unit)))
  else x

/-- A number rounded to three places. -/
def toThousandths (x : Float) : Float :=
  toWhole (x * 1000.0) / 1000.0

/-- A number rounded to two places. -/
def toHundredths (x : Float) : Float :=
  toWhole (x * 100.0) / 100.0

end FailureTriage.Decimal
