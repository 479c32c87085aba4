import FailureTriage.Decimal.Numeral

/-!
# Shortest decimal digits of a binary number

The decimal number with the fewest digits that reads back as a given binary number; of those with
equally few digits, the one nearest to it.  Two of them may be equally near, as 1234567890123456.75
lies halfway between two decimals of seventeen digits; a `Tie` says which one the written form has.

A finite binary number is `mantissa · 2 ^ exponent`, and the reals that round to it form an
interval around it.  For one digit, two digits and so on, the two neighbours of the number on the
decimal grid of that many digits are tested in exact arithmetic; the first grid with a neighbour
in the interval gives the digits.
-/

namespace FailureTriage

/-- The magnitude of a finite binary number. -/
structure Binary where
  /-- The integer significand. -/
  mantissa : Nat
  /-- The power of two it is scaled by. -/
  exponent : Int
  /-- Whether the next smaller number is only half as far away as the next larger one. -/
  narrowBelow : Bool

/-- Which of two neighbouring whole numbers stands for the point halfway between them. -/
inductive Tie where
  /-- The even one. -/
  | toEven
  /-- The larger one. -/
  | upward

/-- Whether the point halfway between `below` and `below + 1` goes to the larger one. -/
def Tie.raises (below : Nat) : Tie → Bool
  | toEven => below % 2 == 1
  | upward => true

/-- The nearer of `below` and `below + 1` to a point between them, from its distances to the two. -/
def Tie.nearer (tie : Tie) (below fromBelow fromAbove : Nat) : Nat :=
  if fromBelow < fromAbove || (fromBelow == fromAbove && !tie.raises below) then below
  else below + 1

namespace Binary

/-- The magnitude in a binary format, from the number's bits without the sign. -/
def ofBits (fractionBits bias : Nat) (bits : Nat) : Binary :=
  let fraction := bits % Nat.pow 2 fractionBits
  let field := bits / Nat.pow 2 fractionBits
  if field = 0 then ⟨fraction, 1 - (bias + fractionBits : Nat), false⟩
  else
    ⟨Nat.pow 2 fractionBits + fraction, field - (bias + fractionBits : Nat),
      fraction = 0 && field > 1⟩

/-- The number of decimal digits of `n`. -/
def digitCount (n : Nat) : Nat :=
  (Text.natDigits n).length

/-- The exponent of the leading decimal digit of the positive number `num / den`. -/
def leadingExponent (num den : Nat) : Int :=
  if den ≤ num then (digitCount (num / den) : Int) - 1
  else
    let inverse := (den + num - 1) / num
    if inverse ≤ 1 then 0 else -(digitCount (inverse - 1) : Int)

/-- The point `point · 10 ^ grid` if it lies between the ends, which count only if `closed`. -/
def inside (low high step point : Nat) (closed : Bool) : Bool :=
  let value := point * step
  if closed then low ≤ value && value ≤ high else low < value && value < high

/-- The nearer of the two neighbours on the grid `10 ^ grid` that read back, if one does. -/
def onGrid? (b : Binary) (tie : Tie) (grid : Int) : Option Nat :=
  -- all quantities are in quarters of the unit in the last place
  let scale := b.exponent - 2
  let up := Nat.pow 2 scale.toNat * Nat.pow 10 (-grid).toNat
  let step := Nat.pow 2 (-scale).toNat * Nat.pow 10 grid.toNat
  let value := 4 * b.mantissa * up
  let high := (4 * b.mantissa + 2) * up
  let low := (4 * b.mantissa - if b.narrowBelow then 1 else 2) * up
  let below := value / step
  let closed := b.mantissa % 2 == 0
  match inside low high step below closed, inside low high step (below + 1) closed with
  | true, true => some (tie.nearer below (value - below * step) ((below + 1) * step - value))
  | true, false => some below
  | false, true => some (below + 1)
  | false, false => none

/-- The number without the zeros it ends in, and how many there are, at most `limit`. -/
def dropZeros : (limit : Nat) → Nat → Nat × Nat
  | 0, n => (n, 0)
  | limit + 1, n =>
    if n % 10 = 0 then
      let (digits, zeros) := dropZeros limit (n / 10)
      (digits, zeros + 1)
    else (n, 0)

/-- The first grid, from `count` grids on, with a neighbour that reads back. -/
def search (b : Binary) (tie : Tie) (leading : Int) : (count grids : Nat) → Nat × Int
  | _, 0 => (b.mantissa, 0)
  | count, grids + 1 =>
    let grid := leading - count
    match onGrid? b tie grid with
    | some digits => let (short, zeros) := dropZeros 20 digits; (short, grid + zeros)
    | none => search b tie leading (count + 1) grids

/-- The digits and the power of ten of the shortest decimal that reads back. -/
def shortest (b : Binary) (tie : Tie) : Nat × Int :=
  if b.mantissa = 0 then (0, 0)
  else
    let num := b.mantissa * Nat.pow 2 b.exponent.toNat
    let den := Nat.pow 2 (-b.exponent).toNat
    search b tie (leadingExponent num den) 0 17

end Binary

/-- The shortest decimal that reads back as a number of 64 bits, if that is finite. -/
def Decimal.ofFloat? (tie : Tie) (x : Float) : Option Decimal :=
  if x.isFinite then
    let bits := x.toBits.toNat
    let (digits, exponent) := (Binary.ofBits 52 1023 (bits % Nat.pow 2 63)).shortest tie
    some ⟨bits / Nat.pow 2 63 == 1, digits, exponent⟩
  else none

/-- The shortest decimal that reads back as a number of 32 bits, if that is finite. -/
def Decimal.ofFloat32? (tie : Tie) (x : Float32) : Option Decimal :=
  if x.isFinite then
    let bits := x.toBits.toNat
    let (digits, exponent) := (Binary.ofBits 23 127 (bits % Nat.pow 2 31)).shortest tie
    some ⟨bits / Nat.pow 2 31 == 1, digits, exponent⟩
  else none

end FailureTriage
