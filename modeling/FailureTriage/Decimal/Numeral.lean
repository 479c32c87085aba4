import FailureTriage.Text.Digits

/-!
# Decimal numerals

A number as it is written in decimal, before it is rounded to a type of the program.

* `Numeral.toNat?` reads a whole number up to a limit.
* `Numeral.toFloat?` rounds to the nearest binary number and refuses what is too large.
* `Numeral.toFloat32` rounds to the nearest binary number of 32 bits.
-/

namespace FailureTriage

/-- The decimal number `± digits · 10 ^ exponent`. -/
structure Decimal where
  negative : Bool
  digits : Nat
  exponent : Int
  deriving Repr, DecidableEq

/-- A decimal number as written. -/
inductive Numeral where
  /-- A number written without a point and without an exponent. -/
  | whole (negative : Bool) (value : Nat)
  /-- A number written with a point or an exponent. -/
  | scaled (number : Decimal)
  /-- The word for an infinite number. -/
  | infinite (negative : Bool)
  /-- The word for no number. -/
  | undefined
  deriving Repr, DecidableEq

namespace Decimal

/-- The number with its sign. -/
def signed (negative : Bool) (x : Float) : Float :=
  if negative then -x else x

/--
The nearest binary number.  Magnitudes that lie far outside the range of binary numbers are told by
their digit count alone.
-/
def toFloat (d : Decimal) : Float :=
  let size := d.exponent + (Text.natDigits d.digits).length
  signed d.negative <|
    if d.digits = 0 || size < -400 then 0.0
    else if size > 400 then 1.0 / 0.0
    else Float.ofScientific d.digits (d.exponent < 0) d.exponent.natAbs

end Decimal

namespace Numeral

/-- The whole number that is written without a sign and is at most `largest`. -/
def toNat? (largest : Nat) : Numeral → Option Nat
  | .whole false value => if value ≤ largest then some value else none
  | _ => none

/-- The nearest binary number, which may be infinite. -/
def toFloat : Numeral → Float
  | .whole negative value => Decimal.toFloat ⟨negative, value, 0⟩
  | .scaled number => number.toFloat
  | .infinite negative => Decimal.signed negative (1.0 / 0.0)
  | .undefined => 0.0 / 0.0

/-- Whether a whole number is a word of 64 bits, with a sign if it is negative. -/
def isWord (negative : Bool) (value : Nat) : Bool :=
  if negative then 0 < value && value ≤ Text.maxWord64 / 2 + 1 else value ≤ Text.maxWord64

/--
The nearest binary number of 32 bits, which may be infinite.  A number that is no word of 64 bits
is rounded to 64 bits first.
-/
def toFloat32 : Numeral → Float32
  | .whole negative value =>
    if isWord negative value then
      if negative then -Float32.ofNat value else Float32.ofNat value
    else (Decimal.toFloat ⟨negative, value, 0⟩).toFloat32
  | n => n.toFloat.toFloat32

/-- The nearest binary number, if it is finite. -/
def toFloat? (n : Numeral) : Option Float :=
  if n.toFloat.isFinite then some n.toFloat else none

/-- A point and digits after it, and the text after those. -/
private def readFraction (text : List Char) : List Char × List Char :=
  match text with
  | '.' :: rest => (rest.takeWhile Char.isDigit, rest.dropWhile Char.isDigit)
  | _ => ([], text)

/-- The value of an exponent's digits after an optional sign. -/
def readExponent? (text : List Char) : Option Int :=
  match text with
  | '-' :: digits => (Text.readDigits? digits).map fun n => -(n : Int)
  | '+' :: digits => (Text.readDigits? digits).map fun n => (n : Int)
  | digits => (Text.readDigits? digits).map fun n => (n : Int)

/-- The number with the given digits before and after its point, scaled by a power of ten. -/
def ofParts (negative : Bool) (before after : List Char) (exponent : Int) : Numeral :=
  .scaled ⟨negative, Text.digitsValue (before ++ after), exponent - after.length⟩

/-- A number without its sign: digits with at most one point among them, and an exponent. -/
private def readUnsigned? (negative : Bool) (text : List Char) : Option Numeral :=
  let before := text.takeWhile Char.isDigit
  let (after, rest) := readFraction (text.dropWhile Char.isDigit)
  if before.isEmpty && after.isEmpty then none
  else match rest with
    | [] => some (ofParts negative before after 0)
    | e :: exponent =>
      if e = 'e' || e = 'E' then
        (readExponent? exponent).map (ofParts negative before after)
      else none

/-- The number without digits that a word stands for, in any case. -/
private def special? (negative : Bool) (text : List Char) : Option Numeral :=
  let word := String.ofList (text.map Char.toLower)
  if word = "inf" || word = "infinity" then some (.infinite negative)
  else if word = "nan" then some .undefined
  else none

/--
The binary number written by a text: an optional sign, then digits with an optional point and
exponent, or one of the words for infinity and for no number, in any case.
-/
def readFloat? (text : List Char) : Option Float :=
  let (negative, body) := match text with
    | '-' :: rest => (true, rest)
    | '+' :: rest => (false, rest)
    | rest => (false, rest)
  ((readUnsigned? negative body).orElse fun _ => special? negative body).map toFloat

end Numeral

end FailureTriage
