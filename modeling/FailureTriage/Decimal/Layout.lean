import FailureTriage.Decimal.Shortest

/-!
# Texts of decimal numbers

Three ways to write a number: positional, with an exponent when it is very large or very small,
and rounded to a whole number.
-/

namespace FailureTriage

/-- A text of `count` zeros. -/
def zeros (count : Nat) : List Char :=
  List.replicate count '0'

/-- A minus sign for a negative number. -/
def signText (negative : Bool) : List Char :=
  if negative then ['-'] else []

/-- The digits with a point so placed that they are scaled by `10 ^ exponent`. -/
def withPoint (digits : List Char) (exponent : Int) : List Char :=
  let place := digits.length + exponent
  if 0 ≤ exponent then digits ++ zeros exponent.toNat
  else if 0 < place then digits.take place.toNat ++ '.' :: digits.drop place.toNat
  else '0' :: '.' :: zeros (-place).toNat ++ digits

namespace Decimal

/-- Every digit in its place: `1`, `0.001`, `100000000000000000000000`. -/
def positional (d : Decimal) : List Char :=
  signText d.negative ++
    if d.digits = 0 then ['0'] else withPoint (Text.natDigits d.digits) d.exponent

/--
The number with a point or an exponent always: positional if its point stands from five places
before its first digit to sixteen places after it, and with a signed exponent otherwise.
-/
def scientific (d : Decimal) : List Char :=
  let text := Text.natDigits d.digits
  let place := text.length + d.exponent
  signText d.negative ++
    if d.digits = 0 then ['0', '.', '0']
    else if 0 ≤ d.exponent && place ≤ 16 then withPoint text d.exponent ++ ['.', '0']
    else if -5 < place && place ≤ 16 then withPoint text d.exponent
    else
      let power := (if place ≤ 0 then '-' else '+') :: Text.natDigits (place - 1).natAbs
      match text with
      | [only] => only :: 'e' :: power
      | first :: rest => first :: '.' :: rest ++ 'e' :: power
      | [] => []

/--
The positional text of a number of 64 bits, or the word for one without digits.  Of two equally
near decimals it has the larger.
-/
def floatText (x : Float) : String :=
  match ofFloat? .upward x with
  | some d => String.ofList d.positional
  | none => if x.isNaN then "NaN" else if x < 0.0 then "-inf" else "inf"

/--
The positional text of a number of 32 bits, or the word for one without digits.  Of two equally
near decimals it has the larger.
-/
def float32Text (x : Float32) : String :=
  match ofFloat32? .upward x with
  | some d => String.ofList d.positional
  | none => if x.isNaN then "NaN" else if x < 0.0 then "-inf" else "inf"

/-- The whole number nearest to `num / den`, an even one if two are equally near. -/
def roundHalfEven (num den : Nat) : Nat :=
  Tie.toEven.nearer (num / den) (num % den) (den - num % den)

/-- A number of 64 bits rounded to a whole number, a half going to the even neighbour. -/
def roundedText (x : Float) : String :=
  if x.isFinite then
    let bits := x.toBits.toNat
    let b := Binary.ofBits 52 1023 (bits % Nat.pow 2 63)
    let whole := roundHalfEven (b.mantissa * Nat.pow 2 b.exponent.toNat)
      (Nat.pow 2 (-b.exponent).toNat)
    String.ofList (signText (bits / Nat.pow 2 63 == 1) ++ Text.natDigits whole)
  else floatText x

end Decimal

end FailureTriage
