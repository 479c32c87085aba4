import FailureTriage.Text.Find
import FailureTriage.Timestamp
import FailureTriage.Toml.Text

/-!
# Numbers, dates and truth values of TOML

Scalars other than strings.  Digits may be grouped by single underscores; a whole number has to
fit into 64 bits with a sign.
-/

namespace FailureTriage.Toml

/-- The digits of a number without the underscores between them. -/
private def digits? (isDigit : Char → Bool) (text : List Char) : Option (List Char) :=
  let parts := Text.splitOn '_' text
  if parts.all fun part => !part.isEmpty && part.all isDigit then some parts.flatten else none

/-- Decimal digits without a zero before them. -/
private def decimal? (text : List Char) : Option (List Char) :=
  match text with
  | '0' :: _ :: _ => none
  | _ => digits? Char.isDigit text

/-- The number of a text in another base. -/
private def based? (base : Nat) (text : List Char) : Option Nat := do
  let isDigit (c : Char) : Bool := match Json.hexDigit? c with
    | some d => d < base
    | none => false
  let digits ← digits? isDigit text
  some (digits.foldl (fun value c => value * base + (Json.hexDigit? c).getD 0) 0)

/-- The magnitude of the least number of 64 bits with a sign. -/
private def leastMagnitude : Nat := 9223372036854775808

/-- The whole number that a text stands for. -/
private def integer? (text : List Char) : Option Numeral := do
  let (negative, magnitude) ← match text with
    | '0' :: 'x' :: rest => (based? 16 rest).map fun n => (false, n)
    | '0' :: 'o' :: rest => (based? 8 rest).map fun n => (false, n)
    | '0' :: 'b' :: rest => (based? 2 rest).map fun n => (false, n)
    | '-' :: rest => (decimal? rest).map fun digits => (true, Text.digitsValue digits)
    | '+' :: rest => (decimal? rest).map fun digits => (false, Text.digitsValue digits)
    | rest => (decimal? rest).map fun digits => (false, Text.digitsValue digits)
  if magnitude < leastMagnitude || (negative && magnitude = leastMagnitude) then
    some (.whole (negative && magnitude ≠ 0) magnitude)
  else none

/-- The text before and after the first character of a class. -/
private def cutAt (stop : Char → Bool) (text : List Char) : List Char × Option (List Char) :=
  (text.takeWhile (!stop ·), (text.dropWhile (!stop ·)).tail?)

/-- The exponent of a number, its digits grouped or not. -/
private def exponent? (text : List Char) : Option Int :=
  match text with
  | '-' :: rest => (digits? Char.isDigit rest).map fun d => -(Text.digitsValue d : Int)
  | '+' :: rest => (digits? Char.isDigit rest).map fun d => (Text.digitsValue d : Int)
  | rest => (digits? Char.isDigit rest).map fun d => (Text.digitsValue d : Int)

/-- The number with a point or an exponent, or without digits, that a text stands for. -/
private def float? (text : List Char) : Option Numeral := do
  let (negative, body) := match text with
    | '-' :: rest => (true, rest)
    | '+' :: rest => (false, rest)
    | rest => (false, rest)
  if body = "inf".toList then some (.infinite negative)
  else if body = "nan".toList then some .undefined
  else
    let (number, power) := cutAt (fun c => c == 'e' || c == 'E') body
    let (before, after) := cutAt (· == '.') number
    let before ← decimal? before
    let fraction ← match after with
      | some digits => digits? Char.isDigit digits
      | none => some []
    let exponent ← match power with
      | some text => exponent? text
      | none => some 0
    if after.isNone && power.isNone then none
    else
      let numeral := Numeral.ofParts negative before fraction exponent
      if numeral.toFloat == 1.0 / 0.0 then none else some numeral

/-- A number of exactly two digits, at most `largest`. -/
private def two? (largest : Nat) (text : List Char) : Option Nat :=
  if text.length = 2 then (Text.readDigits? text).filter (· ≤ largest) else none

/-- Whether a text is a date. -/
private def isDate (text : List Char) : Bool :=
  match Text.splitOn '-' text with
  | [year, month, day] =>
    match Text.readDigits? year, two? 12 month, two? 31 day with
    | some y, some m, some d => year.length = 4 && Timestamp.isDate y m d
    | _, _, _ => false
  | _ => false

/-- Whether a text is a time of day. -/
private def isTime (text : List Char) : Bool :=
  match Text.splitOn ':' text with
  | [hour, minute, second] =>
    let (whole, fraction) := cutAt (· == '.') second
    (two? 23 hour).isSome && (two? 59 minute).isSome && (two? 60 whole).isSome
      && ((fraction.map fun digits => (Text.readDigits? digits).isSome).getD true)
  | _ => false

/-- Whether a text is a distance from universal time. -/
private def isOffset (text : List Char) : Bool :=
  match Text.splitOn ':' text with
  | [hour, minute] => (two? 23 hour).isSome && (two? 59 minute).isSome
  | _ => false

/-- Whether a text is a time of day, with a distance from universal time or without one. -/
private def isOffsetTime (text : List Char) : Bool :=
  let (time, offset) := cutAt (fun c => c == '+' || c == '-') text
  match offset with
  | some offset => isTime time && isOffset offset
  | none =>
    isTime text || match text.getLast? with
      | some c => (c == 'Z' || c == 'z') && isTime text.dropLast
      | none => false

/-- Whether a text is a date with a time of day. -/
private def isDateTime (text : List Char) : Bool :=
  match cutAt (fun c => c == 'T' || c == 't') text with
  | (date, some time) => isDate date && isOffsetTime time
  | _ => false

/-- A date or a time, of which nothing but that it is one is kept. -/
private def dateValue (text : List Char) : Json :=
  .object [(some "datetime", .text (String.ofList text))]

/-- A character that ends a scalar. -/
private def endsScalar (c : Char) : Bool :=
  isBlank c || c == '\n' || c == '\r' || c == ',' || c == ']' || c == '\x7d' || c == '#'

/-- The scalar at the start of a text, and the text after it. -/
def scalar? (text : List Char) : Option (Json × List Char) := do
  let token := text.takeWhile (!endsScalar ·)
  let rest := text.dropWhile (!endsScalar ·)
  if token = "true".toList then some (.bool true, rest)
  else if token = "false".toList then some (.bool false, rest)
  else if isDate token then
    match rest with
    | ' ' :: after =>
      let time := after.takeWhile (!endsScalar ·)
      if (time.head?.map Char.isDigit).getD false then
        if isOffsetTime time then some (dateValue token, after.dropWhile (!endsScalar ·))
        else none
      else some (dateValue token, rest)
    | _ => some (dateValue token, rest)
  else if isDateTime token || isTime token then some (dateValue token, rest)
  else
    let numeral ← (integer? token).orElse fun _ => float? token
    some (.number numeral, rest)

end FailureTriage.Toml
