import FailureTriage.Json.Codec
import FailureTriage.Text.Blank

/-!
# Timestamps

Points in time on the proleptic Gregorian calendar, in universal time, to the nanosecond.

* `Timestamp.text` writes `2024-01-01T00:00:00Z`, with a fraction of 0, 3, 6 or 9 digits.
* `Timestamp.parse?` reads that form and some freer ones: any distance from universal time, a blank
  in place of the `T`, blanks between the parts, and single digits.
-/

namespace FailureTriage

/-- A point in time; the second is 60 in a leap second. -/
structure Timestamp where
  year : Int
  month : Nat
  day : Nat
  hour : Nat
  minute : Nat
  second : Nat
  nanosecond : Nat
  deriving DecidableEq, Repr

namespace Timestamp

/-! ## The calendar -/

/-- Whether a year has a leap day. -/
def isLeap (year : Int) : Bool :=
  year % 4 = 0 && (year % 100 ≠ 0 || year % 400 = 0)

/-- How many days a month has. -/
def daysIn (year : Int) (month : Nat) : Nat :=
  if month = 2 then (if isLeap year then 29 else 28)
  else if month = 4 || month = 6 || month = 9 || month = 11 then 30
  else 31

/-- Whether a date is one of the calendar, in a year that can be represented. -/
def isDate (year : Int) (month day : Nat) : Bool :=
  -262143 ≤ year && year ≤ 262142 && 1 ≤ month && month ≤ 12 && 1 ≤ day
    && day ≤ daysIn year month

/-- The date one day later. -/
def nextDay (year : Int) (month day : Nat) : Int × Nat × Nat :=
  if day < daysIn year month then (year, month, day + 1)
  else if month < 12 then (year, month + 1, 1)
  else (year + 1, 1, 1)

/-- The date one day earlier. -/
def previousDay (year : Int) (month day : Nat) : Int × Nat × Nat :=
  if 1 < day then (year, month, day - 1)
  else if 1 < month then (year, month - 1, daysIn year (month - 1))
  else (year - 1, 12, 31)

/-- The time a number of minutes earlier, which are less than a day's. -/
def minusMinutes (t : Timestamp) (minutes : Int) : Timestamp :=
  let total := (t.hour * 60 + t.minute : Nat) - minutes
  let (year, month, day) :=
    if total < 0 then previousDay t.year t.month t.day
    else if 1440 ≤ total then nextDay t.year t.month t.day
    else (t.year, t.month, t.day)
  let inDay := (total % 1440).toNat
  { t with
    year := year
    month := month
    day := day
    hour := inDay / 60
    minute := inDay % 60 }

/-! ## Writing -/

/-- The digits of a number, with zeros before them up to a width. -/
def padded (width n : Nat) : List Char :=
  let digits := Text.natDigits n
  List.replicate (width - digits.length) '0' ++ digits

/-- The digits of a year; beyond four digits, and before the year zero, with a sign. -/
def yearText (year : Int) : List Char :=
  if 0 ≤ year && year ≤ 9999 then padded 4 year.natAbs
  else (if year < 0 then '-' else '+') :: padded 4 year.natAbs

/-- The fraction of a second, in the fewest digits that are a multiple of three. -/
def fractionText (nanosecond : Nat) : List Char :=
  if nanosecond = 0 then []
  else if nanosecond % 1000000 = 0 then '.' :: padded 3 (nanosecond / 1000000)
  else if nanosecond % 1000 = 0 then '.' :: padded 6 (nanosecond / 1000)
  else '.' :: padded 9 nanosecond

/-- The text of a timestamp. -/
def text (t : Timestamp) : String :=
  String.ofList (
    yearText t.year ++ '-' :: padded 2 t.month ++ '-' :: padded 2 t.day ++ 'T' ::
    padded 2 t.hour ++ ':' :: padded 2 t.minute ++ ':' :: padded 2 t.second ++
    fractionText t.nanosecond ++ ['Z'])

/-! ## Reading -/

/-- A number of at least one and at most `width` digits, and the text after it. -/
def number? (width : Nat) (text : List Char) : Option (Nat × List Char) :=
  let digits := (text.takeWhile Char.isDigit).take width
  if digits.isEmpty then none else some (Text.digitsValue digits, text.drop digits.length)

/-- Blanks and then a number. -/
def part? (width : Nat) (text : List Char) : Option (Nat × List Char) :=
  number? width (Text.trimStart text)

/-- Blanks and then a character. -/
def mark? (mark : Char) (text : List Char) : Option (List Char) :=
  match Text.trimStart text with
  | c :: rest => if c = mark then some rest else none
  | [] => none

/-- A year: four digits at most, or any number of them after a sign. -/
def year? (text : List Char) : Option (Int × List Char) := do
  match Text.trimStart text with
  | '-' :: rest =>
    let (n, rest) ← number? rest.length rest
    some (-(n : Int), rest)
  | '+' :: rest =>
    let (n, rest) ← number? rest.length rest
    some ((n : Int), rest)
  | rest =>
    let (n, rest) ← number? 4 rest
    some ((n : Int), rest)

/-- The fraction of a second in nanoseconds; digits after the ninth do not count. -/
def fraction? (text : List Char) : Option (Nat × List Char) :=
  match text with
  | '.' :: rest => do
    let (value, after) ← number? 9 rest
    let count := rest.length - after.length
    some (value * Nat.pow 10 (9 - count), after.dropWhile Char.isDigit)
  | _ => some (0, text)

/-- Two digits. -/
def twoDigits? : List Char → Option (Nat × List Char)
  | a :: b :: rest =>
    if a.isDigit && b.isDigit then some (Text.digitsValue [a, b], rest) else none
  | _ => none

/-- The distance from universal time in minutes, and the text after it. -/
def offset? (text : List Char) : Option (Int × List Char) :=
  match text with
  | 'Z' :: rest => some (0, rest)
  | 'z' :: rest => some (0, rest)
  | sign :: rest =>
    if sign = '+' || sign = '-' || sign = '\u2212' then do
      let (hours, rest) ← twoDigits? rest
      let (minutes, rest) ← twoDigits? (rest.dropWhile fun c => c == ':' || Text.isBlank c)
      if minutes < 60 && hours < 24 then
        let total : Int := hours * 60 + minutes
        some (if sign = '+' then total else -total, rest)
      else none
    else none
  | [] => none

/-- The text after the letter between a date and a time, or after a blank in its place. -/
def between? : List Char → Option (List Char)
  | c :: rest => if c = 'T' || c = 't' || c = ' ' then some rest else none
  | [] => none

/-- Blanks and then the distance from universal time in minutes, or the word for none. -/
def zone? (text : List Char) : Option (Int × List Char) :=
  let text := Text.trimStart text
  if (text.take 3).map Char.toUpper = ['U', 'T', 'C'] then some (0, text.drop 3) else offset? text

/-- The timestamp that a text stands for. -/
def parse? (text : String) : Option Timestamp := do
  let (year, rest) ← year? text.toList
  let (month, rest) ← part? 2 (← mark? '-' rest)
  let (day, rest) ← part? 2 (← mark? '-' rest)
  let (hour, rest) ← part? 2 (← between? rest)
  let (minute, rest) ← part? 2 (← mark? ':' rest)
  let (second, rest) ← part? 2 (← mark? ':' rest)
  let (nanosecond, rest) ← fraction? rest
  let (offset, rest) ← zone? rest
  let shifted := minusMinutes ⟨year, month, day, hour, minute, second, nanosecond⟩ offset
  if isDate year month day && hour < 24 && minute < 60 && second ≤ 60
      && isDate shifted.year shifted.month shifted.day && (Text.trimStart rest).isEmpty then
    some shifted
  else none

end Timestamp

instance : JsonCodec Timestamp where
  encode t := .text t.text
  decode? json := json.asString?.bind Timestamp.parse?

end FailureTriage
