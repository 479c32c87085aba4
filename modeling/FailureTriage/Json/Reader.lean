import FailureTriage.Json.Basic

/-!
# Reading JSON

The strict grammar: blanks are the space, the tab and the two line-end characters; a string holds
no control character; a number has no leading zero, and digits on both sides of its point; nothing
but blanks follows the value.  Values may be nested to any depth.
-/

namespace FailureTriage.Json

/-- The text after its leading blanks. -/
def skipBlanks (text : List Char) : List Char :=
  text.dropWhile fun c => c == ' ' || c == '\n' || c == '\r' || c == '\t'

/-- The value of a hexadecimal digit. -/
def hexDigit? (c : Char) : Option Nat :=
  if c.isDigit then some (c.toNat - '0'.toNat)
  else if 'a' ≤ c && c ≤ 'f' then some (c.toNat - 'a'.toNat + 10)
  else if 'A' ≤ c && c ≤ 'F' then some (c.toNat - 'A'.toNat + 10)
  else none

/-- The number written by hexadecimal digits, most significant digit first. -/
def hexValue? (digits : List Char) : Option Nat :=
  digits.foldlM (fun value c => (hexDigit? c).map (value * 16 + ·)) 0

/-- A part of a string: a character, or one half of a surrogate pair. -/
inductive StringUnit where
  | char (c : Char)
  | half (code : Nat)

/-- What an escape by code stands for. -/
def StringUnit.ofCode (code : Nat) : StringUnit :=
  if 0xD800 ≤ code && code ≤ 0xDFFF then .half code else .char (Char.ofNat code)

/-- The character that a one-letter escape stands for. -/
def escaped? : Char → Option Char
  | '"' => some '"'
  | '\\' => some '\\'
  | '/' => some '/'
  | 'b' => some '\x08'
  | 'f' => some '\x0C'
  | 'n' => some '\n'
  | 'r' => some '\r'
  | 't' => some '\t'
  | _ => none

/-- The units up to the closing quote, after those in `found`, and the text after the quote. -/
def readUnits (text : List Char) (found : List StringUnit) :
    Option (List StringUnit × List Char) :=
  match text with
  | [] => none
  | '"' :: rest => some (found.reverse, rest)
  | '\\' :: 'u' :: a :: b :: c :: d :: rest =>
    match hexValue? [a, b, c, d] with
    | some code => readUnits rest (.ofCode code :: found)
    | none => none
  | '\\' :: e :: rest =>
    match escaped? e with
    | some c => readUnits rest (.char c :: found)
    | none => none
  | c :: rest => if c.toNat < 0x20 || c = '\\' then none else readUnits rest (.char c :: found)

/-- The characters of the units, after those in `found`, unless a surrogate half stands alone. -/
def joinUnits (units : List StringUnit) (found : List Char) : Option (List Char) :=
  match units with
  | [] => some found.reverse
  | .char c :: rest => joinUnits rest (c :: found)
  | .half high :: .half low :: rest =>
    if high < 0xDC00 && 0xDC00 ≤ low then
      joinUnits rest (Char.ofNat (0x10000 + (high - 0xD800) * 0x400 + (low - 0xDC00)) :: found)
    else none
  | .half _ :: _ => none

/-- The string whose opening quote has been read, and the text after its closing quote. -/
def readString (text : List Char) : Option (Option String × List Char) :=
  (readUnits text []).map fun (units, rest) => ((joinUnits units []).map String.ofList, rest)

/-- The exponent at the start of a text, if there is one, and the text after it. -/
def readPower (text : List Char) : Option (Option Int × List Char) :=
  match text with
  | e :: rest =>
    if e = 'e' || e = 'E' then
      let (sign, rest) := match rest with
        | '-' :: digits => (-1, digits)
        | '+' :: digits => (1, digits)
        | digits => ((1 : Int), digits)
      let digits := rest.takeWhile Char.isDigit
      if digits.isEmpty then none
      else some (some (sign * Text.digitsValue digits), rest.dropWhile Char.isDigit)
    else some (none, text)
  | [] => some (none, [])

/-- The digits after a point at the start of a text, if there is one, and the text after them. -/
def readFraction (text : List Char) : Option (Option (List Char) × List Char) :=
  match text with
  | '.' :: rest =>
    let digits := rest.takeWhile Char.isDigit
    if digits.isEmpty then none else some (some digits, rest.dropWhile Char.isDigit)
  | _ => some (none, text)

/-- The number with the given parts; without a fraction and an exponent it is a whole one. -/
def numeralOf (negative : Bool) (before : List Char) :
    (fraction : Option (List Char)) → (power : Option Int) → Numeral
  | none, none => .whole negative (Text.digitsValue before)
  | fraction, power => .ofParts negative before (fraction.getD []) (power.getD 0)

/-- The number at the start of a text, after its sign, and the text after it. -/
def readUnsigned (negative : Bool) (text : List Char) : Option (Numeral × List Char) :=
  let before := text.takeWhile Char.isDigit
  if before.isEmpty || (before.length > 1 && before.head? == some '0') then none
  else do
    let (fraction, text) ← readFraction (text.dropWhile Char.isDigit)
    let (power, text) ← readPower text
    some (numeralOf negative before fraction power, text)

/-- The number at the start of a text, and the text after it. -/
def readNumber (text : List Char) : Option (Numeral × List Char) :=
  match text with
  | '-' :: rest => readUnsigned true rest
  | rest => readUnsigned false rest

/-- The word or number at the start of a text, and the text after it. -/
def readScalar (text : List Char) : Option (Json × List Char) :=
  match text with
  | 'n' :: 'u' :: 'l' :: 'l' :: rest => some (.null, rest)
  | 't' :: 'r' :: 'u' :: 'e' :: rest => some (.bool true, rest)
  | 'f' :: 'a' :: 'l' :: 's' :: 'e' :: rest => some (.bool false, rest)
  | _ => (readNumber text).map fun (n, rest) => (.number n, rest)

mutual

/-- The value at the start of a text, and the text after it. -/
def readValue : (fuel : Nat) → List Char → Option (Json × List Char)
  | 0, _ => none
  | fuel + 1, text =>
    match skipBlanks text with
    | '{' :: rest =>
      match skipBlanks rest with
      | '}' :: rest => some (.object [], rest)
      | rest => readMembers fuel rest []
    | '[' :: rest =>
      match skipBlanks rest with
      | ']' :: rest => some (.array [], rest)
      | rest => readItems fuel rest []
    | '"' :: rest => (readString rest).map fun (s, rest) => (.string s, rest)
    | rest => readScalar rest

/-- The rest of an array, from the next item on, after the items in `found`. -/
def readItems : (fuel : Nat) → List Char → List Json → Option (Json × List Char)
  | 0, _, _ => none
  | fuel + 1, text, found =>
    match readValue fuel text with
    | none => none
    | some (item, rest) =>
      match skipBlanks rest with
      | ',' :: rest => readItems fuel rest (item :: found)
      | ']' :: rest => some (.array (item :: found).reverse, rest)
      | _ => none

/-- The rest of an object, from the next member on, after the members in `found`. -/
def readMembers : (fuel : Nat) → List Char → List (Option String × Json) →
    Option (Json × List Char)
  | 0, _, _ => none
  | fuel + 1, text, found =>
    match skipBlanks text with
    | '"' :: rest =>
      match readString rest with
      | none => none
      | some (key, rest) =>
        match skipBlanks rest with
        | ':' :: rest =>
          match readValue fuel rest with
          | none => none
          | some (item, rest) =>
            match skipBlanks rest with
            | ',' :: rest => readMembers fuel rest ((key, item) :: found)
            | '}' :: rest => some (.object ((key, item) :: found).reverse, rest)
            | _ => none
        | _ => none
    | _ => none

end

/-- The value that a whole text holds.  Two steps for each character are always enough. -/
def read? (text : String) : Option Json :=
  let characters := text.toList
  match readValue (2 * characters.length + 2) characters with
  | some (value, rest) => if (skipBlanks rest).isEmpty then some value else none
  | none => none

end FailureTriage.Json
