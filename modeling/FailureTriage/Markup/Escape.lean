import FailureTriage.Json.Reader

/-!
# Character references

In running text and in attribute values a reference between an ampersand and a semicolon stands
for a character: one of five by name, or any character but the null character by its number.
-/

namespace FailureTriage.Markup

/-- The character with a name of its own. -/
def namedCharacter? (name : List Char) : Option Char :=
  if name = "lt".toList then some '<'
  else if name = "gt".toList then some '>'
  else if name = "amp".toList then some '&'
  else if name = "apos".toList then some '\''
  else if name = "quot".toList then some '"'
  else none

/-- The character with a number; the null character and surrogate halves are none. -/
def numberedCharacter? (number : Nat) : Option Char :=
  if 0 < number && (number < 0xD800 || (0xDFFF < number && number < 0x110000)) then
    some (Char.ofNat number)
  else none

/-- The number after `#`: decimal digits, or an `x` and hexadecimal digits. -/
def referenceNumber? (text : List Char) : Option Nat :=
  match text with
  | 'x' :: digits => if digits.isEmpty then none else Json.hexValue? digits
  | digits => Text.readDigits? digits

/-- The character that a reference stands for, given what is between `&` and `;`. -/
def referenced? (body : List Char) : Option Char :=
  match body with
  | '#' :: number => (referenceNumber? number).bind numberedCharacter?
  | name => namedCharacter? name

/--
The text with its references resolved.  While a reference is open, `reference` holds its
characters in reverse order; `found` holds the characters of the result in reverse order.
-/
def unescapeFrom (text : List Char) (reference : Option (List Char)) (found : List Char) :
    Option (List Char) :=
  match text, reference with
  | [], none => some found.reverse
  | [], some _ => none
  | '&' :: rest, none => unescapeFrom rest (some []) found
  | c :: rest, none => unescapeFrom rest none (c :: found)
  | '&' :: _, some _ => none
  | ';' :: rest, some body =>
    match referenced? body.reverse with
    | some c => unescapeFrom rest none (c :: found)
    | none => none
  | c :: rest, some body => unescapeFrom rest (some (c :: body)) found

/-- The text with its references resolved, unless one is unfinished or unknown. -/
def unescape? (text : List Char) : Option (List Char) :=
  unescapeFrom text none []

end FailureTriage.Markup
