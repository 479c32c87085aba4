import FailureTriage.Decimal.Layout

/-!
# JSON values

The values of JSON documents, as a reader finds them and a writer is given them: members keep
their order and may repeat a key, and a number keeps the way it is written.
-/

namespace FailureTriage

/--
A JSON value.  A string without a text is one in which an escape leaves half of a surrogate pair
alone; it is well-formed, but stands for no characters.
-/
inductive Json where
  | null
  | bool (value : Bool)
  | number (value : Numeral)
  | string (text : Option String)
  | array (items : List Json)
  | object (members : List (Option String × Json))

namespace Json

/-- The string with the given characters. -/
def text (s : String) : Json :=
  .string (some s)

/-- A whole number that is not negative. -/
def nat (n : Nat) : Json :=
  .number (.whole false n)

/--
A binary number in its shortest digits, of two equally near decimals the one with the even last
digit; a number without digits has no JSON form but `null`.
-/
def float (x : Float) : Json :=
  match Decimal.ofFloat? .toEven x with
  | some d => .number (.scaled d)
  | none => .null

/-- The characters of a string that stands for some. -/
def asString? : Json → Option String
  | .string text => text
  | _ => none

end Json

end FailureTriage
