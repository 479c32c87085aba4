import FailureTriage.Json.Reader

/-!
# The grammar of documents

Which texts write which values.  A value may be written in many ways: with blanks between its
tokens, with any characters of its strings escaped, and with any digits of its numbers.

* `StandsFor`: the characters that a text between quotes stands for.
* `IsString`: a string, which stands for no characters if it has half a surrogate pair in it.
* `IsWhole`, `IsFraction`, `IsPower`: the parts of a number.
* `Writes`: the texts that write a value, an item or a member, and lists of those.
-/

namespace FailureTriage.Json

/-! ## Strings -/

/-- Whether a character is the hexadecimal digit of a value, in either case. -/
def HexDigit (c : Char) (value : Nat) : Prop :=
  value < 16 ∧ (c = value.digitChar ∨ c = value.digitChar.toUpper)

instance (c : Char) (value : Nat) : Decidable (HexDigit c value) :=
  inferInstanceAs (Decidable (_ ∧ _))

/-- Whether four characters are the hexadecimal digits of a number. -/
inductive HexCode : Char → Char → Char → Char → Nat → Prop
  | digits {a b c d : Char} {i j k l : Nat} (ha : HexDigit a i) (hb : HexDigit b j)
      (hc : HexDigit c k) (hd : HexDigit d l) :
      HexCode a b c d (((i * 16 + j) * 16 + k) * 16 + l)

/-- The escapes of one letter, and the characters that they stand for. -/
def shortEscapes : List (Char × Char) :=
  [('"', '"'), ('\\', '\\'), ('/', '/'), ('b', '\x08'), ('f', '\x0C'), ('n', '\n'), ('r', '\r'),
    ('t', '\t')]

/-- Whether a character may stand for itself in a string. -/
structure IsPlain (c : Char) : Prop where
  quote : c ≠ '"'
  slash : c ≠ '\\'
  control : 0x20 ≤ c.toNat

instance (c : Char) : Decidable (IsPlain c) :=
  decidable_of_iff (c ≠ '"' ∧ c ≠ '\\' ∧ 0x20 ≤ c.toNat)
    ⟨fun h => ⟨h.1, h.2.1, h.2.2⟩, fun h => ⟨h.quote, h.slash, h.control⟩⟩

/-- Whether a text may stand between the quotes of a string. -/
inductive IsBody : List Char → Prop
  | nil : IsBody []
  | plain {c : Char} {body : List Char} (hc : IsPlain c) (hbody : IsBody body) :
      IsBody (c :: body)
  | short {letter c : Char} {body : List Char} (hc : (letter, c) ∈ shortEscapes)
      (hbody : IsBody body) : IsBody ('\\' :: letter :: body)
  | code {a b c d : Char} {n : Nat} {body : List Char} (hn : HexCode a b c d n)
      (hbody : IsBody body) : IsBody ('\\' :: 'u' :: a :: b :: c :: d :: body)

/-- Whether a text between quotes stands for some characters: each of them is written as it is, by a
    letter or by its code, and the code of a character beyond the basic plane is written in two
    halves. -/
inductive StandsFor : List Char → List Char → Prop
  | nil : StandsFor [] []
  | plain {c : Char} {body chars : List Char} (hc : IsPlain c) (hbody : StandsFor body chars) :
      StandsFor (c :: body) (c :: chars)
  | short {letter c : Char} {body chars : List Char} (hc : (letter, c) ∈ shortEscapes)
      (hbody : StandsFor body chars) : StandsFor ('\\' :: letter :: body) (c :: chars)
  | code {a b c d char : Char} {body chars : List Char} (hchar : HexCode a b c d char.toNat)
      (hbody : StandsFor body chars) :
      StandsFor ('\\' :: 'u' :: a :: b :: c :: d :: body) (char :: chars)
  | pair {a b c d a' b' c' d' char : Char} {high low : Nat} {body chars : List Char}
      (hhigh : HexCode a b c d (0xD800 + high)) (hlow : HexCode a' b' c' d' (0xDC00 + low))
      (hbound : high < 0x400 ∧ low < 0x400)
      (hchar : char.toNat = 0x10000 + high * 0x400 + low) (hbody : StandsFor body chars) :
      StandsFor ('\\' :: 'u' :: a :: b :: c :: d :: '\\' :: 'u' :: a' :: b' :: c' :: d' :: body)
        (char :: chars)

/-- Whether a text between quotes is a string, and the text that it stands for, if it stands for
    one. -/
def IsString (body : List Char) (text : Option String) : Prop :=
  IsBody body ∧ ∀ s : String, text = some s ↔ StandsFor body s.toList

/-! ## Numbers -/

/-- The digits before the point of a number. -/
structure IsWhole (digits : List Char) : Prop where
  nonempty : digits ≠ []
  isDigit : ∀ c ∈ digits, c.isDigit = true
  /-- A leading zero stands alone. -/
  noZero : digits.length > 1 → digits.head? ≠ some '0'

/-- Whether a text is empty, or a point and some digits. -/
inductive IsFraction : List Char → Option (List Char) → Prop
  | none : IsFraction [] none
  | digits {digits : List Char} (hne : digits ≠ []) (hdigits : ∀ c ∈ digits, c.isDigit = true) :
      IsFraction ('.' :: digits) (some digits)

/-- The signs of an exponent. -/
def powerSigns : List (List Char × Int) :=
  [([], 1), (['+'], 1), (['-'], -1)]

/-- Whether a text is empty, or an exponent. -/
inductive IsPower : List Char → Option Int → Prop
  | none : IsPower [] none
  | digits {e : Char} {sign digits : List Char} {unit : Int} (he : e = 'e' ∨ e = 'E')
      (hsign : (sign, unit) ∈ powerSigns) (hne : digits ≠ [])
      (hdigits : ∀ c ∈ digits, c.isDigit = true) :
      IsPower (e :: (sign ++ digits)) (some (unit * Text.digitsValue digits))

/-- Whether a text writes a number. -/
inductive WritesNumber : Numeral → List Char → Prop
  | parts {negative : Bool} {whole fractionPart powerPart : List Char}
      {fraction : Option (List Char)} {power : Option Int} (hwhole : IsWhole whole)
      (hfraction : IsFraction fractionPart fraction) (hpower : IsPower powerPart power) :
      WritesNumber (numeralOf negative whole fraction power)
        (signText negative ++ (whole ++ (fractionPart ++ powerPart)))

/-! ## Values -/

/-- Whether there are only blanks in a text. -/
def Blanks (text : List Char) : Prop :=
  ∀ c ∈ text, c = ' ' ∨ c = '\n' ∨ c = '\r' ∨ c = '\t'

/-- What is written in a document: a value, a value with blanks around it, one or more items of an
    array, a member of an object, and one or more members. -/
inductive Phrase where
  | value (value : Json)
  | element (value : Json)
  | items (values : List Json)
  | member (key : Option String) (value : Json)
  | members (members : List (Option String × Json))

/-- Whether a text writes a phrase. -/
inductive Writes : Phrase → List Char → Prop
  | null : Writes (.value .null) ['n', 'u', 'l', 'l']
  | true : Writes (.value (.bool true)) ['t', 'r', 'u', 'e']
  | false : Writes (.value (.bool false)) ['f', 'a', 'l', 's', 'e']
  | number {n : Numeral} {text : List Char} (hn : WritesNumber n text) :
      Writes (.value (.number n)) text
  | string {body : List Char} {text : Option String} (hbody : IsString body text) :
      Writes (.value (.string text)) ('"' :: (body ++ ['"']))
  | emptyArray {blanks : List Char} (hblanks : Blanks blanks) :
      Writes (.value (.array [])) ('[' :: (blanks ++ [']']))
  | array {values : List Json} {text : List Char} (hitems : Writes (.items values) text) :
      Writes (.value (.array values)) ('[' :: (text ++ [']']))
  | emptyObject {blanks : List Char} (hblanks : Blanks blanks) :
      Writes (.value (.object [])) ('{' :: (blanks ++ ['}']))
  | object {members : List (Option String × Json)} {text : List Char}
      (hmembers : Writes (.members members) text) :
      Writes (.value (.object members)) ('{' :: (text ++ ['}']))
  | element {value : Json} {before text after : List Char} (hbefore : Blanks before)
      (hvalue : Writes (.value value) text) (hafter : Blanks after) :
      Writes (.element value) (before ++ (text ++ after))
  | lastItem {value : Json} {text : List Char} (hvalue : Writes (.element value) text) :
      Writes (.items [value]) text
  | items {value : Json} {values : List Json} {text more : List Char}
      (hvalue : Writes (.element value) text) (hmore : Writes (.items values) more) :
      Writes (.items (value :: values)) (text ++ ',' :: more)
  | member {key : Option String} {value : Json} {before body after text : List Char}
      (hbefore : Blanks before) (hkey : IsString body key) (hafter : Blanks after)
      (hvalue : Writes (.element value) text) :
      Writes (.member key value) (before ++ '"' :: (body ++ '"' :: (after ++ ':' :: text)))
  | lastMember {key : Option String} {value : Json} {text : List Char}
      (hmember : Writes (.member key value) text) : Writes (.members [(key, value)]) text
  | members {key : Option String} {value : Json} {members : List (Option String × Json)}
      {text more : List Char} (hmember : Writes (.member key value) text)
      (hmore : Writes (.members members) more) :
      Writes (.members ((key, value) :: members)) (text ++ ',' :: more)

end FailureTriage.Json
