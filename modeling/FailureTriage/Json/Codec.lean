import FailureTriage.Json.Reader
import FailureTriage.Json.Writer

/-!
# Values as JSON

How the values of the program are written as JSON values and read back.

A record is an object with one member for each field, or an array of its fields in order.  An
unknown member is ignored; a field given twice, and a key that stands for no text, are refused.  A
field that has a default may be left out of either form, and an optional field may be left out of
an object.
-/

namespace FailureTriage

/-- A type whose values are written as JSON values and read back. -/
class JsonCodec (α : Type) where
  encode : α → Json
  decode? : Json → Option α

export JsonCodec (encode decode?)

instance : JsonCodec Bool where
  encode := .bool
  decode? | .bool b => some b
          | _ => none

instance : JsonCodec String where
  encode := Json.text
  decode? := Json.asString?

/-- Sizes and positions are words of 64 bits when they are read. -/
instance : JsonCodec Nat where
  encode := Json.nat
  decode? | .number n => n.toNat? Text.maxWord64
          | _ => none

instance : JsonCodec UInt32 where
  encode n := Json.nat n.toNat
  decode? | .number n => (n.toNat? Text.maxWord32).map UInt32.ofNat
          | _ => none

instance : JsonCodec UInt64 where
  encode n := Json.nat n.toNat
  decode? | .number n => (n.toNat? Text.maxWord64).map UInt64.ofNat
          | _ => none

instance : JsonCodec Float where
  encode := Json.float
  decode? | .number n => n.toFloat?
          | _ => none

/-- A number of 32 bits may be infinite when it is read. -/
instance : JsonCodec Float32 where
  encode x := match Decimal.ofFloat32? .toEven x with
    | some d => .number (.scaled d)
    | none => .null
  decode? | .number n => some n.toFloat32
          | _ => none

instance {α : Type} [JsonCodec α] : JsonCodec (List α) where
  encode items := .array (items.map encode)
  decode? | .array items => items.mapM decode?
          | _ => none

/-- A missing value is written as `null`. -/
instance {α : Type} [JsonCodec α] : JsonCodec (Option α) where
  encode | some value => encode value
         | none => .null
  decode? | .null => some none
          | json => (decode? json).map some

namespace Json

/--
The word for one of a fixed set of values: a string, or an object whose only member has that word
for its key and no value.
-/
def asLabel? : Json → Option String
  | .string label => label
  | .object [(label, .null)] => label
  | _ => none

/-- A field of a record: its name, and whether it may be left out of either form. -/
structure Field where
  name : String
  hasDefault : Bool := false

/-- A field that has to be there. -/
def must (name : String) : Field := ⟨name, false⟩

/-- A field that may be left out. -/
def may (name : String) : Field := ⟨name, true⟩

/-- The value of the only member with a name; outer `none` if there are several. -/
def member? (members : List (Option String × Json)) (name : String) : Option (Option Json) :=
  match members.filter (·.1 == some name) with
  | [] => some none
  | [(_, value)] => some (some value)
  | _ => none

/-- The items of an array as the values of the fields in order. -/
def positional? : List Field → List Json → Option (List (Option Json))
  | [], [] => some []
  | [], _ :: _ => none
  | field :: fields, [] => if field.hasDefault then (positional? fields []).map (none :: ·) else none
  | _ :: fields, item :: items => (positional? fields items).map (some item :: ·)

/-- The value of each field of a record, where it is given. -/
def fields? (fields : List Field) : Json → Option (List (Option Json))
  | .object members =>
    if members.all (·.1.isSome) then fields.mapM fun field => member? members field.name else none
  | .array items => positional? fields items
  | _ => none

/-- The value of a field that has to be there. -/
def required {α : Type} [JsonCodec α] (value : Option Json) : Option α :=
  value.bind decode?

/-- The value of an optional field. -/
def nullable {α : Type} [JsonCodec α] (value : Option Json) : Option (Option α) :=
  (value.map decode?).getD (some none)

/-- The value of a field that has a default. -/
def withDefault {α : Type} [JsonCodec α] (default_ : α) (value : Option Json) : Option α :=
  (value.map decode?).getD (some default_)

/-- A member that is always written. -/
def member {α : Type} [JsonCodec α] (name : String) (value : α) : List (Option String × Json) :=
  [(some name, encode value)]

/-- A member that is written only if there is a value. -/
def memberIfSome {α : Type} [JsonCodec α] (name : String) :
    Option α → List (Option String × Json)
  | some value => member name value
  | none => []

/-- A member that is written only if the list has an item. -/
def memberIfAny {α : Type} [JsonCodec α] (name : String) (items : List α) :
    List (Option String × Json) :=
  if items.isEmpty then [] else member name items

end Json

/-- The value that a text holds. -/
def readJson? {α : Type} [JsonCodec α] (text : String) : Option α :=
  (Json.read? text).bind decode?

/-- The text of a value. -/
def writeJson {α : Type} [JsonCodec α] (value : α) : String :=
  (encode value).write

end FailureTriage
