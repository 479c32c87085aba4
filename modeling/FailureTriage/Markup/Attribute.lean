import FailureTriage.Markup.Escape

/-!
# Attributes

The attributes of a tag, from the text after its name: a key, an equals sign and a quoted value
each.  The first character of a key may be any but a blank; blanks between attributes may be
missing.
-/

namespace FailureTriage.Markup

/-- The blanks of markup. -/
def isBlank (c : Char) : Bool :=
  c == ' ' || c == '\t' || c == '\r' || c == '\n'

/-- The attributes of a tag, in document order. -/
abbrev Attributes := List (String × String)

/-- Where the reading of an attribute stands; the texts are in reverse order. -/
inductive AttributeState where
  /-- Before a key. -/
  | between
  /-- In a key. -/
  | key (text : List Char)
  /-- After a key and a blank. -/
  | afterKey (key : List Char)
  /-- After the equals sign. -/
  | beforeValue (key : List Char)
  /-- In a value with a quotation mark at both ends. -/
  | value (key : List Char) (mark : Char) (text : List Char)

/-- The attributes from a state on, after those in `found`. -/
def readAttributes (text : List Char) (state : AttributeState) (found : Attributes) :
    Option Attributes :=
  match text, state with
  | [], .between => some found.reverse
  | [], _ => none
  | c :: rest, .between =>
    if isBlank c then readAttributes rest .between found
    else readAttributes rest (.key [c]) found
  | c :: rest, .key key =>
    if c = '=' then readAttributes rest (.beforeValue key) found
    else if isBlank c then readAttributes rest (.afterKey key) found
    else readAttributes rest (.key (c :: key)) found
  | c :: rest, .afterKey key =>
    if c = '=' then readAttributes rest (.beforeValue key) found
    else if isBlank c then readAttributes rest (.afterKey key) found
    else none
  | c :: rest, .beforeValue key =>
    if isBlank c then readAttributes rest (.beforeValue key) found
    else if c = '"' || c = '\'' then readAttributes rest (.value key c []) found
    else none
  | c :: rest, .value key mark value =>
    if c = mark then
      match unescape? value.reverse with
      | some plain =>
        readAttributes rest .between
          ((String.ofList key.reverse, String.ofList plain) :: found)
      | none => none
    else readAttributes rest (.value key mark (c :: value)) found

/-- The attributes written in a tag after its name. -/
def attributes? (text : List Char) : Option Attributes :=
  readAttributes text .between []

namespace Attributes

/-- The value of a key; a later attribute replaces an earlier one. -/
def get? (attributes : Attributes) (key : String) : Option String :=
  attributes.reverse.lookup key

/-- The value of a key, or a text in its place. -/
def getD (attributes : Attributes) (key standard : String) : String :=
  (attributes.get? key).getD standard

end Attributes

end FailureTriage.Markup
