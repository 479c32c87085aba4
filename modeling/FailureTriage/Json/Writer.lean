import FailureTriage.Json.Basic

/-!
# Writing JSON

Documents are written over several lines, two spaces to a level, with an empty array or object on
one line.  Characters beyond ASCII stand for themselves.
-/

namespace FailureTriage.Json

/-- The lower-case hexadecimal digit of a number below sixteen. -/
def hexChar (n : Nat) : Char :=
  if n < 10 then Char.ofNat ('0'.toNat + n) else Char.ofNat ('a'.toNat + (n - 10))

/-- How a character is written inside a string. -/
def escapeChar (c : Char) : List Char :=
  if c = '"' then ['\\', '"']
  else if c = '\\' then ['\\', '\\']
  else if c = '\n' then ['\\', 'n']
  else if c = '\r' then ['\\', 'r']
  else if c = '\t' then ['\\', 't']
  else if c = '\x08' then ['\\', 'b']
  else if c = '\x0C' then ['\\', 'f']
  else if c.toNat < 0x20 then
    ['\\', 'u', '0', '0', hexChar (c.toNat / 16), hexChar (c.toNat % 16)]
  else [c]

/-- A string in quotes. -/
def quote (s : String) : List Char :=
  '"' :: (s.toList.flatMap escapeChar ++ ['"'])

/-- The text of a number; one without digits has none but that of `null`. -/
def numberText : Numeral → List Char
  | .whole negative value => signText negative ++ Text.natDigits value
  | .scaled d => d.scientific
  | .infinite _ => ['n', 'u', 'l', 'l']
  | .undefined => ['n', 'u', 'l', 'l']

/-- A new line, indented. -/
def newLine (level : Nat) : List Char :=
  '\n' :: List.replicate (2 * level) ' '

mutual

/-- A value over several lines, its inner lines one level deeper than `level`. -/
def layout (level : Nat) : Json → List Char
  | .null => ['n', 'u', 'l', 'l']
  | .bool true => ['t', 'r', 'u', 'e']
  | .bool false => ['f', 'a', 'l', 's', 'e']
  | .number n => numberText n
  | .string text => quote (text.getD "")
  | .array [] => ['[', ']']
  | .array (item :: items) =>
    '[' :: newLine (level + 1) ++ layout (level + 1) item ++ layoutItems (level + 1) items
      ++ newLine level ++ [']']
  | .object [] => ['{', '}']
  | .object ((key, value) :: members) =>
    '{' :: newLine (level + 1) ++ quote (key.getD "") ++ ':' :: ' ' :: layout (level + 1) value
      ++ layoutMembers (level + 1) members ++ newLine level ++ ['}']

/-- The further items of an array. -/
def layoutItems (level : Nat) : List Json → List Char
  | [] => []
  | item :: items => ',' :: newLine level ++ layout level item ++ layoutItems level items

/-- The further members of an object. -/
def layoutMembers (level : Nat) : List (Option String × Json) → List Char
  | [] => []
  | (key, value) :: members =>
    ',' :: newLine level ++ quote (key.getD "") ++ ':' :: ' ' :: layout level value
      ++ layoutMembers level members

end

/-- The text of a document. -/
def write (value : Json) : String :=
  String.ofList (layout 0 value)

end FailureTriage.Json
