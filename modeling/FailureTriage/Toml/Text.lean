import FailureTriage.Json.Reader

/-!
# Strings and keys of TOML

Strings in double quotes have escapes, strings in single quotes have none; three quotes at each
end make a string that may hold line ends, of which the first does not count if nothing stands
before it.  Every line end in a string is a line feed in its value.
-/

namespace FailureTriage.Toml

/-- The blanks inside a line. -/
def isBlank (c : Char) : Bool :=
  c == ' ' || c == '\t'

/-- The text after its blanks. -/
def skipBlanks (text : List Char) : List Char :=
  text.dropWhile isBlank

/-- The text after a line end at its start. -/
def newline? : List Char → Option (List Char)
  | '\n' :: rest => some rest
  | '\r' :: '\n' :: rest => some rest
  | _ => none

/-- A character that may stand in a comment or a string: a tab, or no control character. -/
def isPrintable (c : Char) : Bool :=
  c == '\t' || (0x20 ≤ c.toNat && c.toNat ≠ 0x7F)

/-- The text after the blanks, the line ends and the comments at its start. -/
def skipLines (fuel : Nat) (text : List Char) : List Char :=
  match fuel with
  | 0 => text
  | fuel + 1 =>
    match skipBlanks text with
    | '#' :: rest => skipLines fuel (rest.dropWhile isPrintable)
    | rest =>
      match newline? rest with
      | some rest => skipLines fuel rest
      | none => rest

/-- The character that a number of the given hexadecimal digits stands for. -/
private def codePoint? (digits : List Char) : Option Char := do
  let code ← Json.hexValue? digits
  if code < 0xD800 || (0xDFFF < code && code < 0x110000) then some (Char.ofNat code) else none

/-- The character of an escape, after its backslash, and the text after it. -/
private def escape? : List Char → Option (Char × List Char)
  | 'u' :: rest =>
    if rest.length < 4 then none
    else (codePoint? (rest.take 4)).map fun c => (c, rest.drop 4)
  | 'U' :: rest =>
    if rest.length < 8 then none
    else (codePoint? (rest.take 8)).map fun c => (c, rest.drop 8)
  | 'b' :: rest => some ('\x08', rest)
  | 't' :: rest => some ('\t', rest)
  | 'n' :: rest => some ('\n', rest)
  | 'f' :: rest => some ('\x0C', rest)
  | 'r' :: rest => some ('\r', rest)
  | '"' :: rest => some ('"', rest)
  | '\\' :: rest => some ('\\', rest)
  | _ => none

/-- The rest of a string in one line, after its opening quote. -/
private def oneLine (quote : Char) : (fuel : Nat) → List Char → List Char →
    Option (String × List Char)
  | 0, _, _ => none
  | _, [], _ => none
  | fuel + 1, c :: rest, found =>
    if c = quote then some (String.ofList found.reverse, rest)
    else if c = '\\' && quote = '"' then
      match escape? rest with
      | some (c, rest) => oneLine quote fuel rest (c :: found)
      | none => none
    else if isPrintable c then oneLine quote fuel rest (c :: found)
    else none

/-- The text after its blanks and line ends. -/
private def skipBlankLines (fuel : Nat) (text : List Char) : List Char :=
  match fuel with
  | 0 => text
  | fuel + 1 =>
    match newline? (skipBlanks text) with
    | some rest => skipBlankLines fuel rest
    | none => skipBlanks text

/-- The text after the blanks and line ends that follow a backslash at the end of a line. -/
private def continued? (text : List Char) : Option (List Char) :=
  (newline? (skipBlanks text)).map fun rest => skipBlankLines (rest.length + 1) rest

/-- The rest of a string over several lines, after its opening quotes. -/
private def manyLines (quote : Char) : (fuel : Nat) → List Char → List Char →
    Option (String × List Char)
  | 0, _, _ => none
  | _, [], _ => none
  | fuel + 1, c :: rest, found =>
    if c = quote then
      let quotes := (c :: rest).takeWhile (· == quote)
      if quotes.length < 3 then manyLines quote fuel rest (c :: found)
      else if quotes.length ≤ 5 then
        some (String.ofList (found.reverse ++ quotes.drop 3), (c :: rest).drop quotes.length)
      else none
    else if c = '\\' && quote = '"' then
      match escape? rest, continued? rest with
      | some (c, rest), _ => manyLines quote fuel rest (c :: found)
      | none, some rest => manyLines quote fuel rest found
      | none, none => none
    else match newline? (c :: rest) with
      | some rest => manyLines quote fuel rest ('\n' :: found)
      | none => if isPrintable c then manyLines quote fuel rest (c :: found) else none

/-- The string at the start of a text, and the text after it. -/
def string? (text : List Char) : Option (String × List Char) :=
  match text with
  | a :: b :: c :: rest =>
    if a ≠ '"' && a ≠ '\'' then none
    else if a = b && b = c then
      manyLines a (rest.length + 1) ((newline? rest).getD rest) []
    else oneLine a text.length (b :: c :: rest) []
  | a :: rest => if a = '"' || a = '\'' then oneLine a text.length rest [] else none
  | [] => none

/-- A character of a key without quotes. -/
private def inBareKey (c : Char) : Bool :=
  c.isAlphanum || c == '_' || c == '-'

/-- One part of a key, and the text after it. -/
private def keyPart? (text : List Char) : Option (String × List Char) :=
  match text with
  | quote :: rest =>
    if quote = '"' || quote = '\'' then oneLine quote text.length rest []
    else
      let bare := text.takeWhile inBareKey
      if bare.isEmpty then none else some (String.ofList bare, text.drop bare.length)
  | [] => none

/-- The parts of a dotted key from the next part on, after those in `found`. -/
private def keyFrom? : (fuel : Nat) → List Char → List String →
    Option (List String × List Char)
  | 0, _, _ => none
  | fuel + 1, text, found =>
    match keyPart? (skipBlanks text) with
    | none => none
    | some (part, rest) =>
      match skipBlanks rest with
      | '.' :: rest => keyFrom? fuel rest (part :: found)
      | rest => some ((part :: found).reverse, rest)

/-- The largest depth of nesting, and the largest number of parts of a key. -/
def depthLimit : Nat := 79

/-- The key at the start of a text, and the text after it and its blanks. -/
def key? (text : List Char) : Option (List String × List Char) :=
  keyFrom? depthLimit text []

end FailureTriage.Toml
