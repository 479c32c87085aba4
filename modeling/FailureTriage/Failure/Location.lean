import FailureTriage.Json.Codec
import FailureTriage.Pattern.Search
import FailureTriage.Text.Lines

/-!
# Failure locations

The first place in a stack trace that names a source file and a line.
-/

namespace FailureTriage

/-- A place in a source file, with the line of the stack trace that names it. -/
structure FailureLocation where
  /-- The file name as the stack trace prints it. -/
  file : String
  /-- The number of the line in that file. -/
  line : UInt32
  /-- The line of the stack trace, trimmed. -/
  stackLine : String
  deriving DecidableEq

namespace FailureLocation

/-- A character of a file name in a stack trace. -/
def inFileName (c : Char) : Bool :=
  !(c == '(' || c == ')' || c == ':' || Text.isBlank c)

open Pattern in
/-- A file name and a line number in parentheses. -/
def pattern : Pattern :=
  sequence [
    word "(", .group 1 (oneOrMore inFileName), word ":",
    .group 2 (oneOrMore Text.isDecimalDigit), word ")"]

/-- The location that one line of a stack trace names first, if its number is one. -/
def ofLine? (line : List Char) : Option FailureLocation := do
  let m ← pattern.find? line
  let file ← m.group? 1
  let number ← Text.readNat? Text.maxWord32 (← m.group? 2)
  some ⟨String.ofList file, UInt32.ofNat number, String.ofList (Text.trim line)⟩

/-- The location that the first line with one names. -/
def ofStackTrace? (stackTrace : String) : Option FailureLocation :=
  (Text.lines stackTrace.toList).findSome? ofLine?

end FailureLocation

open Json in
instance : JsonCodec FailureLocation where
  encode l := .object
    (member "file" l.file ++ member "line" l.line ++ member "stack_line" l.stackLine)
  decode? json := do
    let [file, line, stackLine] ← fields? [must "file", must "line", must "stack_line"] json
      | none
    some { file := ← required file, line := ← required line, stackLine := ← required stackLine }

end FailureTriage
