import FailureTriage.Json.Codec
import FailureTriage.Pattern.Search

/-!
# Failed assertions

The two values of a failed equality assertion, as its message names them.
-/

namespace FailureTriage

/-- The expected and the actual value of a failed equality assertion. -/
structure Assertion where
  expected : String
  actual : String
  deriving DecidableEq

namespace Assertion

/-- A character inside a line. -/
def inLine (c : Char) : Bool :=
  c != '\n'

open Pattern in
/-- The message `expected: <…> but was: <…>`, each value reaching as far as it can in its line. -/
def pattern : Pattern :=
  sequence [
    word "expected:", blanks, word "<", .group 1 (zeroOrMore inLine), word ">", blanks,
    word "but was:", blanks, word "<", .group 2 (zeroOrMore inLine), word ">"]

/-- The values that a failure message names. -/
def ofMessage? (message : String) : Option Assertion := do
  let m ← pattern.find? message.toList
  let expected ← m.group? 1
  let actual ← m.group? 2
  some ⟨String.ofList expected, String.ofList actual⟩

end Assertion

open Json in
instance : JsonCodec Assertion where
  encode a := .object (member "expected" a.expected ++ member "actual" a.actual)
  decode? json := do
    let [expected, actual] ← fields? [must "expected", must "actual"] json | none
    some { expected := ← required expected, actual := ← required actual }

end FailureTriage
