import FailureTriage.Json.Codec
import FailureTriage.Pattern.Search
import FailureTriage.Text.Find
import FailureTriage.Text.Lines
import FailureTriage.Text.Lower

/-!
# Suspicious lines

Lines of a source text that could explain why a test which expected some number of items got none.
Every rule is a guess from the wording of one line, and several rules may flag the same line.

* `Suspicion.scan` goes through a text that a failed assertion points to.
* The suspicions stand in line order, and for each line in the order of `SuspicionKind`.
-/

namespace FailureTriage

/-- Why a line is suspicious. -/
inductive SuspicionKind where
  /-- A threshold that shuts out the expected count. -/
  | offByOne
  /-- A comparison of a size. -/
  | sizeCheck
  /-- A return of an empty collection. -/
  | emptyReturn
  deriving DecidableEq, Repr

namespace SuspicionKind

/-- The word for a kind. -/
def label : SuspicionKind → String
  | .offByOne => "off_by_one"
  | .sizeCheck => "size_check"
  | .emptyReturn => "empty_return"

/-- The kind that a word stands for. -/
def ofLabel? (word : String) : Option SuspicionKind :=
  if word = "off_by_one" then some .offByOne
  else if word = "size_check" then some .sizeCheck
  else if word = "empty_return" then some .emptyReturn
  else none

end SuspicionKind

/-- How likely a suspicion is to be right. -/
inductive Confidence where
  | low
  | medium
  | high
  deriving DecidableEq, Repr

namespace Confidence

/-- The word for a confidence. -/
def label : Confidence → String
  | .low => "low"
  | .medium => "medium"
  | .high => "high"

/-- The confidence that a word stands for. -/
def ofLabel? (word : String) : Option Confidence :=
  if word = "low" then some .low
  else if word = "medium" then some .medium
  else if word = "high" then some .high
  else none

/-- The place of a confidence in increasing order. -/
def rank : Confidence → Nat
  | .low => 0
  | .medium => 1
  | .high => 2

end Confidence

/-- A flagged line. -/
structure Suspicion where
  /-- The number of the line, counted from one. -/
  lineNumber : Nat
  /-- The line, trimmed. -/
  lineContent : String
  kind : SuspicionKind
  description : String
  suggestedFix : String
  confidence : Confidence
  deriving DecidableEq

namespace Suspicion

/-! ## The rules -/

open Pattern in
/-- A line that starts with a condition, after a closing brace or not. -/
def conditional : Pattern :=
  sequence [
    .textStart, opt (sequence [.one (· == '\x7d'), blanks]),
    anyOf [word "if", sequence [word "else", blanks1, word "if"], word "while"], .wordEdge]

open Pattern in
/-- A comparison of a count with a number. -/
def countComparison : Pattern :=
  sequence [
    anyCase "count", blanks,
    .group 1 (anyOf [word ">=", word "<=", word ">", word "<"]),
    blanks, .group 2 (oneOrMore Text.isDecimalDigit)]

/-- The comparison and the threshold of a match, if the threshold is not below `expected`. -/
def excluding? (expected : Nat) (m : Match) : Option (String × Nat) := do
  let comparison := String.ofList (← m.group? 1)
  let threshold ← Text.readNat? Text.maxWord64 (← m.group? 2)
  if (comparison = ">" ∨ comparison = ">=") ∧ expected ≤ threshold then
    some (comparison, threshold)
  else none

/-- The first comparison on the line with a threshold not below the expected count. -/
def excludingThreshold? (expected : Nat) (line : List Char) : Option (String × Nat) :=
  (countComparison.findAll line).findSome? (excluding? expected)

/-- Words for a size, in lower case. -/
def sizeTokens : List String :=
  ["size()", "length", "count", ".size", ".length()"]

/-- Expressions for an empty collection, in lower case. -/
def emptyIdioms : List String :=
  ["empty", "new arraylist()", "new arraylist<>()", "collections.emptylist()", "list.of()"]

/-- Whether one of the texts occurs in the line. -/
def mentions (texts : List String) (line : List Char) : Bool :=
  texts.any fun text => Text.contains text.toList line

/-- The threshold on the line that shuts out the expected count, if the line is a condition. -/
def offByOne? (expected number : Nat) (line : List Char) : Option Suspicion :=
  if conditional.occursIn line && mentions ["count"] (Text.lower line) then
    (excludingThreshold? expected line).map fun (comparison, threshold) => {
      lineNumber := number
      lineContent := String.ofList line
      kind := .offByOne
      description := s!"Condition requires count {comparison} {threshold}, "
        ++ s!"but test expects {expected} items"
      suggestedFix := s!"Change to \"count > 0\" or \"count >= {expected}\""
      confidence := .high }
  else none

/-- The comparison of a size on the line. -/
def sizeCheck? (expected number : Nat) (line : List Char) : Option Suspicion :=
  if mentions sizeTokens (Text.lower line) && line.any (fun c => c == '>' || c == '<') then
    some {
      lineNumber := number
      lineContent := String.ofList line
      kind := .sizeCheck
      description := s!"Size check on line {number} might prevent returning "
        ++ s!"expected {expected} items"
      suggestedFix := "Review the size comparison logic"
      confidence := .medium }
  else none

/-- The return of an empty collection on the line. -/
def emptyReturn? (number : Nat) (line : List Char) : Option Suspicion :=
  let lower := Text.lower line
  if mentions ["return"] lower
      && (mentions emptyIdioms lower || mentions ["return [];"] line) then
    some {
      lineNumber := number
      lineContent := String.ofList line
      kind := .emptyReturn
      description :=
        "Empty return statement might be executed when data should be returned"
      suggestedFix := "Check if this return should be conditional"
      confidence := .medium }
  else none

/-- The suspicions about one line. -/
def ofLine (expected number : Nat) (raw : List Char) : List Suspicion :=
  let line := Text.trim raw
  (offByOne? expected number line).toList ++ (sizeCheck? expected number line).toList
    ++ (emptyReturn? number line).toList

/-- The expected number of items, if it is positive and there were none. -/
def missingCount? (expected actual : String) : Option Nat :=
  if Text.trim actual.toList = ['0'] then
    (Text.readNat? Text.maxWord64 (Text.trim expected.toList)).filter (0 < ·)
  else none

/-- The suspicious lines of a source text, given the two values of the failed assertion. -/
def scan (source expected actual : String) : List Suspicion :=
  match missingCount? expected actual with
  | none => []
  | some count =>
    (Text.lines source.toList).zipIdx.flatMap fun (line, index) => ofLine count (index + 1) line

end Suspicion

instance : JsonCodec SuspicionKind where
  encode kind := .text kind.label
  decode? json := json.asLabel?.bind SuspicionKind.ofLabel?

instance : JsonCodec Confidence where
  encode confidence := .text confidence.label
  decode? json := json.asLabel?.bind Confidence.ofLabel?

open Json in
instance : JsonCodec Suspicion where
  encode s := .object (
    member "line_number" s.lineNumber ++ member "line_content" s.lineContent ++
    member "kind" s.kind ++ member "description" s.description ++
    member "suggested_fix" s.suggestedFix ++ member "confidence" s.confidence)
  decode? json := do
    let [lineNumber, lineContent, kind, description, suggestedFix, confidence] ← fields? [
        must "line_number", must "line_content", must "kind", must "description",
        must "suggested_fix", must "confidence"] json
      | none
    some {
      lineNumber := ← required lineNumber
      lineContent := ← required lineContent
      kind := ← required kind
      description := ← required description
      suggestedFix := ← required suggestedFix
      confidence := ← required confidence }

end FailureTriage
