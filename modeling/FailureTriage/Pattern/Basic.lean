import FailureTriage.Text.Blank
import FailureTriage.Text.Word

/-!
# Patterns

Patterns of text, and the ways a pattern can match from a given place on.

Where a pattern can match in several ways, the ways are ordered: of two alternatives the first is
preferred, and a repetition prefers more over fewer, unless it is lazy.  `Pattern.ends` lists all
ways in order of preference.
-/

namespace FailureTriage

/-- A place in a text. -/
structure Place where
  /-- How many characters stand before the place. -/
  index : Nat
  /-- The last of them. -/
  before : Option Char
  /-- The characters from the place on. -/
  rest : List Char

/-- The place before the first character of a text. -/
def Place.start (text : List Char) : Place := ⟨0, none, text⟩

/-- A part of a text: the place where it starts and the number of characters before its end. -/
structure Span where
  start : Place
  stop : Nat

/-- The characters of a part of a text. -/
def Span.text (span : Span) : List Char :=
  span.start.rest.take (span.stop - span.start.index)

/-- A way to match a pattern: where it ends, and the parts matched by groups, the last one first. -/
structure Way where
  place : Place
  groups : List (Nat × Span)

/-- A pattern of text. -/
inductive Pattern where
  /-- The empty text. -/
  | empty
  /-- One character of a class. -/
  | one (accept : Char → Bool)
  /-- Any number of characters of a class, as many as possible or as few as possible. -/
  | run (accept : Char → Bool) (lazily : Bool)
  /-- One pattern after the other. -/
  | seq (first second : Pattern)
  /-- One of two patterns, preferably the first. -/
  | alt (first second : Pattern)
  /-- Any number of repetitions of a pattern, as many as possible. -/
  | many (body : Pattern)
  /-- A pattern whose match is kept under a number. -/
  | group (number : Nat) (body : Pattern)
  /-- The start of the text. -/
  | textStart
  /-- The start of a line. -/
  | lineStart
  /-- The start or the end of a word. -/
  | wordEdge

namespace Pattern

/-- The places after zero, one, two … characters of a class, the farthest first, before `found`. -/
def runPlaces (accept : Char → Bool) (index : Nat) (before : Option Char) (rest : List Char)
    (found : List Place) : List Place :=
  match rest with
  | [] => ⟨index, before, []⟩ :: found
  | c :: tail =>
    if accept c then runPlaces accept (index + 1) (some c) tail (⟨index, before, rest⟩ :: found)
    else ⟨index, before, rest⟩ :: found

/-- The ways to repeat a step, more repetitions first; `fuel` has an item for each repetition. -/
def repeatWays (step : Way → List Way) : (fuel : List Char) → Way → List Way
  | [], way => [way]
  | _ :: fuel, way => (step way).flatMap (repeatWays step fuel) ++ [way]

/-- Whether an optional character is part of a word. -/
private def isWordAt : Option Char → Bool
  | some c => Text.isWord c
  | none => false

/-- All ways to go on from a way by matching a pattern, in order of preference. -/
def ends : Pattern → Way → List Way
  | .empty, way => [way]
  | .one accept, way =>
    match way.place.rest with
    | c :: rest => if accept c then [⟨⟨way.place.index + 1, some c, rest⟩, way.groups⟩] else []
    | [] => []
  | .run accept lazily, way =>
    let places := runPlaces accept way.place.index way.place.before way.place.rest []
    (if lazily then places.reverse else places).map fun place => ⟨place, way.groups⟩
  | .seq first second, way => (first.ends way).flatMap second.ends
  | .alt first second, way => first.ends way ++ second.ends way
  | .many body, way => repeatWays body.ends way.place.rest way
  | .group number body, way =>
    (body.ends way).map fun after =>
      ⟨after.place, (number, ⟨way.place, after.place.index⟩) :: after.groups⟩
  | .textStart, way => if way.place.before.isNone then [way] else []
  | .lineStart, way =>
    if way.place.before.isNone || way.place.before == some '\n' then [way] else []
  | .wordEdge, way =>
    if isWordAt way.place.before != isWordAt way.place.rest.head? then [way] else []

/-! ## Building patterns -/

/-- One pattern after the other, for any number of patterns. -/
def sequence : List Pattern → Pattern
  | [] => .empty
  | [p] => p
  | p :: ps => .seq p (sequence ps)

/-- The first of the patterns that matches; at least one is given. -/
def anyOf : List Pattern → Pattern
  | [] => .one fun _ => false
  | [p] => p
  | p :: ps => .alt p (anyOf ps)

/-- The pattern or nothing, preferably the pattern. -/
def opt (p : Pattern) : Pattern :=
  .alt p .empty

/-- At least one character of a class, as many as possible. -/
def oneOrMore (accept : Char → Bool) : Pattern :=
  .seq (.one accept) (.run accept false)

/-- Any number of characters of a class, as many as possible. -/
def zeroOrMore (accept : Char → Bool) : Pattern :=
  .run accept false

/-- A fixed text. -/
def literal (text : List Char) : Pattern :=
  sequence (text.map fun c => .one (· == c))

/-- A fixed text. -/
def word (text : String) : Pattern :=
  literal text.toList

/--
Whether a character is an ASCII letter in some case.  The Kelvin sign and the long s are the
characters beyond ASCII that differ from an ASCII letter only in case.
-/
def sameLetter (letter c : Char) : Bool :=
  c.toLower == letter.toLower || (letter.toLower == 'k' && c == '\u212A')
    || (letter.toLower == 's' && c == '\u017F')

/-- A fixed ASCII text in any case. -/
def anyCase (text : String) : Pattern :=
  sequence (text.toList.map fun letter => .one (sameLetter letter))

/-- Any blanks. -/
def blanks : Pattern :=
  zeroOrMore Text.isBlank

/-- At least one blank. -/
def blanks1 : Pattern :=
  oneOrMore Text.isBlank

end Pattern

end FailureTriage
