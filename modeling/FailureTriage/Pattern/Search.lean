import FailureTriage.Pattern.Basic

/-!
# Searching for a pattern

The matches of a pattern in a text: the leftmost place where it matches, and there the preferred
way.  Further matches are looked for after the end of the last one.
-/

namespace FailureTriage

/-- A match of a pattern in a text. -/
structure Match where
  /-- The part of the text that is matched. -/
  span : Span
  /-- The parts matched by the pattern's groups, the last one first. -/
  groups : List (Nat × Span)

/-- The text matched by a group that took part in the match. -/
def Match.group? (m : Match) (number : Nat) : Option (List Char) :=
  (m.groups.lookup number).map Span.text

namespace Pattern

/-- The preferred match that starts at a place. -/
def matchAt? (p : Pattern) (place : Place) : Option Match :=
  (p.ends ⟨place, []⟩).head?.map fun way => ⟨⟨place, way.place.index⟩, way.groups⟩

/-- The leftmost match from a place on. -/
def findFrom? (p : Pattern) (index : Nat) (before : Option Char) (rest : List Char) :
    Option Match :=
  match p.matchAt? ⟨index, before, rest⟩ with
  | some m => some m
  | none =>
    match rest with
    | [] => none
    | c :: tail => findFrom? p (index + 1) (some c) tail

/-- The leftmost match in a text. -/
def find? (p : Pattern) (text : List Char) : Option Match :=
  p.findFrom? 0 none text

/-- Whether the pattern matches somewhere in a text. -/
def occursIn (p : Pattern) (text : List Char) : Bool :=
  (p.find? text).isSome

/--
The successive matches from a place on, none of which starts before the index `resume`, after
those in `found`.
-/
def findAllFrom (p : Pattern) (index : Nat) (before : Option Char) (rest : List Char)
    (resume : Nat) (found : List Match) : List Match :=
  let hit := if index < resume then none else p.matchAt? ⟨index, before, rest⟩
  let found := hit.toList ++ found
  let resume := match hit with
    | some m => max m.span.stop (index + 1)
    | none => resume
  match rest with
  | [] => found.reverse
  | c :: tail => findAllFrom p (index + 1) (some c) tail resume found

/-- The successive matches in a text, which do not overlap. -/
def findAll (p : Pattern) (text : List Char) : List Match :=
  p.findAllFrom 0 none text 0 []

end Pattern

end FailureTriage
