import FailureTriage.Pattern.Basic

/-!
# Globs

Patterns for paths, as ignore files have them.  `?` and `*` stop at a separator, `**` stands for
any number of directories, `[…]` is a class, `{…}` holds alternatives, and a backslash takes
the next character for itself.

Paths are matched byte by byte, so `?` stands for one byte and a class holds the bytes of its
characters.
-/

namespace FailureTriage

/-- A part of a glob. -/
inductive GlobPart where
  /-- A character that stands for itself. -/
  | literal (c : Char)
  /-- `?` -/
  | anyOne
  /-- `*` -/
  | anyRun
  /-- `**` at the start: any number of directories, each with its separator. -/
  | deepStart
  /-- `**` at the end: everything in a directory. -/
  | deepEnd
  /-- `**` in the middle: a separator, or directories between separators. -/
  | deepMiddle
  /-- A class of characters, given by ranges. -/
  | oneOf (negated : Bool) (ranges : List (Char × Char))
  /-- Alternatives. -/
  | alternatives (branches : List (List GlobPart))

namespace Glob

/-- What follows the bracket that opens a class. -/
private inductive ClassRead where
  | closed (ranges : List (Char × Char)) (rest : List Char)
  | unclosed
  /-- A range ends before it starts. -/
  | backwards

/--
Reads the ranges of a class, the last one first.  `first` is set before the first character,
`open_` after a dash that may join the last range to the next character.
-/
private def readRanges (first open_ : Bool) (ranges : List (Char × Char)) :
    List Char → ClassRead
  | [] => .unclosed
  | c :: rest =>
    if c = ']' && !first then
      .closed ((if open_ then ('-', '-') :: ranges else ranges).reverse) rest
    else if c = '-' && !first && !open_ then readRanges false true ranges rest
    else if open_ then
      match ranges with
      | (low, _) :: others =>
        if c < low then .backwards else readRanges false false ((low, c) :: others) rest
      | [] => .backwards
    else readRanges false false ((c, c) :: ranges) rest

/-- Reads a class after its opening bracket. -/
private def readClass : List Char → Bool × ClassRead
  | '!' :: rest => (true, readRanges true false [] rest)
  | '^' :: rest => (true, readRanges true false [] rest)
  | rest => (false, readRanges true false [] rest)

/-- What is known while a glob is read. -/
private structure Reader where
  /-- The parts of the current branch, the last one first. -/
  parts : List GlobPart := []
  /-- The branches that are waiting, the innermost group of alternatives first. -/
  groups : List (List GlobPart × List (List GlobPart)) := []
  /-- The last character. -/
  previous : Option Char := none
  /-- Whether an opening bracket stands for itself, as one before it has no end. -/
  plainBrackets : Bool := false

namespace Reader

/-- One more part. -/
private def push (r : Reader) (part : GlobPart) (last : Char) : Reader :=
  { r with parts := part :: r.parts, previous := some last }

/-- Opens a group of alternatives. -/
private def openGroup (r : Reader) : Reader :=
  { r with parts := [], groups := (r.parts, []) :: r.groups, previous := some '\x7b' }

/-- Starts the next alternative; outside a group a comma stands for itself. -/
private def comma (r : Reader) : Reader :=
  match r.groups with
  | [] => r.push (.literal ',') ','
  | (before, branches) :: outer =>
    { r with
      parts := [], groups := (before, r.parts.reverse :: branches) :: outer
      previous := some ',' }

/-- Closes a group of alternatives, if one is open. -/
private def closeGroup? (r : Reader) : Option Reader :=
  match r.groups with
  | [] => none
  | (before, branches) :: outer =>
    some { r with
      parts := .alternatives (r.parts.reverse :: branches).reverse :: before
      groups := outer, previous := some '\x7d' }

/-- Whether `**` may stand for directories here, as far as what is before it goes. -/
private def deepAllowed (r : Reader) : Bool :=
  r.previous = some '/'
    || (!r.groups.isEmpty && (r.previous = some ',' || r.previous = some '\x7b'))

/-- The part that `**` stands for takes the place of the last part, unless that says as much. -/
private def deepen (r : Reader) (part : GlobPart) (last : Char) : Reader :=
  match r.parts with
  | .deepStart :: _ => { r with previous := some last }
  | .deepEnd :: _ => { r with previous := some last }
  | _ :: before => { r with parts := part :: before, previous := some last }
  | [] => { r with parts := [part], previous := some last }

/-- Two stars that stand for themselves. -/
private def twoRuns (r : Reader) : Reader :=
  (r.push .anyRun '*').push .anyRun '*'

/-- Reads `**`; the result has the characters that are left. -/
private def deep (r : Reader) (rest : List Char) : Reader × List Char :=
  if r.parts.isEmpty then
    match rest with
    | [] => (r.push .deepStart '*', [])
    | '/' :: rest => (r.push .deepStart '/', rest)
    | _ => (r.twoRuns, rest)
  else if !r.deepAllowed then (r.twoRuns, rest)
  else match rest with
    | [] => (r.deepen .deepEnd '*', [])
    | '/' :: rest => (r.deepen .deepMiddle '/', rest)
    | c :: _ =>
      if (c = ',' || c = '\x7d') && !r.groups.isEmpty then (r.deepen .deepEnd '*', rest)
      else (r.twoRuns, rest)

/-- Reads the characters of a glob; `fuel` is at least their number. -/
private def run : (fuel : Nat) → Reader → List Char → Option (List GlobPart)
  | _, r, [] => if r.groups.isEmpty then some r.parts.reverse else none
  | 0, _, _ => none
  | fuel + 1, r, c :: rest =>
    match c, rest with
    | '?', _ => run fuel (r.push .anyOne c) rest
    | '*', '*' :: rest =>
      let (r, rest) := r.deep rest
      run fuel r rest
    | '*', _ => run fuel (r.push .anyRun c) rest
    | '\x7b', _ => run fuel r.openGroup rest
    | '\x7d', _ =>
      match r.closeGroup? with
      | some r => run fuel r rest
      | none => none
    | ',', _ => run fuel r.comma rest
    | '\\', [] => none
    | '\\', escaped :: rest => run fuel (r.push (.literal escaped) escaped) rest
    | '[', _ =>
      if r.plainBrackets then run fuel (r.push (.literal c) c) rest
      else match readClass rest with
        | (negated, .closed ranges rest) => run fuel (r.push (.oneOf negated ranges) ']') rest
        | (_, .unclosed) => run fuel { r.push (.literal c) c with plainBrackets := true } rest
        | (_, .backwards) => none
    | _, _ => run fuel (r.push (.literal c) c) rest

end Reader

/-- The parts of a glob; none if an escape or a group has no end. -/
def parse? (glob : List Char) : Option (List GlobPart) :=
  Reader.run glob.length {} glob

/-- The bytes of a text, each as the character with its number. -/
def bytesOf (text : String) : List Char :=
  text.toUTF8.toList.map fun b => Char.ofNat b.toNat

/-- The bytes of a character. -/
private def bytesOfChar (c : Char) : List Char :=
  bytesOf (String.ofList [c])

/-- The bytes that stand for a range in a class, as ranges of bytes. -/
private def rangeBytes (range : Char × Char) : List (Char × Char) :=
  if range.1 = range.2 then (bytesOfChar range.1).map fun b => (b, b)
  else match (bytesOfChar range.1).reverse, bytesOfChar range.2 with
    | low :: lowStart, high :: highEnd =>
      (lowStart.map fun b => (b, b)) ++ (low, high) :: highEnd.map fun b => (b, b)
    | _, _ => []

/-- Whether a byte is in one of the ranges. -/
private def inRanges (ranges : List (Char × Char)) (b : Char) : Bool :=
  ranges.any fun (low, high) => low ≤ b && b ≤ high

/-- Any byte. -/
private def anyByte : Char → Bool :=
  fun _ => true

/-- Any byte but a separator. -/
private def inName (b : Char) : Bool :=
  b != '/'

mutual

/-- Whether a part stands for nothing: it has no alternative that stands for something. -/
def isVoid : GlobPart → Bool
  | .alternatives branches => allVoid branches
  | _ => false

/-- Whether parts stand for nothing. -/
def areVoid : List GlobPart → Bool
  | [] => true
  | part :: parts => isVoid part && areVoid parts

/-- Whether every alternative stands for nothing. -/
def allVoid : List (List GlobPart) → Bool
  | [] => true
  | branch :: branches => areVoid branch && allVoid branches

end

mutual

/-- The pattern of bytes for a part of a glob. -/
def partPattern : GlobPart → Pattern
  | .literal c => Pattern.literal (bytesOfChar c)
  | .anyOne => .one inName
  | .anyRun => .run inName false
  | .deepStart =>
    .alt (Pattern.opt (Pattern.word "/")) (.seq (.run anyByte false) (Pattern.word "/"))
  | .deepEnd => .seq (Pattern.word "/") (.run anyByte false)
  | .deepMiddle =>
    .alt (Pattern.word "/")
      (.seq (Pattern.word "/") (.seq (.run anyByte false) (Pattern.word "/")))
  | .oneOf negated ranges =>
    let bytes := ranges.flatMap rangeBytes
    .one fun b => inRanges bytes b != negated
  | .alternatives branches =>
    if allVoid branches then .empty else Pattern.anyOf (branchPatterns branches)

/-- The pattern of bytes for parts of a glob, one after the other. -/
def partsPattern : List GlobPart → Pattern
  | [] => .empty
  | part :: parts => .seq (partPattern part) (partsPattern parts)

/-- The patterns of bytes for the alternatives of a glob that stand for something. -/
def branchPatterns : List (List GlobPart) → List Pattern
  | [] => []
  | branch :: branches =>
    if areVoid branch then branchPatterns branches
    else partsPattern branch :: branchPatterns branches

end

/-- The pattern of bytes for a whole glob. -/
def pattern : List GlobPart → Pattern
  | [.deepStart] => .run anyByte false
  | parts => partsPattern parts

end Glob

/-- Whether a pattern can match a text from its start to its end. -/
def Pattern.matchesWhole (p : Pattern) (text : List Char) : Bool :=
  (p.ends ⟨.start text, []⟩).any fun way => way.place.rest.isEmpty

end FailureTriage
