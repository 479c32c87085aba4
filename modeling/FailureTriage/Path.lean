import FailureTriage.Json.Codec
import FailureTriage.Text.Find

/-!
# Paths

A path keeps the spelling it was given, and means the sequence of its components: repeated
separators, separators at the end and a `.` anywhere but at the start mean nothing.  Paths are
equal, and are ordered, by their components.
-/

namespace FailureTriage

/-- A path as it is spelled. -/
structure Path where
  text : String
  deriving DecidableEq, Repr

/-- A component of a path. -/
inductive PathComponent where
  /-- The root directory, with which an absolute path starts. -/
  | root
  /-- The current directory, with which a path may start. -/
  | here
  /-- The parent directory. -/
  | up
  /-- The entry of a name. -/
  | name (text : String)
  deriving DecidableEq, Repr

namespace PathComponent

/-- The place of a component's sort: names come last. -/
def rank : PathComponent → Nat
  | .root => 0
  | .here => 1
  | .up => 2
  | .name _ => 3

/-- The order of components: by their sort, and names by their characters. -/
def before (a b : PathComponent) : Bool :=
  match a, b with
  | .name s, .name t => s < t
  | _, _ => a.rank < b.rank

end PathComponent

namespace Path

instance : Inhabited Path := ⟨⟨""⟩⟩

/-- What a piece between separators means, if it stands at a place in the list of pieces. -/
def component? (place : Nat) (piece : List Char) : Option PathComponent :=
  if piece = [] then none
  else if piece = ['.'] then (if place = 0 then some .here else none)
  else if piece = ['.', '.'] then some .up
  else some (.name (String.ofList piece))

/-- The pieces between separators that are components, each with its place. -/
def located (path : Path) : List (Nat × PathComponent) :=
  let pieces := Text.splitOn '/' path.text.toList
  let root := match pieces with
    | [] :: _ :: _ => [(0, PathComponent.root)]
    | _ => []
  root ++ pieces.zipIdx.filterMap fun (piece, place) =>
    (component? place piece).map fun c => (place, c)

/-- The components of a path. -/
def components (path : Path) : List PathComponent :=
  path.located.map (·.2)

/-- Whether two paths have the same components. -/
def same (a b : Path) : Bool :=
  a.components == b.components

/-- The order of component sequences, component by component. -/
def sequenceBefore : List PathComponent → List PathComponent → Bool
  | [], [] => false
  | [], _ :: _ => true
  | _ :: _, [] => false
  | a :: as, b :: bs => a.before b || (a == b && sequenceBefore as bs)

/-- Whether a path does not come after another. -/
def atMost (a b : Path) : Bool :=
  !sequenceBefore b.components a.components

/-- Whether a path starts at the root directory. -/
def isAbsolute (path : Path) : Bool :=
  path.text.toList.head? == some '/'

/-- Whether a path has no characters. -/
def isEmpty (path : Path) : Bool :=
  path.text.isEmpty

/-- The path `second` seen from `first`. -/
def join (first second : Path) : Path :=
  if second.isAbsolute || first.isEmpty then second
  else if first.text.toList.getLast? == some '/' then ⟨first.text ++ second.text⟩
  else ⟨first.text ++ "/" ++ second.text⟩

/-- The path without its last component; none for the root and for the empty path. -/
def parent? (path : Path) : Option Path :=
  match path.located.reverse with
  | [] => none
  | (_, .root) :: _ => none
  | _ :: [] => some ⟨""⟩
  | _ :: (_, .root) :: _ => some ⟨"/"⟩
  | _ :: (place, _) :: _ =>
    let pieces := (Text.splitOn '/' path.text.toList).take (place + 1)
    some ⟨"/".intercalate (pieces.map String.ofList)⟩

/-- The last component, if it is a name. -/
def fileName? (path : Path) : Option String :=
  match path.components.getLast? with
  | some (.name text) => some text
  | _ => none

/-- The part of the file name after its last dot, if something stands before that dot. -/
def extension? (path : Path) : Option String := do
  let name := (← path.fileName?).toList
  let before ← Text.beforeLast? '.' name
  if before = [] then none else some (String.ofList (Text.afterLast '.' name))

/-- The path with another file name. -/
def withFileName (path : Path) (name : String) : Path :=
  match path.fileName?, path.parent? with
  | some _, some parent => parent.join ⟨name⟩
  | _, _ => path.join ⟨name⟩

end Path

instance : JsonCodec Path where
  encode path := .text path.text
  decode? json := json.asString?.map Path.mk

end FailureTriage
