import FailureTriage.Files.Fault
import FailureTriage.Path
import FailureTriage.Text.Utf8

/-!
# File trees

The files, directories and links that a run sees, and what a path leads to.

An entry lies at a location: the names on the way from the top directory.  A path is a list of
steps, taken from the working directory or from the top; a step into a link goes on with the
steps of the link's target.

* `FileTree.reach` takes the steps of a path.
* `FileTree.isFile`, `FileTree.readText`, `FileTree.list` and the like ask for what a path leads to.
-/

namespace FailureTriage

/-- The names on the way from the top directory to an entry. -/
abbrev Location := List String

/-- What lies at a location. -/
inductive FileEntry where
  | file (content : ByteArray)
  /-- A link, with the path that it leads to. -/
  | link (target : Path)
  | directory

/-- Whether an entry is a directory. -/
def FileEntry.isDirectory : FileEntry → Bool
  | .directory => true
  | _ => false

/-- The files that a run sees. -/
structure FileTree where
  /-- Every entry but the top directory, with its location. -/
  entries : List (Location × FileEntry) := []
  /-- The directory that relative paths start from. -/
  workingDir : Location := []

/-- A step on the way that a path leads. -/
inductive PathStep where
  /-- Stay in the directory. -/
  | stay
  /-- Stay in the directory at the end of the path: a separator is there. -/
  | inside
  /-- Go to the directory that holds this one. -/
  | up
  /-- Go to the entry of a name. -/
  | into (name : String)
  deriving DecidableEq

/-- What the last step of a path is for. -/
inductive Ending where
  /-- A link is an entry like any other. -/
  | link
  /-- A link leads to its target. -/
  | target
  /-- A link leads to its target, and a file is to be written there. -/
  | file
  deriving DecidableEq

/-- What a path leads to. -/
inductive Spot where
  /-- An entry and its location. -/
  | entry (place : Location) (entry : FileEntry)
  /-- A location in a directory where nothing is yet. -/
  | vacant (place : Location)

namespace FileTree

/-- The most bytes that a name may have. -/
def longestName : Nat := 255

/-- The most bytes that a path may have. -/
def longestPath : Nat := 4095

/-- The most links that are followed for one path. -/
def mostLinks : Nat := 40

/-- The entry at a location. -/
def entryAt? (tree : FileTree) (place : Location) : Option FileEntry :=
  if place = [] then some .directory else tree.entries.lookup place

/-- The step that a piece of a path stands for. -/
def stepOf? (piece : List Char) : Option PathStep :=
  if piece = [] then none
  else if piece = ['.'] then some .stay
  else if piece = ['.', '.'] then some .up
  else some (.into (String.ofList piece))

/--
The steps of a path.  A separator at the end of a path is a step of its own: it stays in what has
to be a directory.
-/
def stepsOf (path : Path) : List PathStep :=
  let text := path.text.toList
  (Text.splitOn '/' text).filterMap stepOf? ++ if text.getLast? = some '/' then [.inside] else []

/-- Where the steps of a path start. -/
def startOf (path : Path) (dir : Location) : Location :=
  if path.isAbsolute then [] else dir

/--
Takes steps from a directory.  `onLink` says how to go on at a link, from its directory, its
target and the steps after it.  A name with a separator after it is no place for a file.
-/
def takeSteps (tree : FileTree) (ending : Ending)
    (onLink : Location → Path → List PathStep → Except FileFault Spot) :
    Location → List PathStep → Except FileFault Spot
  | dir, [] => .ok (.entry dir .directory)
  | dir, .stay :: rest => takeSteps tree ending onLink dir rest
  | dir, .inside :: rest => takeSteps tree ending onLink dir rest
  | dir, .up :: rest => takeSteps tree ending onLink dir.dropLast rest
  | dir, .into name :: rest =>
    if ending = .file && rest = [.inside] then .error .isDirectory
    else if name.utf8ByteSize > longestName then .error .nameTooLong
    else
      let place := dir ++ [name]
      match tree.entryAt? place with
      | none => if rest = [] then .ok (.vacant place) else .error .notFound
      | some .directory => takeSteps tree ending onLink place rest
      | some (.file content) =>
        if rest = [] then .ok (.entry place (.file content)) else .error .notDirectory
      | some (.link target) =>
        if rest = [] && ending = .link then .ok (.entry place (.link target))
        else onLink dir target rest

/-- Takes steps from a directory, following at most `links` links. -/
def takeStepsFollowing (tree : FileTree) (ending : Ending) :
    (links : Nat) → Location → List PathStep → Except FileFault Spot
  | 0 => takeSteps tree ending fun _ _ _ => .error .tooManyLinks
  | links + 1 => takeSteps tree ending fun dir target rest =>
    takeStepsFollowing tree ending links (startOf target dir) (stepsOf target ++ rest)

/-- Takes the steps of a path from a directory. -/
def reachFrom (tree : FileTree) (ending : Ending) (dir : Location) (path : Path) :
    Except FileFault Spot :=
  if path.text.toList.contains '\x00' then .error .invalidName
  else if path.isEmpty then .error .notFound
  else if path.text.utf8ByteSize > longestPath then .error .nameTooLong
  else tree.takeStepsFollowing ending mostLinks (startOf path dir) (stepsOf path)

/-- What a path leads to, seen from the working directory. -/
def reach (tree : FileTree) (path : Path) : Except FileFault Spot :=
  tree.reachFrom .target tree.workingDir path

/-- The entry that a path leads to from a directory, and its location. -/
def findFrom? (tree : FileTree) (dir : Location) (path : Path) : Option (Location × FileEntry) :=
  match tree.reachFrom .target dir path with
  | .ok (.entry place entry) => some (place, entry)
  | _ => none

/-- The entry that a path leads to, and its location. -/
def find? (tree : FileTree) (path : Path) : Option (Location × FileEntry) :=
  tree.findFrom? tree.workingDir path

/-- The location that a path leads to, however the path is spelled. -/
def locate? (tree : FileTree) (path : Path) : Option Location :=
  (tree.find? path).map (·.1)

/-- Whether a path leads to a file. -/
def isFile (tree : FileTree) (path : Path) : Bool :=
  match tree.find? path with
  | some (_, .file _) => true
  | _ => false

/-- Whether a path leads to a directory. -/
def isDirectory (tree : FileTree) (path : Path) : Bool :=
  match tree.find? path with
  | some (_, .directory) => true
  | _ => false

/-- The bytes of a file, for a path seen from a directory. -/
def readFrom (tree : FileTree) (dir : Location) (path : Path) : Except FileFault ByteArray := do
  match ← tree.reachFrom .target dir path with
  | .entry _ (.file content) => return content
  | .entry _ .directory => throw .isDirectory
  | .entry _ (.link _) => throw .tooManyLinks
  | .vacant _ => throw .notFound

/-- What is read from a file depends on what the path leads to. -/
theorem toOption_readFrom (tree : FileTree) (dir : Location) (path : Path) :
    (tree.readFrom dir path).toOption = (tree.findFrom? dir path).bind fun found =>
      match found.2 with
      | .file content => some content
      | _ => none := by
  rw [readFrom, findFrom?]
  rcases tree.reachFrom .target dir path with fault | ⟨place, _ | _ | _⟩ | place
  all_goals rfl

/-- The bytes of a file. -/
def read (tree : FileTree) (path : Path) : Except FileFault ByteArray :=
  tree.readFrom tree.workingDir path

/-- The text of a file. -/
def readText (tree : FileTree) (path : Path) : Except FileFault String := do
  match Utf8.decode (← tree.read path) with
  | .ok text => return text
  | .error _ => throw .notText

/-- The name of an entry that lies directly in a directory. -/
def nameIn? (dir : Location) (place : Location) : Option String :=
  if place.dropLast = dir then place.getLast? else none

/-- The names of the entries that lie directly at a location. -/
def namesAt (tree : FileTree) (dir : Location) : List String :=
  tree.entries.filterMap fun entry => nameIn? dir entry.1

/-- The names of the entries that lie directly in a directory. -/
def list (tree : FileTree) (path : Path) : Except FileFault (List String) := do
  match ← tree.reach path with
  | .entry place .directory => return tree.namesAt place
  | .entry _ _ => throw .notDirectory
  | .vacant _ => throw .notFound

end FileTree

end FailureTriage
