import FailureTriage.Files.Tree
import FailureTriage.Text.Blank

/-!
# Changes of a file tree

Writing files, making directories and removing entries.  A change that fails leaves the tree as it
was, except that `makeDirectories` keeps the directories made before the one that fails.
-/

namespace FailureTriage.FileTree

/-- The tree with an entry at a location, in place of what was there. -/
def put (tree : FileTree) (place : Location) (entry : FileEntry) : FileTree :=
  if tree.entries.any (·.1 == place) then
    { tree with entries := tree.entries.map fun e => if e.1 == place then (place, entry) else e }
  else
    { tree with entries := tree.entries ++ [(place, entry)] }

/-- The path without the separators at its end, unless it is made of nothing else. -/
def withoutEnd (path : Path) : Path :=
  match Text.dropEndWhile (· == '/') path.text.toList with
  | [] => path
  | text => ⟨String.ofList text⟩

/-- Writes a file, whether there was one before or not. -/
def write (tree : FileTree) (path : Path) (content : ByteArray) : Except FileFault FileTree := do
  match ← tree.reachFrom .file tree.workingDir path with
  | .entry place (.file _) => return tree.put place (.file content)
  | .vacant place => return tree.put place (.file content)
  | .entry _ .directory => throw .isDirectory
  | .entry _ (.link _) => throw .tooManyLinks

/-- Writes a text to a file. -/
def writeText (tree : FileTree) (path : Path) (text : String) : Except FileFault FileTree :=
  tree.write path text.toUTF8

/-- Puts something at a path where nothing is yet. -/
def make (tree : FileTree) (path : Path) (entry : FileEntry) : Except FileFault FileTree := do
  match ← tree.reachFrom .link tree.workingDir path with
  | .vacant place => return tree.put place entry
  | .entry _ _ => throw .alreadyExists

/-- Makes a directory in a directory that is there. -/
def makeDirectory (tree : FileTree) (path : Path) : Except FileFault FileTree :=
  tree.make (withoutEnd path) .directory

/-- The path and those that its last components are taken from, the path itself first. -/
def ancestors : (fuel : Nat) → Path → List Path
  | 0, path => [path]
  | fuel + 1, path =>
    match path.parent? with
    | some parent => path :: ancestors fuel parent
    | none => [path]

/--
The directories to be made, the outermost first, so that a path can be one; `missing` holds those
found so far.  The search ends at a path that is a directory.
-/
def missingDirectories (tree : FileTree) :
    List Path → (missing : List Path) → Except FileFault (List Path)
  | [], missing => .ok missing
  | path :: rest, missing =>
    if path.isEmpty then .ok missing
    else match tree.makeDirectory path with
      | .ok _ => .ok (path :: missing)
      | .error .notFound => missingDirectories tree rest (path :: missing)
      | .error fault => if tree.isDirectory path then .ok missing else .error fault

/-- Makes directories one after the other; what fails but is a directory is no fault. -/
def makeAll (tree : FileTree) : List Path → FileTree × Except FileFault Unit
  | [] => (tree, .ok ())
  | path :: rest =>
    match tree.makeDirectory path with
    | .ok after => makeAll after rest
    | .error fault => if tree.isDirectory path then makeAll tree rest else (tree, .error fault)

/-- Makes a directory and all directories that it lies in, so far as they are missing. -/
def makeDirectories (tree : FileTree) (path : Path) : FileTree × Except FileFault Unit :=
  match tree.missingDirectories (ancestors path.text.length path) [] with
  | .ok missing => tree.makeAll missing
  | .error fault => (tree, .error fault)

/-- The tree without the entry that a path leads to, and without all that lies in it. -/
def remove (tree : FileTree) (path : Path) : FileTree :=
  match tree.reachFrom .link tree.workingDir path with
  | .ok (.entry place _) =>
    { tree with entries := tree.entries.filter fun e => !place.isPrefixOf e.1 }
  | _ => tree

end FailureTriage.FileTree
