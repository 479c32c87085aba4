import FailureTriage.Fault
import FailureTriage.Files.Change
import FailureTriage.Json.Codec

/-!
# Documents in files

Values that are kept in files as text.  A document is written together with the directories that
it lies in.
-/

namespace FailureTriage

/-- The value that a file holds. -/
def readDocument {α : Type} [JsonCodec α] (files : FileTree) (path : Path) :
    Except TriageFault α :=
  match files.readText path with
  | .error fault => .error (.file fault)
  | .ok text =>
    match readJson? text with
    | some value => .ok value
    | none => .error .json

/-- The directory that a document lies in, unless it is where paths start. -/
def documentDir? (path : Path) : Option Path :=
  path.parent?.filter fun parent => !parent.isEmpty

/-- The files after the directory of a document has been made. -/
def makeDocumentDir (files : FileTree) (path : Path) : FileTree × Except FileFault Unit :=
  match documentDir? path with
  | some dir => files.makeDirectories dir
  | none => (files, .ok ())

/-- The files after a text has been written, which keep what was done before a fault. -/
def writeDocumentText (files : FileTree) (path : Path) (text : String) :
    FileTree × Except TriageFault Unit :=
  match makeDocumentDir files path with
  | (files, .error fault) => (files, .error (.file fault))
  | (files, .ok ()) =>
    match files.writeText path text with
    | .ok files => (files, .ok ())
    | .error fault => (files, .error (.file fault))

/-- The files after a value has been written, which keep what was done before a fault. -/
def writeDocument {α : Type} [JsonCodec α] (files : FileTree) (path : Path) (value : α) :
    FileTree × Except TriageFault Unit :=
  writeDocumentText files path (writeJson value)

end FailureTriage
