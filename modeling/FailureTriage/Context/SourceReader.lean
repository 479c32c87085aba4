import FailureTriage.Files.Tree
import FailureTriage.Log

/-!
# Reading sources once

A reader that keeps what it has read.  A source that cannot be read is empty, and there is one
warning about it.
-/

namespace FailureTriage

/-- What has been read so far, the last source first. -/
structure SourceReader where
  known : List (Path × String) := []

namespace SourceReader

/-- The text of a file; empty, and a warning, if it cannot be read. -/
def textOf (files : FileTree) (path : Path) : Logged String :=
  match files.readText path with
  | .ok text => pure text
  | .error .notFound => do
    Logged.warn s!"Source file {path.text} not found"
    return ""
  | .error fault => do
    Logged.warn s!"Could not read {path.text}: {fault.message}"
    return ""

/-- What is known of a path, however its components are spelled. -/
def lookup? (reader : SourceReader) (path : Path) : Option String :=
  (reader.known.find? fun source => source.1.same path).map (·.2)

/-- The text of a source, and the reader that knows it. -/
def read (reader : SourceReader) (files : FileTree) (path : Path) :
    Logged (String × SourceReader) :=
  match reader.lookup? path with
  | some text => pure (text, reader)
  | none => do
    let text ← textOf files path
    return (text, ⟨(path, text) :: reader.known⟩)

/-- Each path with the text of its source. -/
def readAll (reader : SourceReader) (files : FileTree) :
    List Path → Logged (List (Path × String))
  | [] => pure []
  | path :: rest => do
    let (text, reader) ← reader.read files path
    let others ← readAll reader files rest
    return (path, text) :: others

end SourceReader

end FailureTriage
