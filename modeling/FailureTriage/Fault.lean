import FailureTriage.Files.Fault
import FailureTriage.Path

/-!
# Faults of a triage

Why reports cannot be taken in or documents cannot be read or written, and what helps.
-/

namespace FailureTriage

/-- Why reports cannot be taken in, or documents cannot be read or written. -/
inductive TriageFault where
  /-- The directory of the reports is missing. -/
  | reportsDirNotFound (path : Path)
  /-- The directory holds no report. -/
  | noReports (path : Path)
  /-- A report cannot be read; the message says why. -/
  | malformedReport (path : Path) (message : String)
  /-- A file operation fails. -/
  | file (fault : FileFault)
  /-- A document is not what it should be. -/
  | json
  /-- A sum of counts is more than a word of 32 bits holds.  This breaks the run off. -/
  | overflow
  deriving DecidableEq, Repr

namespace TriageFault

/-- The words for a fault. -/
def message : TriageFault → String
  | .reportsDirNotFound path => s!"Reports directory '{path.text}' not found"
  | .noReports path => s!"No XML test reports found in {path.text}"
  | .malformedReport path message => s!"Could not parse {path.text}: {message}"
  | .file fault => s!"IO error: {fault.message}"
  | .json => "JSON error"
  | .overflow => "attempt to add with overflow"

/-- Whether the fault loses no more than one report, so that the others may still be read. -/
def isSkippable : TriageFault → Bool
  | .malformedReport _ _ => true
  | _ => false

/-- What may help against a fault. -/
def suggestion? : TriageFault → Option String
  | .reportsDirNotFound _ => some "Run 'mvn test' first to generate test reports"
  | .noReports _ => some "Run 'mvn test' first to generate test reports"
  | .malformedReport _ _ =>
    some "Re-run the test suite; the report may have been truncated mid-write"
  | .file _ => none
  | .json => none
  | .overflow => none

/-- The fault and what caused it, in words. -/
def chain : TriageFault → List String
  | .file fault => [message (.file fault), fault.message]
  | fault => [fault.message]

end TriageFault

end FailureTriage
