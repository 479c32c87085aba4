import FailureTriage.Advice.Suggester
import FailureTriage.Fault

/-!
# Faults of a run

Why a run stops: what it was about to do, and what went wrong with that.

* `RunFault.chain` puts it in words, the outermost first.
* `RunFault.report` is the text that is shown to the user, `RunFault.exitCode` the exit code.
-/

namespace FailureTriage

/-- Why a run stops. -/
inductive RunFault where
  /-- The reports cannot be taken in. -/
  | triage (cause : TriageFault)
  | cannotLoad (path : Path) (cause : TriageFault)
  | cannotWrite (path : Path) (cause : TriageFault)
  | cannotReadSettings (path : Path) (cause : FileFault)
  | cannotParseSettings (path : Path)
  /-- The suggester gives no reply. -/
  | noReply (cause : SuggesterFault)
  /-- There is no suggester to ask. -/
  | noSuggester (cause : SuggesterFault)
  deriving DecidableEq, Repr

namespace RunFault

/-- The fault and what caused it, in words. -/
def chain : RunFault → List String
  | .triage cause => cause.chain
  | .cannotLoad path cause => s!"Failed to load {path.text}" :: cause.chain
  | .cannotWrite path cause => s!"Failed to write {path.text}" :: cause.chain
  | .cannotReadSettings path cause =>
    [s!"Failed to read config file {path.text}", cause.message]
  | .cannotParseSettings path =>
    [s!"Failed to parse config file {path.text}", "TOML parse error"]
  | .noReply cause => ["Fix suggestion request failed", cause.message]
  | .noSuggester cause => ["Failed to configure the fix suggestion client", cause.message]

/-- What may help. -/
def hint? : RunFault → Option String
  | .triage cause => cause.suggestion?
  | .cannotLoad _ cause => cause.suggestion?
  | .cannotWrite _ cause => cause.suggestion?
  | _ => none

/-- A cause under the heading of the causes, each of its lines set in. -/
private def indented (mark blank : String) (cause : String) : String :=
  mark ++ ("\n" ++ blank).intercalate
    ((Text.splitOn '\n' cause.toList).map String.ofList)

/-- The causes of a fault under their heading; several causes are counted. -/
private def causes : List String → String
  | [] => ""
  | [cause] => "\n\nCaused by:\n" ++ indented "    " "    " cause
  | several =>
    "\n\nCaused by:\n" ++ "\n".intercalate (several.zipIdx.map fun (cause, place) =>
      let number := s!"{place}"
      let mark := String.ofList (List.replicate (5 - number.length) ' ') ++ number ++ ": "
      indented mark "       " cause)

/-- Whether the run is broken off: it has no result, and no caller may go on. -/
def breaksOff : RunFault → Bool
  | .triage .overflow => true
  | _ => false

/-- The text that tells the user about a fault. -/
def report (fault : RunFault) : String :=
  match fault.chain with
  | [] => ""
  | outermost :: others =>
    if fault.breaksOff then outermost else "Error: " ++ outermost ++ causes others

/-- The exit code of a program that ends with a fault. -/
def exitCode (fault : RunFault) : UInt8 :=
  if fault.breaksOff then 101 else 1

end RunFault

end FailureTriage
