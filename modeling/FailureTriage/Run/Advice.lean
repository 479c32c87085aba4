import FailureTriage.Advice.Prompt
import FailureTriage.Advice.Reply
import FailureTriage.Run.Analysis

/-!
# Asking for fixes

The second stage of a run: the documents of an analysis are read, a suggester is asked once, and
the fixes in its reply are written.  When nothing failed nobody is asked.
-/

namespace FailureTriage.Run

/-- The contexts of a summary's failures: those that were saved, or else new ones. -/
def loadContexts (settings : Settings) (clock : Clock) (summary : ErrorSummary) :
    Run (List FailureContext) := do
  let path := settings.contextPath
  let files ← files
  if files.isFile path then load path
  else
    warn s!"{path.text} not found, rebuilding failure context"
    let failures := summary.failures.map FailureSummary.toRecord
    say ((settings.workspace files).reconstructEach clock.instant failures)

/-- Asks for fixes of the failures that were analysed; none if nothing failed. -/
def suggest (settings : Settings) (clock : Clock) (suggester : Suggester) :
    Run (Option FixReport) := do
  let summary : ErrorSummary ← load settings.summaryPath
  let failing ← orFault .triage summary.failing
  if failing = 0 then
    info "No test failures found to analyze"
    return none
  warn s!"Failed tests detected - generating fix suggestions for {failing} failure(s)"
  let contexts ← loadContexts settings clock summary
  let reply ← ask suggester (Prompt.build summary contexts)
  let report := Reply.parse clock.stamp reply summary suggester.model
  save settings.fixesPath report
  info s!"Fixes saved to {settings.fixesPath.text}"
  return some report

end FailureTriage.Run
