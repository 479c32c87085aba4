import FailureTriage.Context.Reconstruction
import FailureTriage.Decimal.Layout
import FailureTriage.Run.Session
import FailureTriage.Settings
import FailureTriage.Suite.Directory
import FailureTriage.Summary.Build

/-!
# Analysing reports

The first stage of a run: the reports are read, every failure gets its context, and a summary and
the contexts are written for the second stage.
-/

namespace FailureTriage

/-- What an analysis finds. -/
structure Analysis where
  summary : ErrorSummary
  contexts : List FailureContext

/-- Whether a failure or an error is counted. -/
def Analysis.hasFailures (analysis : Analysis) : Except TriageFault Bool := do
  let failing ← analysis.summary.failing
  return failing > 0

/-- The workspace that settings describe. -/
def Settings.workspace (settings : Settings) (files : FileTree) : Workspace where
  files := files
  layout := settings.layout
  window := settings.window

namespace Run

/-- Reads the reports, and finds the summary and the contexts of their failures. -/
def examine (settings : Settings) (clock : Clock) : Run (ReportSet × Analysis) := do
  info s!"Analyzing test reports in {settings.reportsDir.text}"
  let files ← files
  let reports ← orFault .triage (← say (ReportSet.load files settings.reportsDir))
  let workspace := settings.workspace files
  let summary ← orFault .triage (← say (ErrorSummary.build workspace clock.stamp reports))
  let contexts ← say (workspace.reconstructAll clock.instant reports)
  return (reports, { summary, contexts })

/-- Examines the reports and writes what was found, each document in its own way. -/
def analyzeBy (saveSummary : Path → ErrorSummary → Run Unit)
    (saveContexts : Path → List FailureContext → Run Unit) (settings : Settings) (clock : Clock) :
    Run Analysis := do
  let (reports, analysis) ← examine settings clock
  saveSummary settings.summaryPath analysis.summary
  info s!"Summary saved to {settings.summaryPath.text}"
  saveContexts settings.contextPath analysis.contexts
  let count := analysis.contexts.length
  info s!"Failure context for {count} test(s) saved to {settings.contextPath.text}"
  let rate := Decimal.roundedText reports.successRate
  info (s!"Analysis complete: {reports.totalTests} tests, {reports.totalFailures} failures, "
    ++ s!"{reports.totalErrors} errors ({rate}% pass rate)")
  return analysis

/-- Reads the reports, and writes the summary and the contexts of their failures. -/
def analyze (settings : Settings) (clock : Clock) : Run Analysis :=
  analyzeBy save save settings clock

end Run

end FailureTriage
