import FailureTriage.Path

/-!
# Logs of suites

The plain text that lies next to the report of a suite.
-/

namespace FailureTriage

/-- The name of the log that belongs to a report of the given name. -/
def suiteLogName (name : String) : String :=
  let plain := Text.replace "TEST-".toList [] name.toList
  String.ofList (Text.replace ".xml".toList ".txt".toList plain)

/-- Where the log of the suite lies whose report is a file. -/
def suiteLogPath? (reportFile : Path) : Option Path :=
  reportFile.fileName?.map fun name => reportFile.withFileName (suiteLogName name)

end FailureTriage
