import FailureTriage.Pattern.Search
import FailureTriage.Text.Excerpt
import FailureTriage.Text.Lines

/-!
# Captured output

Of the output that a test case leaves behind, only the lines that speak of a problem are kept.
-/

namespace FailureTriage.Output

open Pattern in
/-- A mention of an error, a warning, an exception, an assertion or a failure. -/
def problem : Pattern :=
  anyOf [
    anyCase "ERROR", anyCase "WARN", anyCase "Exception:", anyCase "Caused by",
    anyCase "AssertionFailedError", anyCase "expected:", anyCase "actual:",
    sequence [.wordEdge, anyCase "FAIL", opt (anyCase "URE"), opt (anyCase "!")]]

/-- The lines that mention a problem, without the blanks they end in. -/
def problemLines (text : List Char) : List (List Char) :=
  ((Text.lines (Text.trim text)).map Text.trimEnd).filter problem.occursIn

/-- The lines that mention a problem, cut to `limit` characters. -/
def relevantLog (limit : Nat) (text : String) : String :=
  String.ofList (Text.excerpt limit (Text.unlines (problemLines text.toList)))

end FailureTriage.Output
