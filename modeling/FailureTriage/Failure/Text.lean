import FailureTriage.Text.Lines

/-!
# Failure texts

The text of a failure starts with a line that says what went wrong; the stack trace follows it.
-/

namespace FailureTriage.FailureText

/-- The first line of a failure text. -/
def headline (text : List Char) : List Char :=
  match Text.lines (Text.trim text) with
  | [] => []
  | line :: _ => Text.trim line

/-- The failure text without its first line, or the whole text if it has only one. -/
def body (text : List Char) : List Char :=
  let trimmed := Text.trim text
  match Text.lines trimmed with
  | _ :: second :: rest => Text.trim (Text.unlines (second :: rest))
  | _ => trimmed

end FailureTriage.FailureText
