import FailureTriage.Text.Blank
import FailureTriage.Text.Digits

/-!
# Excerpts

A text cut to a number of characters, with a note that says how many are missing.
-/

namespace FailureTriage.Text

/-- The note on the characters that an excerpt leaves out. -/
def truncationNote (dropped : Nat) : List Char :=
  "\n...[truncated ".toList ++ natDigits dropped ++ " characters]".toList

/-- The trimmed text, cut after `limit` characters if it is longer. -/
def excerpt (limit : Nat) (text : List Char) : List Char :=
  let trimmed := trim text
  if trimmed.length ≤ limit then trimmed
  else trimmed.take limit ++ truncationNote (trimmed.length - limit)

end FailureTriage.Text
