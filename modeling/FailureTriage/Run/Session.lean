import FailureTriage.Files.StoredDocument
import FailureTriage.Log
import FailureTriage.Run.Fault
import FailureTriage.Timestamp

/-!
# Sessions

What a run has done so far: the files as they are now, the messages, and the prompts that were
sent.  A run goes on from a session and ends with a value or with a fault; either way the session
keeps what was done.
-/

namespace FailureTriage

/-- What a run has done so far. -/
structure Session where
  files : FileTree
  /-- The messages, in the order in which they were reported. -/
  messages : List Message := []
  /-- The prompts that were sent to a suggester, in order. -/
  prompts : List String := []

/-- A step of a run. -/
abbrev Run := ExceptT RunFault (StateM Session)

/-- The time at which a run takes place. -/
structure Clock where
  /-- The local time, as documents have it. -/
  stamp : String
  instant : Timestamp

namespace Run

/-- The files as they are now. -/
def files : Run FileTree :=
  return (← get).files

/-- A computation whose messages are reported. -/
def say {α : Type} (x : Logged α) : Run α := do
  modify fun session => { session with messages := session.messages ++ x.messages }
  return x.value

/-- Reports progress. -/
def info (text : String) : Run Unit :=
  say (Logged.info text)

/-- Reports something that went wrong and does not stop the run. -/
def warn (text : String) : Run Unit :=
  say (Logged.warn text)

/-- The value, or the fault of the run that an error amounts to. -/
def orFault {α ε : Type} (fault : ε → RunFault) : Except ε α → Run α
  | .ok value => pure value
  | .error e => throw (fault e)

/-- The value of a document. -/
def load {α : Type} [JsonCodec α] (path : Path) : Run α := do
  orFault (.cannotLoad path) (readDocument (← files) path)

/-- Writes a document. -/
def save {α : Type} [JsonCodec α] (path : Path) (value : α) : Run Unit := do
  let (after, result) := writeDocument (← files) path value
  modify fun session => { session with files := after }
  orFault (.cannotWrite path) result

/-- Sends a prompt to a suggester. -/
def ask (suggester : Suggester) (prompt : String) : Run String := do
  modify fun session => { session with prompts := session.prompts ++ [prompt] }
  orFault .noReply (suggester.reply prompt)

end Run

end FailureTriage
