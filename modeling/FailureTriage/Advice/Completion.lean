import FailureTriage.Json.Codec

/-!
# Completions

The text of a reply, from the answer of a chat completions endpoint.
-/

namespace FailureTriage

/-- The text of one choice, if it has one. -/
structure Choice where
  content : Option String

namespace Completion

/-- What stands for the reply of an answer without choices. -/
def emptyReply : String :=
  "No response received from the AI model"

end Completion

open Json in
instance : JsonCodec Choice where
  encode c := .object [(some "message", .object (member "content" c.content))]
  decode? json := do
    let [message] ← fields? [must "message"] json | none
    let [content] ← fields? [may "content"] (← message) | none
    some { content := ← nullable content }

namespace Completion

open Json in
/-- The choices of an answer. -/
def choices? (body : String) : Option (List Choice) := do
  let [choices] ← fields? [may "choices"] (← Json.read? body) | none
  withDefault [] choices

/-- The text of the first choice of an answer. -/
def reply? (body : String) : Option String :=
  (choices? body).map fun choices => (choices.head?.bind (·.content)).getD emptyReply

end Completion

end FailureTriage
