import FailureTriage.Settings

/-!
# Suggesters

What answers a prompt with a reply, and why there may be no reply.
-/

namespace FailureTriage

/-- Why a suggester gives no reply. -/
inductive SuggesterFault where
  /-- No key for the endpoint is known. -/
  | missingApiKey
  /-- The endpoint cannot be reached. -/
  | unreachable (url : String)
  /-- The endpoint refuses to answer. -/
  | status (code : Nat) (body : String)
  /-- The answer of the endpoint is no completion. -/
  | undecodable
  deriving DecidableEq, Repr

/-- The words for a fault. -/
def SuggesterFault.message : SuggesterFault → String
  | .missingApiKey => "no API key configured (set TRIAGE_API_KEY or endpoint.api_key)"
  | .unreachable url => s!"request to {url} failed"
  | .status code body => s!"endpoint returned HTTP {code}: {body}"
  | .undecodable => "could not decode completion response"

/-- What answers a prompt. -/
structure Suggester where
  /-- The name of the model that answers. -/
  model : String
  reply : String → Except SuggesterFault String

namespace Endpoint

/-- Where the endpoint takes requests. -/
def requestUrl (endpoint : Endpoint) : String :=
  String.ofList (Text.dropEndWhile (· == '/') endpoint.url.toList) ++ "/chat/completions"

/-- A fault if the endpoint cannot be asked, since no key is known. -/
def checkKey (endpoint : Endpoint) : Except SuggesterFault Unit :=
  if endpoint.apiKey.isSome then .ok () else .error .missingApiKey

end Endpoint

end FailureTriage
