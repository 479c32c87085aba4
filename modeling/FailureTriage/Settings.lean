import FailureTriage.Source.Layout
import FailureTriage.Source.Window
import FailureTriage.Toml.Document

/-!
# Settings

Where the reports and the documents of a run are, how the project is laid out, and which endpoint
is asked for fixes.

A setting takes its value from, in increasing order: what is built in, the variables of the
environment, the configuration text, and the command line.  A table of the configuration text
gives each of its missing settings the value that the table's own standard has.
-/

namespace FailureTriage

/-- The variables of the environment. -/
abbrev Environment := String → Option String

/-- An endpoint for chat completions. -/
structure Endpoint where
  url : String
  model : String
  apiKey : Option String
  temperature : Float32
  maxCompletionTokens : UInt32
  timeoutSecs : UInt64

namespace Endpoint

/-- The standard endpoint in an environment. -/
def standard (env : Environment) : Endpoint where
  url := (env "TRIAGE_API_URL").getD "http://localhost:8080/v1"
  model := (env "TRIAGE_MODEL").getD "mistralai/mistral-medium-2505"
  apiKey := (env "TRIAGE_API_KEY").filter (· ≠ "")
  temperature := 0.1
  maxCompletionTokens := 16384
  timeoutSecs :=
    let given := (env "TRIAGE_TIMEOUT_SECS").bind fun text =>
      Text.readNat? Text.maxWord64 text.toList
    (given.map UInt64.ofNat).getD 120

open Json in
/-- The endpoint that a value describes, with the standard for what is missing. -/
def decode? (env : Environment) (json : Json) : Option Endpoint := do
  let standard := Endpoint.standard env
  let [url, model, apiKey, temperature, tokens, timeout] ← fields? [
      may "url", may "model", may "api_key", may "temperature", may "max_completion_tokens",
      may "timeout_secs"] json
    | none
  some {
    url := ← withDefault standard.url url
    model := ← withDefault standard.model model
    apiKey := ← withDefault standard.apiKey apiKey
    temperature := ← withDefault standard.temperature temperature
    maxCompletionTokens := ← withDefault standard.maxCompletionTokens tokens
    timeoutSecs := ← withDefault standard.timeoutSecs timeout }

end Endpoint

/-- The settings of a run. -/
structure Settings where
  /-- The directory of the test reports. -/
  reportsDir : Path
  /-- The directory that the documents are written to. -/
  outputDir : Path
  layout : SourceLayout
  window : Window
  endpoint : Endpoint

/-- The settings that the command line gives. -/
structure Overrides where
  reportsDir : Option Path := none
  outputDir : Option Path := none
  baseDir : Option Path := none
  deriving DecidableEq, Repr

namespace Settings

/-- The standard settings in an environment. -/
def standard (env : Environment) : Settings where
  reportsDir := ⟨(env "TRIAGE_REPORTS_DIR").getD "bank/target/surefire-reports"⟩
  outputDir := ⟨(env "TRIAGE_OUTPUT_DIR").getD "output"⟩
  layout := match env "TRIAGE_BASE_DIR" with
    | some dir => SourceLayout.rootedAt ⟨dir⟩
    | none => {}
  window := {}
  endpoint := Endpoint.standard env

open Json in
/-- The settings that a value describes, with the standard for what is missing. -/
def decode? (env : Environment) (json : Json) : Option Settings := do
  let standard := Settings.standard env
  let [reportsDir, outputDir, layout, window, endpoint] ← fields? [
      may "reports_dir", may "output_dir", may "locator", may "window", may "endpoint"] json
    | none
  some {
    reportsDir := ← withDefault standard.reportsDir reportsDir
    outputDir := ← withDefault standard.outputDir outputDir
    layout := ← withDefault standard.layout layout
    window := ← withDefault standard.window window
    endpoint := ← (endpoint.map (Endpoint.decode? env)).getD (some standard.endpoint) }

/-- How many settings a table of a configuration text has. -/
def tableSize? : Option String → Option Nat
  | some "locator" => some 7
  | some "window" => some 2
  | some "endpoint" => some 6
  | _ => none

/--
The value of a configuration text in which a table may also be an array of its settings in order;
what is left over at the end of such an array does not count.
-/
def withoutSurplus : Json → Json
  | .object members => .object <| members.map fun (key, value) =>
    match tableSize? key, value with
    | some size, .array items => (key, .array (items.take size))
    | _, _ => (key, value)
  | json => json

/-- The settings of a configuration text. -/
def ofToml? (env : Environment) (text : String) : Option Settings :=
  (readToml? text).bind fun json => decode? env (withoutSurplus json)

/-- The settings with those of the command line in their place. -/
def override (settings : Settings) (given : Overrides) : Settings :=
  { settings with
    reportsDir := given.reportsDir.getD settings.reportsDir
    outputDir := given.outputDir.getD settings.outputDir
    layout :=
      { settings.layout with baseDir := given.baseDir.getD settings.layout.baseDir } }

/-- Where the error summary is written. -/
def summaryPath (settings : Settings) : Path :=
  settings.outputDir.join ⟨"error-summary.json"⟩

/-- Where the failure contexts are written. -/
def contextPath (settings : Settings) : Path :=
  settings.outputDir.join ⟨"failure-context.json"⟩

/-- Where the suggested fixes are written. -/
def fixesPath (settings : Settings) : Path :=
  settings.outputDir.join ⟨"suggested-fixes.json"⟩

end Settings

end FailureTriage
