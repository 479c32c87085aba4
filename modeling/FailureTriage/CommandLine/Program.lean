import FailureTriage.CommandLine.Arguments
import FailureTriage.Run.Advice

/-!
# The program

What the program does with its arguments, its environment and its files.
-/

namespace FailureTriage

/-- What is left when the program ends. -/
structure Outcome where
  exitCode : UInt8
  /-- The text for the standard output. -/
  output : String := ""
  /-- The text that tells the user what went wrong. -/
  complaint : String := ""
  session : Session

namespace Settings

/-- The settings of a file, or the standard ones. -/
def load (env : Environment) (files : FileTree) : Option Path → Except RunFault Settings
  | none => .ok (Settings.standard env)
  | some path => do
    let text ← (files.readText path).mapError (.cannotReadSettings path)
    match ofToml? env text with
    | some settings => return settings
    | none => throw (.cannotParseSettings path)

end Settings

/-- What the program is given besides its arguments. -/
structure Surroundings where
  env : Environment
  clock : Clock
  /-- What answers prompts, given an endpoint with a key. -/
  suggester : Endpoint → Suggester

namespace Program

/-- How the program is used. -/
def usage : String :=
  "Usage: triage-agent [OPTIONS] [COMMAND]\n\nCommands:\n"
    ++ "  analyze  Parse the reports and reconstruct failure context\n"
    ++ "  suggest  Request fix suggestions for a previous analysis\n"
    ++ "  run      Analyze, then suggest when anything failed\n\nOptions:\n"
    ++ "  --reports-dir <REPORTS_DIR>  Directory holding TEST-*.xml\n"
    ++ "  --output-dir <OUTPUT_DIR>    Directory the JSON documents are written to\n"
    ++ "  --base-dir <BASE_DIR>        Project root that source roots are resolved against\n"
    ++ "  --config <CONFIG>            TOML config file\n"

/-- The name and the version of the program. -/
def version : String :=
  "triage-agent 0.1.0\n"

/-- Asks for fixes; the result is the text for the standard output. -/
def suggest (around : Surroundings) (settings : Settings) : Run String := do
  Run.orFault .noSuggester settings.endpoint.checkKey
  match ← Run.suggest settings around.clock (around.suggester settings.endpoint) with
  | some report => return "\nSUGGESTED FIXES:\n" ++ report.render ++ "\n"
  | none => return ""

/-- Does what the arguments ask for; the result is the text for the standard output. -/
def perform (around : Surroundings) (arguments : Arguments) : Run String := do
  let loaded ← Run.orFault id (Settings.load around.env (← Run.files) arguments.config)
  let settings := loaded.override arguments.overrides
  Run.info "Starting test failure triage"
  match arguments.command with
  | .analyze =>
    let _ ← Run.analyze settings around.clock
    return ""
  | .suggest => suggest around settings
  | .run =>
    let analysis ← Run.analyze settings around.clock
    if ← Run.orFault .triage analysis.hasFailures then suggest around settings
    else
      Run.info "No failures to suggest fixes for"
      return ""

/-- Runs the program on files. -/
def run (around : Surroundings) (arguments : List String) (files : FileTree) : Outcome :=
  match Arguments.parse arguments with
  | .error .badUsage => { exitCode := 2, complaint := usage, session := { files } }
  | .error .help => { exitCode := 0, output := usage, session := { files } }
  | .error .version => { exitCode := 0, output := version, session := { files } }
  | .ok arguments =>
    match (perform around arguments).run.run { files } with
    | (.ok output, session) => { exitCode := 0, output, session }
    | (.error fault, session) =>
      let hint := fault.hint?.toList.map fun text => ⟨.warning, text⟩
      { exitCode := fault.exitCode
        complaint := fault.report
        session := { session with messages := session.messages ++ hint } }

end Program

end FailureTriage
