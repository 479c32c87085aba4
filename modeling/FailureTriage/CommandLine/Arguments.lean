import FailureTriage.Settings

/-!
# Arguments

The arguments of the command line: options and one command, in any order.  An option takes the
argument after it as its value, or what stands after an equals sign.  It may be given once before
the command and once after it; then the one after it counts.
-/

namespace FailureTriage

/-- What is to be done. -/
inductive Command where
  /-- Read the reports and write the summary and the contexts of their failures. -/
  | analyze
  /-- Ask for fixes of the failures that were analysed. -/
  | suggest
  /-- Do the one and then, if anything failed, the other. -/
  | run
  deriving DecidableEq, Repr

/-- The command of a name. -/
def Command.ofName? : String → Option Command
  | "analyze" => some .analyze
  | "suggest" => some .suggest
  | "run" => some .run
  | _ => none

/-- The arguments of a run. -/
structure Arguments where
  command : Command := .run
  overrides : Overrides := {}
  /-- The file with the settings. -/
  config : Option Path := none
  deriving DecidableEq, Repr

/-- Why arguments lead to no run. -/
inductive NoRun where
  /-- They cannot be understood. -/
  | badUsage
  /-- They ask how the program is used. -/
  | help
  /-- They ask for the version of the program. -/
  | version
  deriving DecidableEq, Repr

/-- An option that takes a path. -/
inductive PathOption where
  | reportsDir
  | outputDir
  | baseDir
  | config
  deriving DecidableEq, Repr

namespace PathOption

/-- The option of a name. -/
def ofName? : String → Option PathOption
  | "reports-dir" => some .reportsDir
  | "output-dir" => some .outputDir
  | "base-dir" => some .baseDir
  | "config" => some .config
  | _ => none

end PathOption

namespace Arguments

/-- The arguments with an option set. -/
def set (arguments : Arguments) (option : PathOption) (value : Path) : Arguments :=
  match option with
  | .reportsDir =>
    { arguments with overrides := { arguments.overrides with reportsDir := some value } }
  | .outputDir =>
    { arguments with overrides := { arguments.overrides with outputDir := some value } }
  | .baseDir =>
    { arguments with overrides := { arguments.overrides with baseDir := some value } }
  | .config => { arguments with config := some value }

/-- How far the arguments have been read. -/
private structure Reader where
  arguments : Arguments := {}
  /-- The options that were given on this side of the command. -/
  given : List PathOption := []
  /-- Whether there was a command. -/
  commanded : Bool := false
  /-- The option that waits for its value. -/
  pending : Option PathOption := none
  /-- Whether an argument `--` has ended the options. -/
  ended : Bool := false

namespace Reader

/-- An option gets its value. -/
private def give (r : Reader) (option : PathOption) (value : String) : Except NoRun Reader :=
  if value = "" || r.given.contains option then .error .badUsage
  else .ok { r with
    arguments := r.arguments.set option ⟨value⟩
    given := option :: r.given
    pending := none }

/-- An argument that starts with two dashes, without them. -/
private def long (r : Reader) (text : List Char) : Except NoRun Reader :=
  let name := String.ofList (Text.beforeFirst '=' text)
  let value := text.drop (name.length + 1)
  let hasValue := text.contains '='
  match PathOption.ofName? name with
  | some option =>
    if hasValue then r.give option (String.ofList value)
    else if r.given.contains option then .error .badUsage
    else .ok { r with pending := some option }
  | none =>
    if hasValue then .error .badUsage
    else if name = "help" then .error .help
    else if name = "version" && !r.commanded then .error .version
    else .error .badUsage

/-- An argument that starts with one dash, without it. -/
private def short (r : Reader) (text : List Char) : NoRun :=
  match text.head? with
  | some 'h' => .help
  | some 'V' => if r.commanded then .badUsage else .version
  | _ => .badUsage

/-- An argument that is no option. -/
private def word (r : Reader) (text : String) : Except NoRun Reader :=
  if r.commanded || r.ended then .error .badUsage
  else match Command.ofName? text with
    | some command =>
      .ok { r with
        arguments := { r.arguments with command := command }
        given := []
        commanded := true }
    | none => .error .badUsage

/-- Whether an argument is an option and no value. -/
private def isOption (argument : String) : Bool :=
  argument.toList.head? = some '-' && argument ≠ "-"

/-- One more argument. -/
private def step (r : Reader) (argument : String) : Except NoRun Reader :=
  match r.pending with
  | some option =>
    if isOption argument then .error .badUsage else r.give option argument
  | none =>
    if r.ended || !isOption argument then r.word argument
    else match argument.toList.drop 1 with
      | ['-'] => .ok { r with ended := true }
      | '-' :: text => r.long text
      | text => .error (r.short text)

/-- All arguments. -/
private def run (r : Reader) : List String → Except NoRun Reader
  | [] => .ok r
  | "help" :: names =>
    if r.pending.isNone && !r.commanded && !r.ended then
      match names with
      | [] => .error .help
      | [name] =>
        .error (if (Command.ofName? name).isSome || name = "help" then .help else .badUsage)
      | _ => .error .badUsage
    else do
      let r ← r.step "help"
      r.run names
  | argument :: rest => do
    let r ← r.step argument
    r.run rest

end Reader

/-- The run that the arguments of the command line ask for. -/
def parse (arguments : List String) : Except NoRun Arguments := do
  let r ← Reader.run {} arguments
  if r.pending.isSome then throw .badUsage
  return r.arguments

end Arguments

end FailureTriage
