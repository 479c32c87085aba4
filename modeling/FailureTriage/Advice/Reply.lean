import FailureTriage.Summary.Document
import FailureTriage.Text.Find
import FailureTriage.Text.Lines

/-!
# Replies

A reply is free text with sections and with directives for fixes.  Reading it gives a report of
suggested fixes; whatever else it says is only kept as a whole.

* `Reply.parse` reads a reply, line by line.
* `FixReport.render` shows the fixes of a report in short lines.
-/

namespace FailureTriage

/-- The line that a fix belongs to: a number, or whatever else stands in its place. -/
inductive LineRef where
  | number (n : UInt64)
  | text (s : String)
  deriving DecidableEq

/-- The text of a line reference. -/
def LineRef.toText : LineRef → String
  | .number n => toString n.toNat
  | .text s => s

/-- A suggested fix. -/
structure SuggestedFix where
  filePath : String
  line : Option LineRef := none
  currentCode : Option String := none
  fixedCode : Option String := none
  testClass : Option String := none
  testMethod : Option String := none
  rootCause : String := ""
  verification : String := ""
  notes : Option String := none
  deriving DecidableEq

/-- What a report of fixes says about itself. -/
structure FixMetadata where
  /-- The local time at which the report was made. -/
  generatedAt : String
  totalFailures : UInt32
  /-- The name of the model that has replied. -/
  model : String
  deriving DecidableEq

/-- The fixes that a reply suggests. -/
structure FixReport where
  metadata : FixMetadata
  fixes : List SuggestedFix
  /-- The whole reply. -/
  rawReply : String
  deriving DecidableEq

namespace Reply

/-! ## Sections and directives -/

/-- A section of a reply. -/
inductive Section where
  | rootCause
  | fixes
  | verification
  | notes
  deriving DecidableEq

/-- The sections with the names in their headers, in the order in which they are looked for. -/
def sections : List (List Char × Section) := [
  ("ROOT CAUSE".toList, .rootCause), ("EXACT FIXES".toList, .fixes),
  ("VERIFICATION".toList, .verification), ("ADDITIONAL NOTES".toList, .notes)]

/-- What follows the header of a name: the name after two asterisks, or before a colon. -/
def afterHeader? (name line : List Char) : Option (List Char) :=
  match Text.splitAtFirst? ('*' :: '*' :: name) line with
  | some (_, rest) => some rest
  | none => (Text.splitAtFirst? (name ++ [':']) line).map (·.2)

/-- The section that a line opens, and the text after its header. -/
def header? (line : List Char) : Option (Section × List Char) :=
  sections.findSome? fun (name, opened) =>
    (afterHeader? name line).map fun rest =>
      (opened, Text.trim (rest.dropWhile fun c => c == '*' || c == ':' || Text.isBlank c))

/-- The value after a key, without the backquotes around it. -/
def directive? (key line : List Char) : Option (List Char) :=
  (Text.dropFragment? key line).map fun rest =>
    let value := Text.trim rest
    if value.head? = some '\x60' then
      Text.dropEndWhile (· == '\x60') (value.dropWhile (· == '\x60'))
    else value

/-- What a directive says about a fix. -/
inductive Directive where
  | file (path : String)
  | line (ref : LineRef)
  | replace (code : String)
  | replacement (code : String)
  deriving DecidableEq

/-- The reference that the value of a line directive stands for. -/
def lineRef (value : List Char) : LineRef :=
  match Text.readNat? Text.maxWord64 value with
  | some n => .number (UInt64.ofNat n)
  | none => .text (String.ofList value)

/-- What a line means. -/
inductive Line where
  | header (opened : Section) (rest : List Char)
  | directive (d : Directive)
  | plain (text : List Char)

/-- The directive on a line. -/
def toDirective? (line : List Char) : Option Directive :=
  ((directive? "FILE:".toList line).map fun v => Directive.file (String.ofList v)).orElse fun _ =>
  ((directive? "LINE:".toList line).map fun v => Directive.line (lineRef v)).orElse fun _ =>
  ((directive? "REPLACE:".toList line).map fun v =>
    Directive.replace (String.ofList v)).orElse fun _ =>
  (directive? "WITH:".toList line).map fun v => Directive.replacement (String.ofList v)

/-- The meaning of a line; a header goes before a directive. -/
def Line.ofText (raw : List Char) : Line :=
  let line := Text.trim raw
  match header? line with
  | some (opened, rest) => .header opened rest
  | none =>
    match toDirective? line with
    | some d => .directive d
    | none => .plain line

/-! ## Reading -/

/-- What is known while a reply is read; all lists are in reverse order. -/
structure Progress where
  fixes : List SuggestedFix := []
  openSection : Option Section := none
  rootCause : List (List Char) := []
  verification : List (List Char) := []
  notes : List (List Char) := []

namespace Progress

/-- A text goes to the open section, if it has a use for it. -/
def addText (p : Progress) (text : List Char) : Progress :=
  if text.isEmpty then p
  else match p.openSection with
    | some .rootCause => { p with rootCause := text :: p.rootCause }
    | some .verification => { p with verification := text :: p.verification }
    | some .notes => { p with notes := text :: p.notes }
    | some .fixes | none => p

/-- A change of the last fix, if there is one. -/
def changeLast (p : Progress) (change : SuggestedFix → SuggestedFix) : Progress :=
  match p.fixes with
  | last :: earlier => { p with fixes := change last :: earlier }
  | [] => p

/-- One line of a reply. -/
def step (p : Progress) : Line → Progress
  | .header opened rest => addText { p with openSection := some opened } rest
  | .directive (.file path) => { p with fixes := { filePath := path } :: p.fixes }
  | .directive (.line ref) => p.changeLast fun fix => { fix with line := some ref }
  | .directive (.replace code) => p.changeLast fun fix => { fix with currentCode := some code }
  | .directive (.replacement code) => p.changeLast fun fix => { fix with fixedCode := some code }
  | .plain text => p.addText text

end Progress

/-- Texts with a blank between each two of them, or a text in their place if there are none. -/
private def joinedOr (standard : String) (texts : List (List Char)) : String :=
  if texts.isEmpty then standard else String.ofList (Text.joinWith [' '] texts)

/-- The fixes, each with the test of the failure that stands at the same place. -/
def assignTests : List SuggestedFix → List FailureSummary → List SuggestedFix
  | [], _ => []
  | fixes, [] => fixes
  | fix :: fixes, failure :: failures =>
    { fix with testClass := some failure.testClass, testMethod := some failure.testMethod }
      :: assignTests fixes failures

/-- The report of the fixes that a reply suggests for the failures of a summary. -/
def parse (now : String) (reply : String) (summary : ErrorSummary) (model : String) :
    FixReport :=
  let p := ((Text.lines reply.toList).map Line.ofText).foldl Progress.step {}
  let rootCause := joinedOr "See AI response for details" p.rootCause.reverse
  let verification := joinedOr "Run the test to verify the fix" p.verification.reverse
  let notes :=
    if p.notes.isEmpty then none
    else some (String.ofList (Text.joinWith [' '] p.notes.reverse))
  { metadata := {
      generatedAt := now
      totalFailures := summary.totals.totalFailures
      model := model }
    fixes := (assignTests p.fixes.reverse summary.failures).map fun fix =>
      { fix with rootCause, verification, notes }
    rawReply := reply }

end Reply

/-! ## Showing -/

namespace FixReport

/-- The code that a fix replaces, cut to fifty characters. -/
private def issue (fix : SuggestedFix) : String :=
  match fix.currentCode with
  | some code =>
    let characters := code.toList
    if characters.isEmpty then "Fix available"
    else if 50 < characters.length then String.ofList (characters.take 50) ++ "..."
    else code
  | none => "Fix available"

/-- A fix on one line. -/
def renderFix (place : Nat) (fix : SuggestedFix) : String :=
  let file := String.ofList (Text.afterLast '/' fix.filePath.toList)
  let line := (fix.line.map LineRef.toText).getD "?"
  let what := issue fix
  let test := match fix.testMethod with
    | some method => s!" (Test: {method})"
    | none => ""
  s!"  {place}. {file}:{line} - {what}{test}\n"

/-- The fixes of a report, a line each, and their number. -/
def render (report : FixReport) : String :=
  if report.fixes.isEmpty then
    "  No fixes were parsed from the AI response\n"
      ++ "  Review the raw AI response in the output file"
  else
    let count := report.fixes.length
    String.join (report.fixes.zipIdx.map fun (fix, index) => renderFix (index + 1) fix)
      ++ s!"\n  Total failures analyzed: {report.metadata.totalFailures}\n"
      ++ s!"  Fixes generated: {count}"

end FixReport

instance : JsonCodec LineRef where
  encode | .number n => encode n
         | .text s => encode s
  decode? | .string text => text.map LineRef.text
          | json => (decode? json).map LineRef.number

open Json in
instance : JsonCodec SuggestedFix where
  encode f := .object (
    member "file_path" f.filePath ++ memberIfSome "line_number" f.line ++
    memberIfSome "current_code" f.currentCode ++ memberIfSome "fixed_code" f.fixedCode ++
    memberIfSome "test_class" f.testClass ++ memberIfSome "test_method" f.testMethod ++
    member "root_cause" f.rootCause ++ member "verification" f.verification ++
    memberIfSome "additional_notes" f.notes)
  decode? json := do
    let [filePath, line, currentCode, fixedCode, testClass, testMethod, rootCause,
        verification, notes] ← fields? [
          must "file_path", may "line_number", may "current_code", may "fixed_code",
          may "test_class", may "test_method", must "root_cause", must "verification",
          may "additional_notes"] json
      | none
    some {
      filePath := ← required filePath
      line := ← nullable line
      currentCode := ← nullable currentCode
      fixedCode := ← nullable fixedCode
      testClass := ← nullable testClass
      testMethod := ← nullable testMethod
      rootCause := ← required rootCause
      verification := ← required verification
      notes := ← nullable notes }

open Json in
instance : JsonCodec FixMetadata where
  encode m := .object (
    member "generated_at" m.generatedAt ++ member "total_failures" m.totalFailures ++
    member "ai_model" m.model)
  decode? json := do
    let [generatedAt, totalFailures, model] ← fields? [
        must "generated_at", must "total_failures", must "ai_model"] json
      | none
    some {
      generatedAt := ← required generatedAt
      totalFailures := ← required totalFailures
      model := ← required model }

open Json in
instance : JsonCodec FixReport where
  encode r := .object (
    member "metadata" r.metadata ++ member "fixes" r.fixes ++
    member "raw_ai_response" r.rawReply)
  decode? json := do
    let [metadata, fixes, rawReply] ← fields? [
        must "metadata", must "fixes", must "raw_ai_response"] json
      | none
    some {
      metadata := ← required metadata
      fixes := ← required fixes
      rawReply := ← required rawReply }

end FailureTriage
