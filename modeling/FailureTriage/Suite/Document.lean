import FailureTriage.Failure.Text
import FailureTriage.Markup.Event
import FailureTriage.Suite.Basic

/-!
# Report documents

The suites of one test report, read from the events of its markup.  A document is a suite or holds
suites at any depth; they come out in the order in which they are closed.

* `ReportBuilder` is what is known while a document is read.
* `parseReport` reads a whole document.
-/

namespace FailureTriage

/-- Why a report cannot be read. -/
inductive ReportFault where
  /-- The markup is not well-formed. -/
  | markup
  /-- Attributes or character references cannot be read. -/
  | attributeOrReference
  /-- The document ends inside a suite. -/
  | unfinishedSuite
  deriving DecidableEq

/-- The words for a fault. -/
def ReportFault.message : ReportFault → String
  | .markup => "XML error"
  | .attributeOrReference => "attribute or escape error"
  | .unfinishedSuite => "unexpected end of document inside <testsuite>"

/-- A failure of a test case, with the text collected so far. -/
structure PendingFailure where
  kind : FailureKind
  failureType : String
  /-- The message attribute. -/
  message : Option String
  text : String := ""

/-- The test case that is open. -/
structure OpenCase where
  testClass : String
  testMethod : String
  time : Float
  failures : List PendingFailure := []
  systemOut : String := ""
  systemErr : String := ""

/-- Where text goes. -/
inductive TextTarget where
  | nowhere
  | failureText
  | systemOut
  | systemErr
  deriving DecidableEq

/-- A text without the blanks at its ends. -/
def trimmed (text : String) : String :=
  String.ofList (Text.trim text.toList)

/-- The record of one failure of a test case. -/
def PendingFailure.toRecord (testCase : OpenCase) (failure : PendingFailure) : FailureRecord :=
  let headline := String.ofList (FailureText.headline failure.text.toList)
  { testClass := testCase.testClass
    testMethod := testCase.testMethod
    kind := failure.kind
    failureType := failure.failureType
    message := (failure.message.filter (· ≠ "")).getD headline
    stackTrace := String.ofList (FailureText.body failure.text.toList)
    duration := testCase.time
    systemOut := trimmed testCase.systemOut
    systemErr := trimmed testCase.systemErr
    rawText := failure.text }

/-- The records of a test case's failures. -/
def OpenCase.toRecords (testCase : OpenCase) : List FailureRecord :=
  testCase.failures.map (PendingFailure.toRecord testCase)

/-- What is known while a report is read. -/
structure ReportBuilder where
  /-- The suites that are closed, the last one first. -/
  closed : List TestSuite := []
  /-- The suites that are open, the innermost first. -/
  opened : List TestSuite := []
  testCase : Option OpenCase := none
  pending : Option PendingFailure := none
  target : TextTarget := .nowhere

namespace ReportBuilder

open Markup

/-- The count in an attribute; zero if it is no count. -/
def countOf (attributes : Attributes) (key : String) : UInt32 :=
  let value := (attributes.get? key).bind fun v => Text.readNat? Text.maxWord32 (Text.trim v.toList)
  UInt32.ofNat (value.getD 0)

/-- The duration in an attribute, in which commas do not count; zero if it is no number. -/
def durationOf (attributes : Attributes) (key : String) : Float :=
  let value := (attributes.get? key).bind fun v =>
    Numeral.readFloat? ((Text.trim v.toList).filter (· != ','))
  value.getD 0.0

/-- The suite that the attributes of its tag describe. -/
def suiteOf (reportFile : Path) (attributes : Attributes) : TestSuite where
  name := attributes.getD "name" "Unknown"
  tests := countOf attributes "tests"
  failures := countOf attributes "failures"
  errors := countOf attributes "errors"
  skipped := countOf attributes "skipped"
  time := durationOf attributes "time"
  reportFile := reportFile

/-- The test case that the attributes of its tag describe. -/
def caseOf (attributes : Attributes) : OpenCase where
  testClass := attributes.getD "classname" "Unknown"
  testMethod := attributes.getD "name" "Unknown"
  time := durationOf attributes "time"

/-- The failure that the attributes of its tag describe. -/
def failureOf (kind : FailureKind) (attributes : Attributes) : PendingFailure where
  kind := kind
  failureType := attributes.getD "type" "Unknown"
  message := attributes.get? "message"

/-- The list with its first item changed. -/
def mapFirst {α : Type} (f : α → α) : List α → List α
  | [] => []
  | first :: rest => f first :: rest

/-- The innermost open suite gets a property that has a name and a value. -/
def addProperty (b : ReportBuilder) (attributes : Attributes) : ReportBuilder :=
  match attributes.get? "name", attributes.get? "value" with
  | some name, some value =>
    { b with opened :=
        mapFirst (fun s => { s with properties := s.properties.insert name value }) b.opened }
  | _, _ => b

/-- The open test case gets a failure. -/
def addFailure (b : ReportBuilder) (failure : PendingFailure) : ReportBuilder :=
  { b with testCase := b.testCase.map fun c => { c with failures := c.failures ++ [failure] } }

/-- Text goes where the last tag has sent it. -/
def addText (b : ReportBuilder) (text : String) : ReportBuilder :=
  match b.target with
  | .nowhere => b
  | .failureText => { b with pending := b.pending.map fun f => { f with text := f.text ++ text } }
  | .systemOut =>
    { b with testCase := b.testCase.map fun c => { c with systemOut := c.systemOut ++ text } }
  | .systemErr =>
    { b with testCase := b.testCase.map fun c => { c with systemErr := c.systemErr ++ text } }

/-- The attributes of a tag, or a fault. -/
def read (text : List Char) : Except ReportFault Attributes :=
  match attributes? text with
  | some attributes => .ok attributes
  | none => .error .attributeOrReference

/-- A start tag. -/
def start (b : ReportBuilder) (reportFile : Path) (name : String) (text : List Char) :
    Except ReportFault ReportBuilder := do
  if name = "testsuite" then
    let attributes ← read text
    return { b with opened := suiteOf reportFile attributes :: b.opened }
  else if name = "property" then
    return b.addProperty (← read text)
  else if name = "testcase" then
    let attributes ← read text
    return { b with testCase := some (caseOf attributes) }
  else if b.testCase.isNone then
    return b
  else if name = "system-out" then
    return { b with target := .systemOut }
  else if name = "system-err" then
    return { b with target := .systemErr }
  else match FailureKind.ofLabel? name with
    | some kind =>
      let attributes ← read text
      return { b with pending := some (failureOf kind attributes), target := .failureText }
    | none => return b

/-- A tag without content. -/
def selfClosed (b : ReportBuilder) (reportFile : Path) (name : String) (text : List Char) :
    Except ReportFault ReportBuilder := do
  if name = "testsuite" then
    let attributes ← read text
    return { b with closed := suiteOf reportFile attributes :: b.closed }
  else if name = "property" then
    return b.addProperty (← read text)
  else match FailureKind.ofLabel? name, b.testCase with
    | some kind, some _ =>
      let attributes ← read text
      return b.addFailure (failureOf kind attributes)
    | _, _ => return b

/-- An end tag. -/
def close (b : ReportBuilder) (name : String) : ReportBuilder :=
  if name = "testsuite" then
    match b.opened with
    | suite :: outer => { b with closed := suite :: b.closed, opened := outer }
    | [] => b
  else if name = "testcase" then
    let records := (b.testCase.map OpenCase.toRecords).getD []
    { b with
      opened := mapFirst (fun s => { s with testFailures := s.testFailures ++ records }) b.opened
      testCase := none
      target := .nowhere }
  else if name = "system-out" || name = "system-err" then
    { b with target := .nowhere }
  else if (FailureKind.ofLabel? name).isSome then
    let b := match b.pending with
      | some failure => b.addFailure failure
      | none => b
    { b with pending := none, target := .nowhere }
  else b

/-- One event of the document. -/
def step (reportFile : Path) (b : ReportBuilder) : Event → Except ReportFault ReportBuilder
  | .start name text => b.start reportFile name text
  | .selfClosed name text => b.selfClosed reportFile name text
  | .close name => .ok (b.close name)
  | .text raw =>
    match unescape? raw with
    | some text => .ok (b.addText (String.ofList text))
    | none => .error .attributeOrReference
  | .verbatim content => .ok (b.addText (String.ofList content))

end ReportBuilder

/-- The suites of a report document, or the first fault in it. -/
def parseReport (reportFile : Path) (document : String) : Except ReportFault (List TestSuite) := do
  let read := Markup.events document.toList
  let b ← read.events.foldlM (ReportBuilder.step reportFile) {}
  if !read.wellFormed then throw .markup
  else if !b.opened.isEmpty then throw .unfinishedSuite
  else return b.closed.reverse

end FailureTriage
