import FailureTriage.Proofs.Markup.Writing
import FailureTriage.Suite.Document

/-!
# Report trees

A report as a tree of suites, test cases and failures, together with the choices that its writer
has: which elements are written without content, how a failure text is put down, and what stands
between the elements without saying anything.

* `SuiteItem.write` is the markup of a tree.
* `SuiteItem.suites` are the suites of a tree, an inner suite before the one that holds it.
-/

namespace FailureTriage.ReportTree

open Markup

/-! ## Names -/

/-- A name that is spelled out. -/
def key (text : String)
    (h : text.toList ≠ [] ∧ text.toList.all isNameChar = true := by decide) : Name :=
  ⟨text, h.1, h.2⟩

/-- The names of the elements that mean something in a report. -/
def knownNames : List String :=
  ["testsuite", "property", "testcase", "system-out", "system-err", "failure", "error"]

/-- The tag of an element that means nothing in a report. -/
structure OtherTag extends Tag where
  unknown : name.text ∉ knownNames

/-! ## What says nothing -/

/-- What may stand between the elements of a report without a meaning. -/
inductive Filler where
  /-- Running text, such as white space. -/
  | text (content : String)
  | verbatim (content : Section)
  | comment (content : Comment)
  | instruction (content : Instruction)
  /-- Another element without content. -/
  | emptyElement (tag : OtherTag)
  /-- Another element, with nothing that means something in it. -/
  | element (tag : OtherTag) (content : List Filler)

mutual

/-- The markup of what says nothing. -/
def Filler.write : Filler → List Char
  | .text content => escape content.toList
  | .verbatim content => content.write
  | .comment content => content.write
  | .instruction content => content.write
  | .emptyElement tag => tag.selfClosed
  | .element tag content => tag.opening ++ (writeFillers content ++ tag.closing)

/-- The markup of several such things. -/
def writeFillers : List Filler → List Char
  | [] => []
  | filler :: rest => filler.write ++ writeFillers rest

end

/-! ## Test cases -/

/-- How the text of a failure is written. -/
inductive FailureContent where
  /-- Not at all: the tag has no content. -/
  | absent
  /-- As one run of text. -/
  | plain (text : String)
  /-- As sections one after another. -/
  | sections (parts : List Section)

/-- The text of sections one after another. -/
def joined (parts : List Section) : String :=
  String.ofList (parts.flatMap fun s => s.text.toList)

/-- The text of a failure; the blanks at the ends of a run of text do not belong to it. -/
def FailureContent.text : FailureContent → String
  | .absent => ""
  | .plain text => String.ofList (inner text.toList)
  | .sections parts => joined parts

/-- An element for a failure. -/
structure FailureElement where
  kind : FailureKind
  failureType : Option String
  message : Option String
  content : FailureContent

/-- The name of the element for a kind of failure. -/
def kindName : FailureKind → Name
  | .failure => key "failure"
  | .error => key "error"

namespace FailureElement

/-- The tag of the element. -/
def tag (f : FailureElement) : Tag where
  name := kindName f.kind
  attributes :=
    (f.message.map fun text => ⟨key "message", text⟩).toList
      ++ (f.failureType.map fun text => ⟨key "type", text⟩).toList

/-- The markup of the element. -/
def write (f : FailureElement) : List Char :=
  match f.content with
  | .absent => f.tag.selfClosed
  | .plain text => f.tag.opening ++ (escape text.toList ++ f.tag.closing)
  | .sections parts => f.tag.opening ++ (parts.flatMap Section.write ++ f.tag.closing)

end FailureElement

/-- The output that a test case leaves behind. -/
inductive OutputStream where
  | out
  | err
  deriving DecidableEq

/-- The tag of the element for an output. -/
def OutputStream.tag : OutputStream → Tag
  | .out => ⟨key "system-out", []⟩
  | .err => ⟨key "system-err", []⟩

/-- A child of a test case. -/
inductive CaseItem where
  | filler (f : Filler)
  | failure (f : FailureElement)
  /-- An output; without content it may also be written as one tag. -/
  | output (stream : OutputStream) (content : Option (List Section))

/-- The markup of a child of a test case. -/
def CaseItem.write : CaseItem → List Char
  | .filler f => f.write
  | .failure f => f.write
  | .output stream none => stream.tag.selfClosed
  | .output stream (some parts) =>
    stream.tag.opening ++ (parts.flatMap Section.write ++ stream.tag.closing)

/-- A test case; without children it may also be written as one tag. -/
structure TestCase where
  testClass : String
  testMethod : String
  time : String
  content : Option (List CaseItem)

namespace TestCase

/-- The tag of the test case. -/
def tag (c : TestCase) : Tag where
  name := key "testcase"
  attributes := [⟨key "name", c.testMethod⟩, ⟨key "classname", c.testClass⟩, ⟨key "time", c.time⟩]

/-- The markup of the test case. -/
def write (c : TestCase) : List Char :=
  match c.content with
  | none => c.tag.selfClosed
  | some items => c.tag.opening ++ (items.flatMap CaseItem.write ++ c.tag.closing)

/-- The children of the test case. -/
def items (c : TestCase) : List CaseItem :=
  c.content.getD []

end TestCase

/-- The elements for failures among the children of a test case. -/
def failuresOf (items : List CaseItem) : List FailureElement :=
  items.filterMap fun
    | .failure f => some f
    | _ => none

/-- All that the children of a test case say about an output, one text after another. -/
def outputOf (stream : OutputStream) (items : List CaseItem) : List Char :=
  items.flatMap fun
    | .output s (some parts) => if s = stream then (joined parts).toList else []
    | _ => []

/-- The seconds that the text of a duration stands for; commas in it do not count. -/
def seconds (time : String) : Float :=
  (Numeral.readFloat? ((Text.trim time.toList).filter (· != ','))).getD 0.0

/-- The record of a failure of a test case. -/
def TestCase.record (c : TestCase) (f : FailureElement) : FailureRecord where
  testClass := c.testClass
  testMethod := c.testMethod
  kind := f.kind
  failureType := f.failureType.getD "Unknown"
  message := (f.message.filter (· ≠ "")).getD
    (String.ofList (FailureText.headline f.content.text.toList))
  stackTrace := String.ofList (FailureText.body f.content.text.toList)
  duration := seconds c.time
  systemOut := String.ofList (Text.trim (outputOf .out c.items))
  systemErr := String.ofList (Text.trim (outputOf .err c.items))
  rawText := f.content.text

/-- One record for each failure of a test case, in their order. -/
def TestCase.records (c : TestCase) : List FailureRecord :=
  (failuresOf c.items).map c.record

/-! ## Suites -/

/-- What the tag of a suite says. -/
structure SuiteHead where
  name : String
  tests : UInt32
  failures : UInt32
  errors : UInt32
  skipped : UInt32
  time : String

/-- A count in decimal digits. -/
def countText (count : UInt32) : String :=
  String.ofList (Text.natDigits count.toNat)

/-- The tag of a suite. -/
def SuiteHead.tag (head : SuiteHead) : Tag where
  name := key "testsuite"
  attributes := [
    ⟨key "name", head.name⟩, ⟨key "tests", countText head.tests⟩,
    ⟨key "failures", countText head.failures⟩, ⟨key "errors", countText head.errors⟩,
    ⟨key "skipped", countText head.skipped⟩, ⟨key "time", head.time⟩]

/-- The tag of a property. -/
def propertyTag (name value : String) : Tag where
  name := key "property"
  attributes := [⟨key "name", name⟩, ⟨key "value", value⟩]

/-- A child of a suite, or a part of a whole document. -/
inductive SuiteItem where
  | filler (f : Filler)
  /-- A property; it is written as one tag, or as two. -/
  | property (name value : String) (asOneTag : Bool)
  | testCase (c : TestCase)
  /-- Another element, such as `properties` or `testsuites`; its children count as those of the
      element that it stands in. -/
  | group (tag : OtherTag) (content : List SuiteItem)
  /-- A suite that is written as one tag. -/
  | emptySuite (head : SuiteHead)
  | suite (head : SuiteHead) (content : List SuiteItem)

mutual

/-- The markup of a child of a suite. -/
def SuiteItem.write : SuiteItem → List Char
  | .filler f => f.write
  | .property name value true => (propertyTag name value).selfClosed
  | .property name value false =>
    (propertyTag name value).opening ++ (propertyTag name value).closing
  | .testCase c => c.write
  | .group tag content => tag.opening ++ (writeItems content ++ tag.closing)
  | .emptySuite head => head.tag.selfClosed
  | .suite head content => head.tag.opening ++ (writeItems content ++ head.tag.closing)

/-- The markup of several children of a suite. -/
def writeItems : List SuiteItem → List Char
  | [] => []
  | item :: rest => item.write ++ writeItems rest

end

mutual

/-- The properties that a child of a suite gives to it, with their values. -/
def SuiteItem.properties : SuiteItem → List (String × String)
  | .property name value _ => [(name, value)]
  | .group _ content => propertiesOf content
  | .filler _ | .testCase _ | .emptySuite _ | .suite _ _ => []

/-- The properties that the children of a suite give to it, in their order. -/
def propertiesOf : List SuiteItem → List (String × String)
  | [] => []
  | item :: rest => item.properties ++ propertiesOf rest

end

mutual

/-- The records that a child of a suite gives to it. -/
def SuiteItem.records : SuiteItem → List FailureRecord
  | .testCase c => c.records
  | .group _ content => recordsOf content
  | .filler _ | .property _ _ _ | .emptySuite _ | .suite _ _ => []

/-- The records that the children of a suite give to it, in their order. -/
def recordsOf : List SuiteItem → List FailureRecord
  | [] => []
  | item :: rest => item.records ++ recordsOf rest

end

/-- A suite as a reader of the report should have it. -/
def SuiteHead.result (head : SuiteHead) (file : Path) (content : List SuiteItem) : TestSuite where
  name := head.name
  tests := head.tests
  failures := head.failures
  errors := head.errors
  skipped := head.skipped
  time := seconds head.time
  reportFile := file
  testFailures := recordsOf content
  properties := NameMap.ofList (propertiesOf content)

mutual

/-- The suites of a tree, each after those inside it. -/
def SuiteItem.suites (file : Path) : SuiteItem → List TestSuite
  | .group _ content => suitesOf file content
  | .emptySuite head => [head.result file []]
  | .suite head content => suitesOf file content ++ [head.result file content]
  | .filler _ | .property _ _ _ | .testCase _ => []

/-- The suites of several trees. -/
def suitesOf (file : Path) : List SuiteItem → List TestSuite
  | [] => []
  | item :: rest => item.suites file ++ suitesOf file rest

end

end FailureTriage.ReportTree
