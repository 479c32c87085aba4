import FailureTriage.Proofs.Names.Tables
import FailureTriage.Proofs.Suite.Resumption
import FailureTriage.Proofs.Suite.Tree
import FailureTriage.Proofs.Text.Numbers

/-!
# Reports read back

Reading the markup of a report tree gives the suites of that tree.  The reading of each element is
one equation that holds whatever follows it, so that the reading of a tree is a fold over it.

* `resume_fillers`: what says nothing changes nothing.
* `resume_caseItems`, `resume_testCase`: a test case gives its records to the innermost suite.
* `resume_items`: the children of a suite.
* `parseReport_writeItems`: a whole document.
-/

namespace FailureTriage.ReportTree

open Markup ReportBuilder

variable {file : Path} {names : List (List Char)}

/-! ## Elements that mean nothing -/

/-- A name that means nothing is the name of no failure. -/
private theorem ofLabel?_unknown {name : String} (h : name ∉ knownNames) :
    FailureKind.ofLabel? name = none := by
  have hf : name ≠ "failure" := by rintro rfl; exact h (by decide)
  have he : name ≠ "error" := by rintro rfl; exact h (by decide)
  rw [FailureKind.ofLabel?, if_neg hf, if_neg he]

private theorem ne_known {name known : String} (h : name ∉ knownNames)
    (hknown : known ∈ knownNames) : name ≠ known := by
  rintro rfl
  exact h hknown

theorem start_other (b : ReportBuilder) (tag : OtherTag) :
    b.start file tag.name.text tag.attributeText = .ok b := by
  have h := tag.unknown
  rw [ReportBuilder.start, if_neg (ne_known h (by decide)), if_neg (ne_known h (by decide)),
    if_neg (ne_known h (by decide)), if_neg (ne_known h (by decide)),
    if_neg (ne_known h (by decide)), ofLabel?_unknown h]
  split <;> rfl

theorem selfClosed_other (b : ReportBuilder) (tag : OtherTag) :
    b.selfClosed file tag.name.text tag.attributeText = .ok b := by
  have h := tag.unknown
  rw [ReportBuilder.selfClosed, if_neg (ne_known h (by decide)),
    if_neg (ne_known h (by decide)), ofLabel?_unknown h]
  rfl

theorem close_other (b : ReportBuilder) (tag : OtherTag) : b.close tag.name.text = b := by
  have h := tag.unknown
  have hout : ¬ (tag.name.text = "system-out" || tag.name.text = "system-err") = true := by
    rw [Bool.or_eq_true, decide_eq_true_eq, decide_eq_true_eq]
    rintro (heq | heq)
    · exact ne_known h (by decide) heq
    · exact ne_known h (by decide) heq
  rw [ReportBuilder.close, if_neg (ne_known h (by decide)), if_neg (ne_known h (by decide)),
    if_neg hout, ofLabel?_unknown h]
  rfl

mutual

/-- What says nothing changes nothing, as long as no text is collected. -/
theorem resume_filler {b : ReportBuilder} (hb : b.target = .nowhere) :
    ∀ (filler : Filler) (names : List (List Char)) (text : List Char),
      b.resume file (filler.write ++ text) names = b.resume file text names
  | .text content, names, text => by
      have hmarkup : '<' ∉ escape content.toList := fun hmem => (ne_of_mem_escape hmem).1 rfl
      exact resume_text hb (unescape?_escape content.toList) hmarkup text
  | .verbatim content, names, text => by
      rw [Filler.write, resume_section, addText_nowhere hb]
  | .comment content, names, text => resume_comment content text
  | .instruction content, names, text => resume_instruction content text
  | .emptyElement tag, names, text => by
      rw [Filler.write, resume_selfClosed, selfClosed_other]
      rfl
  | .element tag content, names, text => by
      -- the tags change nothing, and what is between them is smaller
      rw [Filler.write, List.append_assoc, resume_opening, start_other]
      show b.resume file _ _ = _
      rw [List.append_assoc, resume_fillers hb content, resume_closing, close_other]

/-- Several things that say nothing change nothing. -/
theorem resume_fillers {b : ReportBuilder} (hb : b.target = .nowhere) :
    ∀ (fillers : List Filler) (names : List (List Char)) (text : List Char),
      b.resume file (writeFillers fillers ++ text) names = b.resume file text names
  | [], _, _ => rfl
  | filler :: rest, names, text => by
      rw [writeFillers, List.append_assoc, resume_filler hb filler, resume_fillers hb rest]

end

/-- A text that is cut into sections is all in them. -/
theorem joined_cut (text : String) : joined (Section.cut text.toList) = text := by
  have hpush : ∀ (c : Char) (parts : List Section),
      (joined (Section.push c parts)).toList = c :: (joined parts).toList := by
    intro c parts
    cases parts with
    | nil => simp [Section.push, Section.single, joined]
    | cons s parts =>
        rw [Section.push]
        split <;> simp [Section.single, joined]
  have hcut : ∀ chars : List Char, (joined (Section.cut chars)).toList = chars := by
    intro chars
    induction chars with
    | nil => rfl
    | cons c chars ih =>
        show (joined (Section.push c (Section.cut chars))).toList = _
        rw [hpush, ih]
  rw [← String.toList_inj, hcut]

/-- Sections one after another are collected as one text. -/
theorem resume_sections (b : ReportBuilder) (parts : List Section) (text : List Char) :
    b.resume file (parts.flatMap Section.write ++ text) names
      = (b.addText (joined parts)).resume file text names := by
  induction parts generalizing b with
  | nil =>
      rw [show joined [] = "" from rfl, addText_empty]
      rfl
  | cons s parts ih =>
      have hjoined : joined (s :: parts) = s.text ++ joined parts := by
        simp [joined, String.ofList_append]
      rw [List.flatMap_cons, List.append_assoc, resume_section, ih, addText_append, hjoined]

/-! ## Test cases -/

/-- A builder between the children of a suite. -/
def between (closed opened : List TestSuite) : ReportBuilder :=
  { closed := closed, opened := opened }

/-- A builder between the children of a test case. -/
def inCase (closed opened : List TestSuite) (c : OpenCase) : ReportBuilder :=
  { closed := closed, opened := opened, testCase := some c }

/-- A failure as the builder holds it. -/
def FailureElement.pending (f : FailureElement) : PendingFailure where
  kind := f.kind
  failureType := f.failureType.getD "Unknown"
  message := f.message
  text := f.content.text

/-- A test case with one more of its children read. -/
def CaseItem.addTo (c : OpenCase) : CaseItem → OpenCase
  | .filler _ => c
  | .failure f => { c with failures := c.failures ++ [f.pending] }
  | .output .out content => { c with systemOut := c.systemOut ++ joined (content.getD []) }
  | .output .err content => { c with systemErr := c.systemErr ++ joined (content.getD []) }

variable {closed opened : List TestSuite} {c : OpenCase}

private theorem read_tag (tag : Tag) : ReportBuilder.read tag.attributeText = .ok tag.pairs := by
  rw [ReportBuilder.read, attributes?_attributeText]

/-- The failure that a tag describes, before its text is read. -/
private theorem failureOf_tag (f : FailureElement) :
    failureOf f.kind f.tag.pairs = { f.pending with text := "" } := by
  obtain ⟨kind, failureType, message, content⟩ := f
  cases failureType <;> cases message <;> rfl

/-- The tag of a failure opens it, and its text is collected. -/
private theorem start_failure (f : FailureElement) :
    (inCase closed opened c).start file f.tag.name.text f.tag.attributeText
      = .ok { inCase closed opened c with
          pending := some { f.pending with text := "" }, target := .failureText } := by
  rw [← failureOf_tag]
  obtain ⟨kind, failureType, message, content⟩ := f
  cases kind <;> (simp only [ReportBuilder.start, read_tag]; rfl)

private theorem selfClosed_failure (f : FailureElement) :
    (inCase closed opened c).selfClosed file f.tag.name.text f.tag.attributeText
      = .ok ((inCase closed opened c).addFailure { f.pending with text := "" }) := by
  rw [← failureOf_tag]
  obtain ⟨kind, failureType, message, content⟩ := f
  cases kind <;> (simp only [ReportBuilder.selfClosed, read_tag]; rfl)

/-- The end of a failure gives it to its test case, with the text that was collected. -/
private theorem close_failure (f : FailureElement) :
    ((({ inCase closed opened c with
          pending := some { f.pending with text := "" }, target := .failureText } :
        ReportBuilder).addText f.content.text).close f.tag.name.text)
      = inCase closed opened (CaseItem.addTo c (.failure f)) := by
  obtain ⟨kind, failureType, message, content⟩ := f
  have hempty : "" ++ content.text = content.text := String.empty_append
  cases kind <;>
    simp [ReportBuilder.close, addText, inCase, addFailure, CaseItem.addTo,
      FailureElement.pending, FailureElement.tag, kindName, key, FailureKind.ofLabel?, hempty]

/-- **A failure** becomes the last failure of its test case. -/
theorem resume_failure (f : FailureElement) (text : List Char) :
    (inCase closed opened c).resume file (f.write ++ text) names
      = (inCase closed opened (CaseItem.addTo c (.failure f))).resume file text names := by
  rw [FailureElement.write]
  cases hcontent : f.content with
  | absent =>
      have hpending : { f.pending with text := "" } = f.pending := by
        rw [FailureElement.pending, hcontent]
        rfl
      dsimp only
      rw [resume_selfClosed, selfClosed_failure, hpending]
      rfl
  | plain content =>
      -- the text is collected between the tags, and goes to the failure at the end tag
      dsimp only
      rw [List.append_assoc, resume_opening, start_failure, List.append_assoc]
      show ReportBuilder.resume file _ (escape content.toList ++ '<' :: _) _ = _
      rw [resume_collected, ← close_failure, hcontent]
      exact resume_closing f.tag text
  | sections parts =>
      dsimp only
      rw [List.append_assoc, resume_opening, start_failure, List.append_assoc]
      show ReportBuilder.resume file _ (parts.flatMap Section.write ++ _) _ = _
      rw [resume_sections, ← close_failure, hcontent]
      exact resume_closing f.tag text

/-- **An output** is added to what the test case has of it. -/
theorem resume_output (stream : OutputStream) (content : Option (List Section))
    (text : List Char) :
    (inCase closed opened c).resume file ((CaseItem.output stream content).write ++ text) names
      = (inCase closed opened (CaseItem.addTo c (.output stream content))).resume file text
          names := by
  cases content with
  | none =>
      rw [CaseItem.write, resume_selfClosed]
      cases stream
      · show (inCase closed opened c).resume file text names
          = (inCase closed opened { c with systemOut := c.systemOut ++ "" }).resume file text names
        rw [String.append_empty]
      · show (inCase closed opened c).resume file text names
          = (inCase closed opened { c with systemErr := c.systemErr ++ "" }).resume file text names
        rw [String.append_empty]
  | some parts =>
      rw [CaseItem.write, List.append_assoc, resume_opening]
      cases stream
      · show ReportBuilder.resume file { inCase closed opened c with target := .systemOut } _ _ = _
        rw [List.append_assoc, resume_sections]
        exact resume_closing OutputStream.out.tag text
      · show ReportBuilder.resume file { inCase closed opened c with target := .systemErr } _ _ = _
        rw [List.append_assoc, resume_sections]
        exact resume_closing OutputStream.err.tag text

/-- The children of a test case are read one after another. -/
theorem resume_caseItems (items : List CaseItem) (text : List Char) :
    (inCase closed opened c).resume file (items.flatMap CaseItem.write ++ text) names
      = (inCase closed opened (items.foldl CaseItem.addTo c)).resume file text names := by
  induction items generalizing c with
  | nil => rfl
  | cons item items ih =>
      rw [List.flatMap_cons, List.append_assoc, List.foldl_cons, ← ih]
      cases item with
      | filler f => exact resume_filler rfl f names _
      | failure f => exact resume_failure f _
      | output stream content => exact resume_output stream content _

/-- What the children of a test case add up to. -/
private theorem foldl_addTo (items : List CaseItem) :
    items.foldl CaseItem.addTo c
      = { c with
          failures := c.failures ++ (failuresOf items).map FailureElement.pending
          systemOut := c.systemOut ++ String.ofList (outputOf .out items)
          systemErr := c.systemErr ++ String.ofList (outputOf .err items) } := by
  induction items generalizing c with
  | nil => simp [failuresOf, outputOf]
  | cons item items ih =>
      rw [List.foldl_cons, ih]
      rcases item with f | f | ⟨stream, content⟩
      · rfl
      · simp [CaseItem.addTo, failuresOf, outputOf]
      · cases stream <;> cases content <;>
          simp [CaseItem.addTo, failuresOf, outputOf, joined, String.append_assoc,
            String.ofList_append]

/-- The test case that the tag describes, before any of its children is read. -/
private theorem caseOf_tag (c : TestCase) :
    caseOf c.tag.pairs
      = { testClass := c.testClass, testMethod := c.testMethod, time := seconds c.time } :=
  rfl

/-- A test case that is read to its end has the records that it was written for. -/
private theorem toRecords_caseOf (c : TestCase) :
    (c.items.foldl CaseItem.addTo (caseOf c.tag.pairs)).toRecords = c.records := by
  rw [foldl_addTo, caseOf_tag, OpenCase.toRecords, TestCase.records]
  dsimp only
  rw [List.nil_append, List.map_map]
  refine List.map_congr_left fun f _ => ?_
  simp [PendingFailure.toRecord, FailureElement.pending, TestCase.record, trimmed]

/-- A suite with some more of its children read. -/
def addContent (properties : List (String × String)) (records : List FailureRecord)
    (s : TestSuite) : TestSuite :=
  { s with
    properties := properties.foldl (fun map entry => map.insert entry.1 entry.2) s.properties
    testFailures := s.testFailures ++ records }

theorem mapFirst_addContent_nil : mapFirst (addContent [] []) opened = opened := by
  cases opened with
  | nil => rfl
  | cons suite outer => simp [mapFirst, addContent]

theorem mapFirst_addContent (first second : List (String × String))
    (before after : List FailureRecord) :
    mapFirst (addContent second after) (mapFirst (addContent first before) opened)
      = mapFirst (addContent (first ++ second) (before ++ after)) opened := by
  cases opened with
  | nil => rfl
  | cons suite outer => simp [mapFirst, addContent]

/-- **A test case** gives its records to the innermost suite. -/
theorem resume_testCase (c : TestCase) (text : List Char) :
    (between closed opened).resume file (c.write ++ text) names
      = (between closed (mapFirst (addContent [] c.records) opened)).resume file text names := by
  rw [TestCase.write]
  cases hcontent : c.content with
  | none =>
      -- a test case without content is not even opened: it has no record to give
      have hrecords : c.records = [] := by
        rw [TestCase.records, TestCase.items, hcontent]
        rfl
      have hsame : mapFirst (addContent [] c.records) opened = opened := by
        rw [hrecords, mapFirst_addContent_nil]
      dsimp only
      rw [resume_selfClosed, hsame]
      rfl
  | some items =>
      have hitems : c.items = items := by rw [TestCase.items, hcontent]; rfl
      have hstart : (between closed opened).start file c.tag.name.text c.tag.attributeText
          = .ok (inCase closed opened (caseOf c.tag.pairs)) := by
        simp only [ReportBuilder.start, read_tag]
        rfl
      dsimp only
      rw [List.append_assoc, resume_opening, hstart, List.append_assoc]
      show (inCase closed opened (caseOf c.tag.pairs)).resume file _ _ = _
      rw [resume_caseItems, resume_closing, ← toRecords_caseOf, hitems]
      rfl

/-! ## Suites -/

private theorem countOf_countText {attributes : Attributes} {name : String} (count : UInt32)
    (h : attributes.get? name = some (countText count)) : countOf attributes name = count := by
  have hcount : count.toNat ≤ Text.maxWord32 := Nat.le_of_lt_succ count.toNat_lt
  rw [countOf, h]
  show UInt32.ofNat ((Text.readNat? _ (Text.trim (countText count).toList)).getD 0) = count
  rw [countText, String.toList_ofList, Text.readNat?_natDigits hcount]
  exact UInt32.ofNat_toNat

/-- A suite without children, as its tag describes it. -/
private theorem suiteOf_tag (head : SuiteHead) :
    suiteOf file head.tag.pairs = head.result file [] := by
  rw [suiteOf, countOf_countText head.tests rfl, countOf_countText head.failures rfl,
    countOf_countText head.errors rfl, countOf_countText head.skipped rfl]
  rfl

/-- A suite with children is the suite without them, with its children read. -/
private theorem addContent_result (head : SuiteHead) (content : List SuiteItem) :
    addContent (propertiesOf content) (recordsOf content) (head.result file [])
      = head.result file content := by
  rw [addContent, SuiteHead.result, SuiteHead.result]
  dsimp only
  rw [show recordsOf [] = [] from rfl, List.nil_append]
  rfl

private theorem start_suite (head : SuiteHead) :
    (between closed opened).start file head.tag.name.text head.tag.attributeText
      = .ok (between closed (head.result file [] :: opened)) := by
  rw [← suiteOf_tag]
  simp only [ReportBuilder.start, read_tag]
  rfl

private theorem selfClosed_suite (head : SuiteHead) :
    (between closed opened).selfClosed file head.tag.name.text head.tag.attributeText
      = .ok (between (head.result file [] :: closed) opened) := by
  rw [← suiteOf_tag]
  simp only [ReportBuilder.selfClosed, read_tag]
  rfl

/-- **A property** is put among those of the innermost suite. -/
theorem resume_property (name value : String) (asOneTag : Bool) (text : List Char) :
    (between closed opened).resume file ((SuiteItem.property name value asOneTag).write ++ text)
        names
      = (between closed (mapFirst (addContent [(name, value)] []) opened)).resume file text
          names := by
  have hadd : (between closed opened).addProperty (propertyTag name value).pairs
      = between closed (mapFirst (addContent [(name, value)] []) opened) := by
    cases opened with
    | nil => rfl
    | cons suite outer =>
        show between closed (_ :: outer) = between closed (addContent _ _ suite :: outer)
        rw [addContent, List.append_nil]
        rfl
  cases asOneTag with
  | true =>
      have hclosed : (between closed opened).selfClosed file (propertyTag name value).name.text
          (propertyTag name value).attributeText
          = .ok ((between closed opened).addProperty (propertyTag name value).pairs) := by
        simp only [ReportBuilder.selfClosed, read_tag]
        rfl
      rw [SuiteItem.write, resume_selfClosed, hclosed, hadd]
      rfl
  | false =>
      have hstart : (between closed opened).start file (propertyTag name value).name.text
          (propertyTag name value).attributeText
          = .ok ((between closed opened).addProperty (propertyTag name value).pairs) := by
        simp only [ReportBuilder.start, read_tag]
        rfl
      rw [SuiteItem.write, List.append_assoc, resume_opening, hstart, hadd]
      exact resume_closing (propertyTag name value) text

mutual

/-- **A child of a suite** gives its properties and records to the innermost suite, and its own
    suites are closed. -/
theorem resume_item :
    ∀ (item : SuiteItem) (closed opened : List TestSuite) (names : List (List Char))
      (text : List Char),
      (between closed opened).resume file (item.write ++ text) names
        = (between ((item.suites file).reverse ++ closed)
            (mapFirst (addContent item.properties item.records) opened)).resume file text names
  | .filler f, closed, opened, names, text => by
      rw [SuiteItem.write, resume_filler rfl, SuiteItem.properties, SuiteItem.records,
        mapFirst_addContent_nil]
      rfl
  | .property name value asOneTag, closed, opened, names, text => by
      rw [resume_property]
      rfl
  | .testCase c, closed, opened, names, text => by
      rw [SuiteItem.write, resume_testCase]
      rfl
  | .group tag content, closed, opened, names, text => by
      -- the element says nothing itself: its children belong to the suite around it
      rw [SuiteItem.write, List.append_assoc, resume_opening, start_other, List.append_assoc]
      show (between closed opened).resume file _ _ = _
      rw [resume_items content, resume_closing, close_other]
      rfl
  | .emptySuite head, closed, opened, names, text => by
      rw [SuiteItem.write, resume_selfClosed, selfClosed_suite, SuiteItem.properties,
        SuiteItem.records, mapFirst_addContent_nil]
      rfl
  | .suite head content, closed, opened, names, text => by
      -- its children go to the suite that it opens, and its end tag closes that suite
      rw [SuiteItem.write, List.append_assoc, resume_opening, start_suite, List.append_assoc]
      show (between closed (head.result file [] :: opened)).resume file _ _ = _
      rw [resume_items content, resume_closing, mapFirst, addContent_result, SuiteItem.properties,
        SuiteItem.records, mapFirst_addContent_nil, SuiteItem.suites, List.reverse_append]
      rfl

/-- The children of a suite are read one after another. -/
theorem resume_items :
    ∀ (items : List SuiteItem) (closed opened : List TestSuite) (names : List (List Char))
      (text : List Char),
      (between closed opened).resume file (writeItems items ++ text) names
        = (between ((suitesOf file items).reverse ++ closed)
            (mapFirst (addContent (propertiesOf items) (recordsOf items)) opened)).resume file text
            names
  | [], closed, opened, names, text => by
      rw [propertiesOf, recordsOf, mapFirst_addContent_nil]
      rfl
  | item :: rest, closed, opened, names, text => by
      rw [writeItems, List.append_assoc, resume_item item, resume_items rest,
        mapFirst_addContent, suitesOf, List.reverse_append, List.append_assoc]
      rfl

end

/-- **Reading a document undoes writing it**: the suites of the tree come out, each after those
    inside it, and of several properties with one name the last one counts.  No text is beyond
    sections, so that each failure and each output has a document. -/
theorem parseReport_writeItems (file : Path) (document : List SuiteItem) :
    parseReport file (String.ofList (writeItems document)) = .ok (suitesOf file document)
      ∧ (∀ (head : SuiteHead) (content : List SuiteItem) (name : String),
          (head.result file content).properties.get? name
            = (propertiesOf content).reverse.lookup name)
      ∧ ∀ text : String, joined (Section.cut text.toList) = text := by
  refine ⟨?_, ?_, joined_cut⟩
  · have hread := @resume_items file document [] [] [] []
    rw [List.append_nil, List.append_nil] at hread
    rw [parseReport_eq_resume]
    show (between [] []).resume file _ _ = _
    rw [hread, resume_end List.not_mem_nil]
    -- suites are closed to the front of the list
    show Except.ok (suitesOf file document).reverse.reverse = _
    rw [List.reverse_reverse]
  · intro head content name
    exact NameMap.get?_ofList (propertiesOf content) name

end FailureTriage.ReportTree
