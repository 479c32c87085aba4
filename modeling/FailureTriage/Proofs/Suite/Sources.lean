import FailureTriage.Proofs.Markup.Elements
import FailureTriage.Proofs.Suite.Resumption

/-!
# Where the suites of a report come from

Every suite and every record that is read from a report stems from tags of its document.  A
`Sources` value says for all that a builder holds which tags these are; it never loses track while
a report is read, and no tag becomes the source of two records.

* `Sources.builder` is the builder that is in a state, with all its sources.
* `Sources.Valid`: each source is a tag with the right name, in the right element.
* `Sources.Follows`: besides, what is open in the builder is what is open in the document.
* `Sources.after`, `stepAll_eventsOf`: the sources after some pieces, and what is built of them.
-/

namespace FailureTriage

open Markup

/-! ## Sources -/

/-- The tag of a failure, and the text that has been collected in its element. -/
structure FailureSource where
  place : Nat
  kind : FailureKind
  attributes : Attributes
  text : String := ""

/-- The failure that a tag describes. -/
def FailureSource.failure (s : FailureSource) : PendingFailure :=
  { ReportBuilder.failureOf s.kind s.attributes with text := s.text }

/-- The tag of a test case, and what has been collected in its element. -/
structure CaseSource where
  place : Nat
  attributes : Attributes
  failures : List FailureSource := []
  systemOut : String := ""
  systemErr : String := ""

/-- The test case that a tag describes. -/
def CaseSource.testCase (s : CaseSource) : OpenCase :=
  { ReportBuilder.caseOf s.attributes with
    failures := s.failures.map (·.failure)
    systemOut := s.systemOut
    systemErr := s.systemErr }

/-- The tag of a suite, and what has been collected in its element. -/
structure SuiteSource where
  place : Nat
  attributes : Attributes
  properties : NameMap := ∅
  /-- The failures, each with its test case. -/
  records : List (CaseSource × FailureSource) := []

/-- The suite that a tag describes, with its records. -/
def SuiteSource.suite (file : Path) (s : SuiteSource) : TestSuite :=
  { ReportBuilder.suiteOf file s.attributes with
    properties := s.properties
    testFailures := s.records.map fun r => r.2.failure.toRecord r.1.testCase }

/-- The places of the tags that the records of a suite stem from. -/
def SuiteSource.places (s : SuiteSource) : List Nat :=
  s.records.map (·.2.place)

/-- The places of the tags that the failures of a test case stem from. -/
def CaseSource.places (s : CaseSource) : List Nat :=
  s.failures.map (·.place)

/-- The sources of all that a builder holds. -/
structure Sources where
  closed : List SuiteSource := []
  opened : List SuiteSource := []
  testCase : Option CaseSource := none
  pending : Option FailureSource := none

namespace Sources

/-- The builder that holds what stems from some sources. -/
def builder (file : Path) (s : Sources) (target : TextTarget) : ReportBuilder where
  closed := s.closed.map (·.suite file)
  opened := s.opened.map (·.suite file)
  testCase := s.testCase.map (·.testCase)
  pending := s.pending.map (·.failure)
  target := target

/-- The places of the tags that all failures stem from, those that are pending apart. -/
def places (s : Sources) : List Nat :=
  (s.testCase.map (·.places)).getD [] ++ (s.opened ++ s.closed).flatMap (·.places)

end Sources

/-! ## Tags and elements -/

/-- A start tag, or a tag without content, with attributes that can be read. -/
def TagAt (ps : List Piece) (place : Nat) (name : String) (attributes : Attributes) : Prop :=
  ∃ text, attributes? text = some attributes
    ∧ (eventAt? ps place = some (.start name text)
      ∨ eventAt? ps place = some (.selfClosed name text))

/-- A failure in a test case. -/
structure FailureSource.In (s : FailureSource) (ps : List Piece) (testCase : Nat) : Prop where
  tag : TagAt ps s.place s.kind.label s.attributes
  inCase : enclosing? ps "testcase" s.place = some testCase

/-- A failure in a test case of a suite. -/
structure RecordIn (ps : List Piece) (suite : Nat) (r : CaseSource × FailureSource) : Prop where
  caseTag : TagAt ps r.1.place "testcase" r.1.attributes
  inSuite : enclosing? ps "testsuite" r.1.place = some suite
  failure : r.2.In ps r.1.place

/-- A suite, with all its records from its own element. -/
structure SuiteSource.Valid (s : SuiteSource) (ps : List Piece) : Prop where
  tag : TagAt ps s.place "testsuite" s.attributes
  records : ∀ r ∈ s.records, RecordIn ps s.place r

/-- Every source is a tag of its element, and no tag is the source of two records. -/
structure Sources.Valid (s : Sources) (ps : List Piece) : Prop where
  suites : ∀ suite ∈ s.opened ++ s.closed, suite.Valid ps
  caseTag : ∀ c ∈ s.testCase, TagAt ps c.place "testcase" c.attributes
  failures : ∀ c ∈ s.testCase, ∀ f ∈ c.failures, f.In ps c.place
  pendingTag : ∀ f ∈ s.pending, TagAt ps f.place f.kind.label f.attributes
  distinct : s.places.Nodup

/-- The sources follow some pieces: what is open in the builder is open in the document, and what
    is closed is closed. -/
structure Sources.Follows (s : Sources) (ps : List Piece) : Prop extends s.Valid ps where
  closed : s.closed.reverse.map (·.place) = (elements ps "testsuite").map Prod.fst
  opened : s.opened.map (·.place) = openNamed ps "testsuite"
  caseOpen : ∀ c ∈ s.testCase, (openNamed ps "testcase").head? = some c.place
  pendingOpen : ∀ f ∈ s.pending, f.place ∈ openTags ps ∧ startName? ps f.place = some f.kind.label
  /-- No failure that is open in the test case has begun after the one that is pending. -/
  last : ∀ f ∈ s.pending, ∀ c ∈ s.testCase, ∀ i ∈ openTags ps, ∀ kind : FailureKind,
    startName? ps i = some kind.label → c.place < i → i ≤ f.place
  past : ∀ i ∈ s.places, i < ps.length ∧ i ∉ openTags ps

variable {file : Path} {ps : List Piece} {p : Piece} {s : Sources}

theorem TagAt.lt {place : Nat} {name : String} {attributes : Attributes}
    (h : TagAt ps place name attributes) : place < ps.length := by
  obtain ⟨text, -, hevent | hevent⟩ := h
  · exact lt_of_eventAt? hevent
  · exact lt_of_eventAt? hevent

theorem TagAt.append {place : Nat} {name : String} {attributes : Attributes}
    (h : TagAt ps place name attributes) (more : List Piece) :
    TagAt (ps ++ more) place name attributes := by
  obtain ⟨text, hread, hevent⟩ := id h
  rw [← @eventAt?_append ps more place h.lt] at hevent
  exact ⟨text, hread, hevent⟩

theorem FailureSource.In.append {f : FailureSource} {testCase : Nat} (h : f.In ps testCase)
    (more : List Piece) : f.In (ps ++ more) testCase where
  tag := h.tag.append more
  inCase := by rw [enclosing?_append (Nat.le_of_lt h.tag.lt), h.inCase]

theorem RecordIn.append {suite : Nat} {r : CaseSource × FailureSource} (h : RecordIn ps suite r)
    (more : List Piece) : RecordIn (ps ++ more) suite r where
  caseTag := h.caseTag.append more
  inSuite := by rw [enclosing?_append (Nat.le_of_lt h.caseTag.lt), h.inSuite]
  failure := h.failure.append more

theorem SuiteSource.Valid.append {suite : SuiteSource} (h : suite.Valid ps) (more : List Piece) :
    suite.Valid (ps ++ more) where
  tag := h.tag.append more
  records := fun r hr => (h.records r hr).append more

theorem Sources.Valid.append (h : s.Valid ps) (more : List Piece) : s.Valid (ps ++ more) where
  suites := fun suite hsuite => (h.suites suite hsuite).append more
  caseTag := fun c hc => (h.caseTag c hc).append more
  failures := fun c hc f hf => (h.failures c hc f hf).append more
  pendingTag := fun f hf => (h.pendingTag f hf).append more
  distinct := h.distinct

/-! ## What each event does to the sources -/

namespace FailureKind

theorem ofLabel?_eq_some {name : String} {kind : FailureKind} (h : ofLabel? name = some kind) :
    name = kind.label := by
  rw [ofLabel?] at h
  split at h
  · rename_i hname
    rw [hname, ← Option.some.inj h]
    rfl
  · split at h
    · rename_i hname
      rw [hname, ← Option.some.inj h]
      rfl
    · cases h

theorem ofLabel?_eq_none {name : String} (h : ofLabel? name = none) (kind : FailureKind) :
    name ≠ kind.label := by
  rintro rfl
  cases kind <;> exact absurd h (by decide)

theorem ofLabel?_label (kind : FailureKind) : ofLabel? kind.label = some kind := by
  cases kind <;> decide

theorem label_ne_testsuite (kind : FailureKind) : kind.label ≠ "testsuite" := by
  cases kind <;> decide

theorem label_ne_testcase (kind : FailureKind) : kind.label ≠ "testcase" := by
  cases kind <;> decide

theorem label_ne_property (kind : FailureKind) : kind.label ≠ "property" := by
  cases kind <;> decide

theorem label_ne_output (kind : FailureKind) :
    kind.label ≠ "system-out" ∧ kind.label ≠ "system-err" := by
  cases kind <;> decide

end FailureKind

namespace Sources

/-- A suite is opened. -/
def openSuite (s : Sources) (place : Nat) (attributes : Attributes) : Sources :=
  { s with opened := { place, attributes } :: s.opened }

/-- A suite without content is closed at once. -/
def emptySuite (s : Sources) (place : Nat) (attributes : Attributes) : Sources :=
  { s with closed := { place, attributes } :: s.closed }

/-- The innermost suite is closed. -/
def closeSuite (s : Sources) : Sources :=
  match s.opened with
  | suite :: outer => { s with closed := suite :: s.closed, opened := outer }
  | [] => s

/-- A test case is opened. -/
def openCase (s : Sources) (place : Nat) (attributes : Attributes) : Sources :=
  { s with testCase := some { place, attributes } }

/-- The failures of the test case, each with the test case. -/
def caseRecords (s : Sources) : List (CaseSource × FailureSource) :=
  (s.testCase.map fun c => c.failures.map (c, ·)).getD []

theorem mem_caseRecords {s : Sources} {r : CaseSource × FailureSource} (h : r ∈ s.caseRecords) :
    r.1 ∈ s.testCase ∧ r.2 ∈ r.1.failures := by
  rw [caseRecords] at h
  cases hcase : s.testCase with
  | none =>
      rw [hcase] at h
      cases h
  | some c =>
      rw [hcase] at h
      obtain ⟨failure, hfailure, rfl⟩ := List.mem_map.mp h
      exact ⟨rfl, hfailure⟩

/-- The test case is closed, and its records go to the innermost suite. -/
def closeCase (s : Sources) : Sources :=
  { s with
    opened := ReportBuilder.mapFirst
      (fun suite => { suite with records := suite.records ++ s.caseRecords }) s.opened
    testCase := none }

/-- A failure is opened. -/
def openFailure (s : Sources) (place : Nat) (kind : FailureKind) (attributes : Attributes) :
    Sources :=
  { s with pending := some { place, kind, attributes } }

/-- The test case gets a failure. -/
def addFailure (s : Sources) (failure : FailureSource) : Sources :=
  { s with testCase := s.testCase.map fun c => { c with failures := c.failures ++ [failure] } }

/-- A failure is closed. -/
def closeFailure (s : Sources) : Sources :=
  let s := match s.pending with
    | some failure => s.addFailure failure
    | none => s
  { s with pending := none }

/-- The innermost suite gets a property that has a name and a value. -/
def addProperty (s : Sources) (attributes : Attributes) : Sources :=
  match attributes.get? "name", attributes.get? "value" with
  | some name, some value =>
    { s with
      opened := ReportBuilder.mapFirst
        (fun suite => { suite with properties := suite.properties.insert name value }) s.opened }
  | _, _ => s

/-- Text goes where the last tag has sent it. -/
def addText (s : Sources) (target : TextTarget) (text : String) : Sources :=
  match target with
  | .nowhere => s
  | .failureText => { s with pending := s.pending.map fun f => { f with text := f.text ++ text } }
  | .systemOut =>
    { s with testCase := s.testCase.map fun c => { c with systemOut := c.systemOut ++ text } }
  | .systemErr =>
    { s with testCase := s.testCase.map fun c => { c with systemErr := c.systemErr ++ text } }

variable {target : TextTarget}

theorem builder_closeSuite :
    (s.builder file target).close "testsuite" = s.closeSuite.builder file target := by
  obtain ⟨closed, opened, testCase, pending⟩ := s
  cases opened <;> rfl

theorem builder_addFailure (failure : FailureSource) :
    (s.builder file target).addFailure failure.failure
      = (s.addFailure failure).builder file target := by
  obtain ⟨closed, opened, testCase, pending⟩ := s
  cases testCase with
  | none => rfl
  | some c => simp [builder, addFailure, ReportBuilder.addFailure, CaseSource.testCase]

theorem builder_closeCase :
    (s.builder file target).close "testcase" = s.closeCase.builder file .nowhere := by
  obtain ⟨closed, opened, testCase, pending⟩ := s
  cases opened <;> cases testCase <;>
    simp [builder, closeCase, caseRecords, ReportBuilder.close, ReportBuilder.mapFirst,
      SuiteSource.suite, OpenCase.toRecords, CaseSource.testCase]

theorem builder_closeFailure (kind : FailureKind) :
    (s.builder file target).close kind.label = s.closeFailure.builder file .nowhere := by
  obtain ⟨closed, opened, testCase, pending⟩ := s
  cases kind <;> cases pending <;> cases testCase <;>
    simp [builder, closeFailure, addFailure, ReportBuilder.close, ReportBuilder.addFailure,
      FailureKind.label, FailureKind.ofLabel?, CaseSource.testCase]

theorem builder_addProperty (attributes : Attributes) :
    (s.builder file target).addProperty attributes
      = (s.addProperty attributes).builder file target := by
  obtain ⟨closed, opened, testCase, pending⟩ := s
  rw [ReportBuilder.addProperty, addProperty]
  cases attributes.get? "name" with
  | none => rfl
  | some name =>
      cases attributes.get? "value" with
      | none => rfl
      | some value => cases opened <;> rfl

theorem builder_addText (text : String) :
    (s.builder file target).addText text = (s.addText target text).builder file target := by
  obtain ⟨closed, opened, testCase, pending⟩ := s
  cases target <;> cases testCase <;> cases pending <;> rfl

/-! ## Following an event -/

/-- What a start tag does. -/
def start (s : Sources) (target : TextTarget) (place : Nat) (name : String) (text : List Char) :
    Option (Sources × TextTarget) :=
  if name = "testsuite" then (attributes? text).map fun a => (s.openSuite place a, target)
  else if name = "property" then (attributes? text).map fun a => (s.addProperty a, target)
  else if name = "testcase" then (attributes? text).map fun a => (s.openCase place a, target)
  else if s.testCase.isNone then some (s, target)
  else if name = "system-out" then some (s, .systemOut)
  else if name = "system-err" then some (s, .systemErr)
  else match FailureKind.ofLabel? name with
    | some kind => (attributes? text).map fun a => (s.openFailure place kind a, .failureText)
    | none => some (s, target)

/-- What a tag without content does. -/
def selfClosed (s : Sources) (target : TextTarget) (place : Nat) (name : String)
    (text : List Char) : Option (Sources × TextTarget) :=
  if name = "testsuite" then (attributes? text).map fun a => (s.emptySuite place a, target)
  else if name = "property" then (attributes? text).map fun a => (s.addProperty a, target)
  else match FailureKind.ofLabel? name with
    | some kind =>
      if s.testCase.isNone then some (s, target)
      else (attributes? text).map fun attributes =>
        (s.addFailure { place, kind, attributes }, target)
    | none => some (s, target)

/-- What an end tag does. -/
def close (s : Sources) (target : TextTarget) (name : String) : Sources × TextTarget :=
  if name = "testsuite" then (s.closeSuite, target)
  else if name = "testcase" then (s.closeCase, .nowhere)
  else if name = "system-out" || name = "system-err" then (s, .nowhere)
  else if (FailureKind.ofLabel? name).isSome then (s.closeFailure, .nowhere)
  else (s, target)

/-- What an event does, if it can be read. -/
def step (s : Sources) (target : TextTarget) (place : Nat) : Event → Option (Sources × TextTarget)
  | .start name text => s.start target place name text
  | .selfClosed name text => s.selfClosed target place name text
  | .close name => some (s.close target name)
  | .text raw => (unescape? raw).map fun text => (s.addText target (String.ofList text), target)
  | .verbatim content => some (s.addText target (String.ofList content), target)

/-- The builder that holds what stems from some sources, if all could be read. -/
def built (file : Path) : Option (Sources × TextTarget) → Except ReportFault ReportBuilder
  | some (s, target) => .ok (s.builder file target)
  | none => .error .attributeOrReference

/-- What is made of attributes. -/
private theorem built_map {text : List Char} {next : Attributes → Sources × TextTarget}
    {made : Attributes → ReportBuilder}
    (h : ∀ attributes, made attributes = (next attributes).1.builder file (next attributes).2) :
    (ReportBuilder.read text >>= fun attributes => .ok (made attributes))
      = built file ((attributes? text).map next) := by
  rw [ReportBuilder.read]
  cases attributes? text with
  | none => rfl
  | some attributes => exact congrArg Except.ok (h attributes)

theorem builder_start (place : Nat) (name : String) (text : List Char) :
    (s.builder file target).start file name text = built file (s.start target place name text) := by
  have hcase : (s.builder file target).testCase.isNone = s.testCase.isNone := Option.isNone_map
  rw [ReportBuilder.start, start, hcase]
  split
  · exact built_map fun _ => rfl
  split
  · exact built_map builder_addProperty
  split
  · exact built_map fun _ => rfl
  split
  · rfl
  split
  · rfl
  split
  · rfl
  cases FailureKind.ofLabel? name with
  | none => rfl
  | some kind => exact built_map fun _ => rfl

theorem builder_selfClosed (place : Nat) (name : String) (text : List Char) :
    (s.builder file target).selfClosed file name text
      = built file (s.selfClosed target place name text) := by
  rw [ReportBuilder.selfClosed, selfClosed]
  split
  · exact built_map fun _ => rfl
  split
  · exact built_map builder_addProperty
  cases hkind : FailureKind.ofLabel? name with
  | none => rfl
  | some kind =>
      cases hcase : s.testCase with
      | none =>
          have hnone : (s.builder file target).testCase = none := by rw [builder, hcase]; rfl
          rw [hnone]
          rfl
      | some c =>
          have hsome : (s.builder file target).testCase = some c.testCase := by
            rw [builder, hcase]
            rfl
          rw [hsome]
          exact built_map fun attributes =>
            @builder_addFailure file s target { place, kind, attributes }

theorem builder_close (name : String) :
    (s.builder file target).close name
      = (s.close target name).1.builder file (s.close target name).2 := by
  rw [close]
  split
  · rename_i hname
    rw [hname]
    exact builder_closeSuite
  rename_i hsuite
  split
  · rename_i hname
    rw [hname]
    exact builder_closeCase
  rename_i hcase
  split
  · rename_i hname
    rw [ReportBuilder.close, if_neg hsuite, if_neg hcase, if_pos hname]
    rfl
  rename_i houtput
  cases hkind : FailureKind.ofLabel? name with
  | some kind =>
      rw [FailureKind.ofLabel?_eq_some hkind]
      exact builder_closeFailure kind
  | none =>
      rw [ReportBuilder.close, if_neg hsuite, if_neg hcase, if_neg houtput, hkind]
      rfl

/-- **An event does to a builder** what it does to its sources. -/
theorem builder_step (place : Nat) (event : Event) :
    (s.builder file target).step file event = built file (s.step target place event) := by
  cases event with
  | start name text => exact builder_start place name text
  | selfClosed name text => exact builder_selfClosed place name text
  | close name => exact congrArg Except.ok (builder_close name)
  | text raw =>
      rw [ReportBuilder.step, step]
      cases unescape? raw with
      | none => rfl
      | some text => exact congrArg Except.ok (builder_addText (String.ofList text))
  | verbatim content => exact congrArg Except.ok (builder_addText (String.ofList content))

/-- The sources after one more piece, and where text goes. -/
def next (s : Sources) (target : TextTarget) (place : Nat) (p : Piece) :
    Option (Sources × TextTarget) :=
  match p.event with
  | some event => s.step target place event
  | none => some (s, target)

/-- The sources after some pieces, and where text goes, if all can be read. -/
def after (ps : List Piece) : Option (Sources × TextTarget) :=
  ps.zipIdx.foldlM (fun now item => now.1.next now.2 item.2 item.1) ({}, .nowhere)

theorem after_snoc (ps : List Piece) (p : Piece) :
    after (ps ++ [p]) = (after ps).bind fun now => now.1.next now.2 ps.length p := by
  rw [after, List.zipIdx_append, List.foldlM_append, Nat.zero_add]
  show ((after ps).bind fun now => (now.1.next now.2 ps.length p).bind some) = _
  exact congrArg _ (funext fun now => Option.bind_fun_some _)

/-- **The events of some pieces** build what stems from the sources after them. -/
theorem stepAll_eventsOf (ps : List Piece) :
    ReportBuilder.stepAll file {} (eventsOf ps) = built file (after ps) := by
  induction ps using List.reverseRecOn with
  | nil => rfl
  | append_singleton ps p ih =>
      rw [eventsOf_append, ReportBuilder.stepAll_append, ih, after_snoc, eventsOf_cons]
      cases after ps with
      | none => rfl
      | some now =>
          show (now.1.builder file now.2).stepAll file (p.event.toList ++ []) = _
          rw [List.append_nil, Option.bind_some, next]
          cases p.event with
          | none => rfl
          | some event =>
              show (now.1.builder file now.2).stepAll file [event] = _
              rw [ReportBuilder.stepAll_singleton]
              exact builder_step ps.length event

end Sources

end FailureTriage
