import FailureTriage.Proofs.Advice.ShownContext
import FailureTriage.Proofs.Suite.Loading
import FailureTriage.Proofs.Suite.Truncation
import FailureTriage.Proofs.Text.Trimming

/-!
# What a summary and the contexts agree on

The summary of a test run and the contexts of its failures are made apart from each other.  The
summary looks for the compared values in the whole failure text where there is no message, and a
context looks for them in the message alone.  They still find the same, because the message of a
failure that is read from a report is empty only if its text is blank.

* `Assertion.ofMessage?_eq_none`: a text in which no comparison can be found.
* `FailureRecord.Parsed`: the failures that reports give.
* `FailureRecord.Parsed.blank`: what an empty message says about the text.
* `ErrorSummary.build_agrees`: the two documents, failure by failure.
-/

namespace FailureTriage

/-! ## Patterns that start with a character -/

namespace Pattern

/-- Whether a pattern matches only where a character stands. -/
def StartsWith (p : Pattern) (c : Char) : Prop :=
  ∀ way : Way, way.place.rest.head? ≠ some c → p.ends way = []

theorem startsWith_one (c : Char) : (one (· == c)).StartsWith c := by
  rintro ⟨⟨index, before, rest⟩, groups⟩ hne
  cases rest with
  | nil => rfl
  | cons d rest =>
      have hd : ¬ (d == c) = true := fun heq => hne (congrArg some (eq_of_beq heq))
      exact if_neg hd

theorem StartsWith.seq {p : Pattern} {c : Char} (h : p.StartsWith c) (q : Pattern) :
    (Pattern.seq p q).StartsWith c := by
  intro way hne
  rw [ends, h way hne]
  rfl

/-- A text without the character does not match. -/
theorem StartsWith.find?_eq_none {p : Pattern} {c : Char} (h : p.StartsWith c) {text : List Char}
    (hnot : c ∉ text) : p.find? text = none := by
  have hhere : ∀ place : Place, place.rest.head? ≠ some c → p.matchAt? place = none := by
    intro place hne
    rw [matchAt?, h ⟨place, []⟩ hne]
    rfl
  have hfrom : ∀ index before, p.findFrom? index before text = none := by
    induction text with
    | nil =>
        intro index before
        rw [findFrom?, hhere ⟨index, before, []⟩ (Option.some_ne_none c).symm]
    | cons d text ih =>
        intro index before
        rw [List.mem_cons, not_or] at hnot
        rw [findFrom?, hhere ⟨index, before, d :: text⟩ fun heq =>
          hnot.1 (Option.some.inj heq).symm]
        exact ih hnot.2 (index + 1) (some d)
  exact hfrom 0 none

end Pattern

/-- A comparison names the expected value first. -/
theorem Assertion.pattern_startsWith : Assertion.pattern.StartsWith 'e' :=
  ((Pattern.startsWith_one 'e').seq _).seq _

/-- No values are compared in a text without that word. -/
theorem Assertion.ofMessage?_eq_none {message : String} (h : 'e' ∉ message.toList) :
    Assertion.ofMessage? message = none := by
  rw [ofMessage?, pattern_startsWith.find?_eq_none h]
  rfl

/-! ## Failures without a message -/

/-- A failure text without a headline is blank. -/
theorem FailureText.trim_eq_nil_of_headline {text : List Char} (h : headline text = []) :
    Text.trim text = [] := by
  cases htrim : Text.trim text with
  | nil => rfl
  | cons c rest =>
      have hc := Text.isBlank_head_trim htrim
      -- the first line starts with the first character that is left, which is no blank
      obtain ⟨line, more, hlines, hmem⟩ :
          ∃ line more, Text.lines (c :: rest) = line :: more ∧ c ∈ line := by
        by_cases hfeed : '\n' ∈ c :: rest
        · obtain ⟨before, after, heq, hbefore⟩ := List.eq_append_cons_of_mem hfeed
          obtain ⟨line, hlines, hline⟩ := Text.lines_append hbefore after
          rw [← heq] at hlines
          refine ⟨line, _, hlines, ?_⟩
          have hhead : c ∈ before := by
            cases before with
            | nil =>
                rw [(List.cons.inj heq).1] at hc
                exact absurd hc (by decide)
            | cons d before =>
                rw [(List.cons.inj heq).1]
                exact List.mem_cons_self
          rcases hline with rfl | rfl
          · exact hhead
          · refine (List.mem_append.mp hhead).resolve_right fun hreturn => ?_
            rw [List.mem_singleton.mp hreturn] at hc
            exact absurd hc (by decide)
        · exact ⟨_, [], Text.lines_of_not_mem hfeed (List.cons_ne_nil _ _), List.mem_cons_self⟩
      rw [headline, htrim, hlines] at h
      rw [Text.trim_eq_nil_iff.mp h c hmem] at hc
      cases hc

/-- **A failure has no message** only if its text is blank. -/
theorem PendingFailure.blank_of_message_eq {testCase : OpenCase} {failure : PendingFailure}
    (h : (failure.toRecord testCase).message = "") : Text.trim failure.text.toList = [] := by
  apply FailureText.trim_eq_nil_of_headline
  have hmessage : (failure.message.filter (· ≠ "")).getD
      (String.ofList (FailureText.headline failure.text.toList)) = "" := h
  cases hfilter : failure.message.filter (· ≠ "") with
  | none =>
      rw [hfilter, Option.getD_none] at hmessage
      rw [← @String.toList_ofList (FailureText.headline failure.text.toList), hmessage]
      rfl
  | some message =>
      rw [hfilter, Option.getD_some] at hmessage
      exact absurd hmessage (by simpa using (Option.filter_eq_some_iff.mp hfilter).2)

/-- Whether a failure has been read from a report. -/
def FailureRecord.Parsed (failure : FailureRecord) : Prop :=
  ∃ (file : Path) (document : String) (suites : List TestSuite),
    parseReport file document = .ok suites ∧ ∃ suite ∈ suites, failure ∈ suite.testFailures

namespace FailureRecord.Parsed

variable {failure : FailureRecord}

/-- Each failure of a report is the record of a failure element in a test case. -/
theorem exists_pending (h : failure.Parsed) :
    ∃ (testCase : OpenCase) (pending : PendingFailure), failure = pending.toRecord testCase := by
  obtain ⟨file, document, suites, hparse, suite, hsuite, hfailure⟩ := h
  obtain ⟨b, haccepted⟩ := exists_accepted hparse
  obtain ⟨-, found, haccounts⟩ := haccepted.exists_accounts
  rw [haccounts.suites] at hsuite
  obtain ⟨source, -, rfl⟩ := List.mem_map.mp hsuite
  obtain ⟨record, -, rfl⟩ := List.mem_map.mp hfailure
  exact ⟨record.1.testCase, record.2.failure, rfl⟩

/-- **An empty message** leaves nothing but blanks for the text. -/
theorem blank (h : failure.Parsed) (hmessage : failure.message = "") :
    Text.trim failure.rawText.toList = [] := by
  obtain ⟨testCase, pending, rfl⟩ := h.exists_pending
  exact PendingFailure.blank_of_message_eq hmessage

/-- The text of a failure without a message compares no values, and neither does the message. -/
theorem ofMessage?_compared (h : failure.Parsed) :
    Assertion.ofMessage? (if failure.message = "" then failure.rawText else failure.message)
      = Assertion.ofMessage? failure.message := by
  split
  · rename_i hmessage
    have hblank := Text.trim_eq_nil_iff.mp (h.blank hmessage)
    have hnot : 'e' ∉ failure.rawText.toList := fun hmem => absurd (hblank 'e' hmem) (by decide)
    rw [Assertion.ofMessage?_eq_none hnot, hmessage]
    exact (Assertion.ofMessage?_eq_none (List.not_mem_nil)).symm
  · rfl

end FailureRecord.Parsed

/-- Every failure of a reports directory has been read from one of its reports. -/
theorem ReportSet.parsed_of_load {files : FileTree} {dir : Path} {reports : ReportSet}
    (h : (ReportSet.load files dir).value = .ok reports) :
    ∀ failure ∈ reports.failures, failure.Parsed := by
  intro failure hfailure
  obtain ⟨paths, -, hreports⟩ := exists_of_load h
  rw [failures, suites_pushAll hreports, List.nil_append] at hfailure
  obtain ⟨suite, hsuite, hfailure⟩ := List.mem_flatMap.mp hfailure
  obtain ⟨file, -, hsuite⟩ := List.mem_flatMap.mp hsuite
  rw [suitesOrWarning_eq] at hsuite
  cases hread : readReport files file with
  | error fault =>
      rw [hread] at hsuite
      cases hsuite
  | ok suites =>
      rw [hread] at hsuite
      obtain ⟨content, -, document, -, parsed, hparse, rfl⟩ := readReport_eq_ok_iff.mp hread
      obtain ⟨found, hfound, rfl⟩ := List.mem_map.mp hsuite
      exact ⟨file, document, parsed, hparse, found, hfound, hfailure⟩

/-! ## The two documents -/

/-- Whether a summary and a context say the same about a failure: which one it is, where it
    happened, and which values differed. -/
structure FailureSummary.Agrees (summary : FailureSummary) (context : FailureContext) : Prop where
  testClass : summary.testClass = context.failure.testClass
  testMethod : summary.testMethod = context.failure.testMethod
  kind : summary.kind = context.failure.kind
  message : summary.message = context.failure.message
  stackTrace : summary.stackTrace = context.failure.stackTrace
  testSource : summary.testSource = context.testSource
  location : summary.location = context.location
  assertion : summary.assertion = context.assertion

/-- **One failure** of a report is described alike in both documents. -/
theorem FailureRecord.Parsed.agrees {failure : FailureRecord} (h : failure.Parsed) (w : Workspace)
    (instant : Timestamp) :
    (ErrorSummary.describe w failure).value.Agrees (w.reconstruct instant failure).value where
  testClass := rfl
  testMethod := rfl
  kind := rfl
  message := rfl
  stackTrace := rfl
  testSource := rfl
  location := rfl
  assertion := h.ofMessage?_compared

/-- **The summary and the contexts** of a test run have a failure in each place alike, whenever
    they are made. -/
theorem ErrorSummary.build_agrees (w : Workspace) (now : String) (instant : Timestamp)
    (reports : ReportSet) (hparsed : ∀ failure ∈ reports.failures, failure.Parsed)
    (hcounts : ∀ suite ∈ reports.suites, suite.counted < 2 ^ 32) :
    ∃ summary, (ErrorSummary.build w now reports).value = .ok summary
      ∧ let failures := summary.failures
        let contexts := (w.reconstructAll instant reports).value
        failures.length = contexts.length
        ∧ ∀ (i : Nat) (hi : i < failures.length) (hj : i < contexts.length),
            failures[i].Agrees contexts[i] := by
  obtain ⟨summary, hbuild⟩ := exists_build w now hcounts
  refine ⟨summary, hbuild, ?_⟩
  intro failures contexts
  have hfailures : failures = reports.failures.map fun f => (describe w f).value :=
    failures_of_build hbuild
  have hcontexts : contexts = reports.failures.map fun f => (w.reconstruct instant f).value :=
    w.value_reconstructAll instant reports
  refine ⟨by rw [hfailures, hcontexts, List.length_map, List.length_map], fun i hi hj => ?_⟩
  simp only [hfailures, hcontexts, List.getElem_map]
  exact (hparsed _ (List.getElem_mem _)).agrees w instant

/-- A failure with a blank for its text has no message, and is described alike all the same. -/
theorem ErrorSummary.build_agrees_blankText :
    ∃ suites reports summary,
      parseReport ⟨"TEST-A.xml"⟩
          "<testsuite><testcase><failure><![CDATA[ ]]></failure></testcase></testsuite>"
        = .ok suites
      ∧ ReportSet.empty.pushAll suites = .ok reports
      ∧ reports.failures.map (fun f => (f.message, f.rawText)) = [("", " ")]
      ∧ (ErrorSummary.build .returningNothing "" reports).value = .ok summary
      ∧ let failures := summary.failures
        let contexts := (Workspace.returningNothing.reconstructAll ⟨2024, 1, 1, 0, 0, 0, 0⟩
          reports).value
        failures.length = contexts.length
        ∧ ∀ (i : Nat) (hi : i < failures.length) (hj : i < contexts.length),
            failures[i].Agrees contexts[i] := by
  have hseen : (parseReport ⟨"TEST-A.xml"⟩
      "<testsuite><testcase><failure><![CDATA[ ]]></failure></testcase></testsuite>").toOption.bind
        (fun suites => (ReportSet.empty.pushAll suites).toOption.map fun reports =>
          (reports.failures.map fun f => (f.message, f.rawText), reports.suites.map (·.counted)))
      = some ([("", " ")], [0]) := by decide +kernel
  obtain ⟨suites, hsuites, hpushed⟩ := Option.bind_eq_some_iff.mp hseen
  obtain ⟨reports, hreports, hcounts⟩ := Option.map_eq_some_iff.mp hpushed
  rw [toOption_eq_some_iff] at hsuites hreports
  obtain ⟨htexts, hcounted⟩ := Prod.mk.inj hcounts
  have hparsed : ∀ failure ∈ reports.failures, failure.Parsed := by
    intro failure hfailure
    rw [ReportSet.failures, ReportSet.suites_pushAll hreports] at hfailure
    obtain ⟨suite, hsuite, hfailure⟩ := List.mem_flatMap.mp hfailure
    exact ⟨_, _, suites, hsuites, suite, hsuite, hfailure⟩
  have hnone : ∀ suite ∈ reports.suites, suite.counted < 2 ^ 32 := by
    have hall : ∀ count ∈ reports.suites.map (·.counted), count < 2 ^ 32 := by
      rw [hcounted]
      decide
    exact List.forall_mem_map.mp hall
  obtain ⟨summary, hbuild, hagrees⟩ :=
    build_agrees .returningNothing "" ⟨2024, 1, 1, 0, 0, 0, 0⟩ reports hparsed hnone
  exact ⟨suites, reports, summary, hsuites, hreports, htexts, hbuild, hagrees⟩

end FailureTriage
