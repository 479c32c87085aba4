import FailureTriage.Context.Reconstruction
import FailureTriage.Proofs.Advice.ListedSuspicions
import FailureTriage.Proofs.Summary.Building

/-!
# Which context a failure is shown with

A request for fixes shows each failure of a summary with a context that is looked up by the class
and the method of the failure.  Where several failures share both, all of them are shown with the
context of the first one.

* `Prompt.build_reconstructed`: which of the reconstructed contexts each failure is shown with.
* `Prompt.build_failingTwice`: a failure that is not shown with its own context.
-/

namespace FailureTriage

/-- Whether two failures are those of one test method. -/
def FailureRecord.SameTest (a b : FailureRecord) : Prop :=
  a.testClass = b.testClass ∧ a.testMethod = b.testMethod

instance (a b : FailureRecord) : Decidable (a.SameTest b) :=
  inferInstanceAs (Decidable (_ ∧ _))

namespace Prompt

/-! ## The length of a request -/

theorem length_suiteBlockWith {suite : SuiteSummary} {texts : List String}
    (hlength : texts.length = suite.failures.length) :
    (suiteBlockWith suite texts).length
      = (suiteBlockWith suite (texts.map fun _ => "")).length
        + (texts.map String.length).sum := by
  have hjoin : ∀ (failures : List FailureSummary) (texts : List String),
      texts.length = failures.length →
      (String.join (List.zipWith (fun failure text =>
          failureBlock failure ++ text ++ environmentBlock suite.environment)
          failures texts)).length
        = (String.join (List.zipWith (fun failure text =>
            failureBlock failure ++ text ++ environmentBlock suite.environment)
            failures (texts.map fun _ => ""))).length + (texts.map String.length).sum := by
    intro failures
    induction failures with
    | nil =>
        intro texts hlength
        rw [List.eq_nil_of_length_eq_zero hlength]
        rfl
    | cons failure rest ih =>
        intro texts hlength
        obtain ⟨text, texts, rfl⟩ := List.exists_cons_of_length_eq_add_one hlength
        have hrest := ih texts (Nat.succ.inj hlength)
        simp only [List.map_cons, List.zipWith_cons_cons, String.join_cons,
          String.length_append, String.length_empty, List.sum_cons, hrest]
        omega
  rw [suiteBlockWith, suiteBlockWith]
  split
  · rename_i hnone
    rw [List.isEmpty_iff.mp hnone] at hlength
    rw [List.eq_nil_of_length_eq_zero hlength]
    rfl
  · simp only [String.length_append, hjoin _ _ hlength, Nat.add_assoc]

/-- Each text takes up its own length. -/
theorem length_buildWith {summary : ErrorSummary} {texts : List String}
    (hlength : texts.length = summary.failures.length) :
    (buildWith summary texts).length
      = (buildWith summary (texts.map fun _ => "")).length + (texts.map String.length).sum := by
  have hsuites : ∀ (suites : List SuiteSummary) (texts : List String),
      texts.length = (suites.flatMap (·.failures)).length →
      (suiteBlocksWith suites texts).length
        = (suiteBlocksWith suites (texts.map fun _ => "")).length
          + (texts.map String.length).sum := by
    intro suites
    induction suites with
    | nil =>
        intro texts hlength
        rw [List.eq_nil_of_length_eq_zero hlength]
        rfl
    | cons suite rest ih =>
        intro texts hlength
        rw [List.flatMap_cons, List.length_append] at hlength
        have htake : (texts.take suite.failures.length).length = suite.failures.length := by
          rw [List.length_take]
          omega
        have hhere := length_suiteBlockWith htake
        have hrest := ih (texts.drop suite.failures.length) (by rw [List.length_drop]; omega)
        have hsum := congrArg (fun texts => (texts.map String.length).sum)
          (List.take_append_drop suite.failures.length texts)
        simp only [List.map_append, List.sum_append] at hsum
        simp only [suiteBlocksWith, String.length_append, hhere, hrest, ← List.map_take,
          ← List.map_drop]
        omega
  simp only [buildWith, String.length_append, hsuites _ _ hlength]
  omega

/-- A longer text in one place makes another request. -/
theorem buildWith_ne {summary : ErrorSummary} {before after : List String} {a b : String}
    (hlength : (before ++ a :: after).length = summary.failures.length)
    (hshorter : a.length < b.length) :
    buildWith summary (before ++ a :: after) ≠ buildWith summary (before ++ b :: after) := by
  intro hequal
  have hlength' : (before ++ b :: after).length = summary.failures.length := by
    simpa using hlength
  have hlengths := congrArg String.length hequal
  rw [length_buildWith hlength, length_buildWith hlength'] at hlengths
  simp only [List.map_append, List.map_cons, List.sum_append, List.sum_cons] at hlengths
  omega

/-- A context without suspicions is shown by its related sources. -/
theorem contextBlock_of_no_suspicion {context : FailureContext} (h : context.suspicions = []) :
    contextBlock context = String.join (context.related.map relatedBlock) := by
  rw [contextBlock, FailureContext.ranked, h]
  simp

/-- A suspicion takes up room of its own. -/
theorem length_lt_contextBlock {context : FailureContext}
    (h : context.suspicions.any (fun s => Confidence.low.rank ≤ s.2.confidence.rank) = true) :
    (String.join (context.related.map relatedBlock)).length < (contextBlock context).length := by
  have hranked : (context.ranked .low).isEmpty = false := by
    obtain ⟨s, hmem, hrank⟩ := List.any_eq_true.mp h
    rw [List.isEmpty_eq_false_iff_exists_mem]
    exact ⟨s, List.mem_mergeSort.mpr (List.mem_filter.mpr ⟨hmem, hrank⟩)⟩
  have hlabel : 0 < "**POTENTIAL LOGIC BUGS DETECTED:**\n".length := by decide
  rw [contextBlock, hranked, if_neg Bool.false_ne_true]
  simp only [String.length_append]
  omega

end Prompt

/-! ## Reconstructed contexts -/

@[simp] theorem Workspace.failure_reconstruct (w : Workspace) (instant : Timestamp)
    (failure : FailureRecord) : (w.reconstruct instant failure).value.failure = failure := rfl

theorem Workspace.value_reconstructAll (w : Workspace) (instant : Timestamp)
    (reports : ReportSet) :
    (w.reconstructAll instant reports).value
      = reports.failures.map fun failure => (w.reconstruct instant failure).value :=
  Logged.value_forEach _ _

/-- **The context that is found** for a failure of a run is the one of the first failure of its
    test method. -/
theorem Prompt.contextOf?_reconstructed (w : Workspace) (instant : Timestamp)
    {failures : List FailureRecord} {i : Nat} {failure : FailureRecord}
    (hfailure : failures[i]? = some failure) :
    ∃ j first, j ≤ i ∧ failures[j]? = some first ∧ first.SameTest failure
      ∧ (∀ k earlier, k < j → failures[k]? = some earlier → ¬ earlier.SameTest failure)
      ∧ contextOf? (failures.map fun f => (w.reconstruct instant f).value)
          (ErrorSummary.describe w failure).value
        = some (w.reconstruct instant first).value := by
  have hfound : contextOf? (failures.map fun f => (w.reconstruct instant f).value)
      (ErrorSummary.describe w failure).value
      = (failures.find? fun f => decide (f.SameTest failure)).map
          fun f => (w.reconstruct instant f).value := by
    rw [contextOf?, List.find?_map]
    congr 2
    funext f
    rw [Bool.eq_iff_iff, decide_eq_true_iff]
    exact (Bool.and_eq_true ..).to_iff.trans (and_congr beq_iff_eq beq_iff_eq)
  obtain ⟨first, hfirst⟩ : ∃ first,
      failures.find? (fun f => decide (f.SameTest failure)) = some first := by
    rw [← Option.isSome_iff_exists, List.find?_isSome]
    exact ⟨failure, List.mem_of_getElem? hfailure, decide_eq_true ⟨rfl, rfl⟩⟩
  obtain ⟨hsame, j, hj, hat, hleast⟩ := List.find?_eq_some_iff_getElem.mp hfirst
  have hnone : ∀ k earlier, k < j → failures[k]? = some earlier →
      ¬ earlier.SameTest failure := by
    intro k earlier hk hearlier
    obtain ⟨hlt, rfl⟩ := List.getElem?_eq_some_iff.mp hearlier
    simpa using hleast k hk
  refine ⟨j, first, ?_, ?_, of_decide_eq_true hsame, hnone, ?_⟩
  · refine Nat.le_of_not_lt fun hlater => ?_
    exact hnone i failure hlater hfailure ⟨rfl, rfl⟩
  · exact List.getElem?_eq_some_iff.mpr ⟨hj, hat⟩
  · rw [hfound, hfirst]
    rfl

/-- **Each failure of a run** is shown with the related sources and the suspicions of the first
    context whose failure has its class and its method.  There always is one, and it is the
    failure's own unless an earlier failure has that class and method. -/
theorem Prompt.build_reconstructed (w : Workspace) (now : String) (instant : Timestamp)
    (reports : ReportSet) (hcounts : ∀ suite ∈ reports.suites, suite.counted < 2 ^ 32) :
    ∃ summary, (ErrorSummary.build w now reports).value = .ok summary
      ∧ let contexts := (w.reconstructAll instant reports).value
        summary.failures = reports.failures.map (fun f => (ErrorSummary.describe w f).value)
        ∧ contexts.map (·.failure) = reports.failures
        ∧ ∃ shown : List FailureContext,
            Prompt.build summary contexts
              = Prompt.buildWith summary (shown.map Prompt.contextBlock)
            ∧ shown.length = reports.failures.length
            ∧ (∀ context ∈ shown, Shows context (contextBlock context))
            ∧ ∀ (i : Nat) (failure : FailureRecord), reports.failures[i]? = some failure →
                ∃ (j : Nat) (first : FailureRecord), j ≤ i
                  ∧ reports.failures[j]? = some first ∧ first.SameTest failure
                  ∧ (∀ (k : Nat) (earlier : FailureRecord), k < j →
                      reports.failures[k]? = some earlier → ¬ earlier.SameTest failure)
                  ∧ shown[i]? = contexts[j]? := by
  obtain ⟨summary, hbuild⟩ := ErrorSummary.exists_build w now hcounts
  refine ⟨summary, hbuild, ?_⟩
  intro contexts
  have hcontexts : contexts = reports.failures.map fun f => (w.reconstruct instant f).value :=
    w.value_reconstructAll instant reports
  have hsummary := ErrorSummary.failures_of_build hbuild
  -- the context found for a failure; the default is never taken
  let shownFor (failure : FailureRecord) : FailureContext :=
    (Prompt.contextOf? contexts (ErrorSummary.describe w failure).value).getD
      (w.reconstruct instant failure).value
  refine ⟨hsummary, ?_, reports.failures.map shownFor, ?_, List.length_map _,
    fun context _ => shows_contextBlock context, ?_⟩
  · rw [hcontexts, List.map_map]
    exact List.map_id _
  · rw [Prompt.build_eq_buildWith, hsummary, List.map_map, List.map_map]
    congr 1
    refine List.map_congr_left fun failure hmem => ?_
    obtain ⟨i, hi⟩ := List.getElem?_of_mem hmem
    obtain ⟨j, first, -, -, -, -, hfound⟩ :=
      Prompt.contextOf?_reconstructed w instant hi
    rw [← hcontexts] at hfound
    simp only [Function.comp_apply, Prompt.contextText, shownFor, hfound, Option.map_some,
      Option.getD_some]
  · intro i failure hfailure
    obtain ⟨j, first, hle, hfirst, hsame, hnone, hfound⟩ :=
      Prompt.contextOf?_reconstructed w instant hfailure
    rw [← hcontexts] at hfound
    refine ⟨j, first, hle, hfirst, hsame, hnone, ?_⟩
    rw [List.getElem?_map, hfailure, hcontexts, List.getElem?_map, hfirst]
    simp only [Option.map_some, shownFor, hfound, Option.getD_some]

/-- A workspace with one production class, which returns an empty list. -/
def Workspace.returningNothing : Workspace where
  files := { entries := [
    (["java"], .directory), (["java", "x"], .directory),
    (["java", "x", "A.java"], .file "return List.of();".toUTF8)] }
  layout := {}
  window := {}

/-- A failure of a test method, with a message. -/
def FailureRecord.saying (kind : FailureKind) (message : String) : FailureRecord where
  testClass := "x.ATest"
  testMethod := "works"
  kind := kind
  failureType := "T"
  message := message
  stackTrace := ""
  duration := 0.0
  systemOut := ""
  systemErr := ""
  rawText := ""

/-- A test run in which one test method has both a failure and an error. -/
def ReportSet.failingTwice : ReportSet where
  reportsDir := ⟨"reports"⟩
  suites := [{
    name := "A"
    reportFile := ⟨"TEST-A.xml"⟩
    testFailures := [.saying .failure "", .saying .error "expected: <3> but was: <0>"] }]

/-- Both are shown with the context of the failure. -/
theorem Prompt.build_reconstructed_failingTwice :
    ∃ summary, (ErrorSummary.build .returningNothing "" .failingTwice).value = .ok summary
      ∧ let contexts := (Workspace.returningNothing.reconstructAll ⟨2024, 1, 1, 0, 0, 0, 0⟩
          .failingTwice).value
        ∃ shown : List FailureContext,
          Prompt.build summary contexts
            = Prompt.buildWith summary (shown.map Prompt.contextBlock)
          ∧ shown[0]? = contexts[0]? ∧ shown[1]? = contexts[0]? := by
  obtain ⟨summary, hbuild, -, -, shown, hprompt, -, -, hshown⟩ :=
    Prompt.build_reconstructed .returningNothing "" ⟨2024, 1, 1, 0, 0, 0, 0⟩ .failingTwice
      (by decide +kernel)
  refine ⟨summary, hbuild, shown, hprompt, ?_, ?_⟩
  · obtain ⟨j, first, hle, -, -, -, hat⟩ := hshown 0 _ rfl
    obtain rfl := Nat.le_zero.mp hle
    exact hat
  · obtain ⟨j, first, hle, -, -, hnone, hat⟩ := hshown 1 _ rfl
    -- the failure that comes first is of the same test method
    obtain rfl : j = 0 := Nat.eq_zero_of_not_pos fun hpos => hnone 0 _ hpos rfl ⟨rfl, rfl⟩
    exact hat

/-- A failure that is not shown with the context that was reconstructed for it. -/
theorem Prompt.build_failingTwice :
    ∃ summary, (ErrorSummary.build .returningNothing "" .failingTwice).value = .ok summary
      ∧ let contexts := (Workspace.returningNothing.reconstructAll ⟨2024, 1, 1, 0, 0, 0, 0⟩
          .failingTwice).value
        summary.failures.length = 2 ∧ contexts.length = 2
        ∧ Prompt.build summary contexts
          ≠ Prompt.buildWith summary (contexts.map Prompt.contextBlock) := by
  have hcounts : ∀ suite ∈ ReportSet.failingTwice.suites, suite.counted < 2 ^ 32 := by
    decide +kernel
  obtain ⟨summary, hbuild⟩ := ErrorSummary.exists_build .returningNothing "" hcounts
  refine ⟨summary, hbuild, ?_⟩
  intro contexts
  let contextOf (failure : FailureRecord) : FailureContext :=
    (Workspace.returningNothing.reconstruct ⟨2024, 1, 1, 0, 0, 0, 0⟩ failure).value
  let first := contextOf (.saying .failure "")
  let second := contextOf (.saying .error "expected: <3> but was: <0>")
  have hfailures : summary.failures
      = [(ErrorSummary.describe .returningNothing (.saying .failure "")).value,
        (ErrorSummary.describe .returningNothing
          (.saying .error "expected: <3> but was: <0>")).value] :=
    ErrorSummary.failures_of_build hbuild
  have hcontexts : contexts = [first, second] := Workspace.value_reconstructAll _ _ _
  have hshown : summary.failures.map (Prompt.contextText contexts)
      = [Prompt.contextBlock first, Prompt.contextBlock first] := by
    rw [hfailures, hcontexts]
    rfl
  -- the two contexts hold the same source, and only the second one finds fault with it
  have hnone : first.suspicions = [] := by decide +kernel
  have hsome : second.suspicions.any (fun s => Confidence.low.rank ≤ s.2.confidence.rank) = true :=
    by decide +kernel
  have hrelated : first.related.map Prompt.relatedBlock
      = second.related.map Prompt.relatedBlock := by decide +kernel
  have hshorter : (Prompt.contextBlock first).length < (Prompt.contextBlock second).length := by
    rw [Prompt.contextBlock_of_no_suspicion hnone, hrelated]
    exact Prompt.length_lt_contextBlock hsome
  have htwo : summary.failures.length = 2 := congrArg List.length hfailures
  refine ⟨htwo, congrArg List.length hcontexts, fun hequal => ?_⟩
  rw [Prompt.build_eq_buildWith, hshown, hcontexts] at hequal
  have hlength : ([Prompt.contextBlock first] ++ [Prompt.contextBlock first]).length
      = summary.failures.length := by
    rw [htwo]
    rfl
  exact Prompt.buildWith_ne hlength hshorter hequal

end FailureTriage
