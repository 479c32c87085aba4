import FailureTriage.Advice.Prompt
import FailureTriage.Proofs.Context.Rankings
import Mathlib

/-!
# The parts of a prompt

A request for fixes shows each failure of a summary, followed by a text about the context that is
found for it.

* `Prompt.buildWith`: the request in which each failure is followed by a text of its own.
* `Prompt.build_eq_buildWith`: which texts these are.
* `Prompt.Shows`: what such a text says about a context, line by line.
-/

namespace FailureTriage.Prompt

/-! ## The texts between the failures -/

/-- The failures of a suite, each followed by a text. -/
def suiteBlockWith (suite : SuiteSummary) (texts : List String) : String :=
  if suite.failures.isEmpty then ""
  else
    let blocks := List.zipWith (fun failure text =>
      failureBlock failure ++ text ++ environmentBlock suite.environment) suite.failures texts
    s!"**Failed Test Suite: {suite.name}**\n\n" ++ String.join blocks

/-- The failures of several suites, each followed by one of the texts in turn. -/
def suiteBlocksWith : List SuiteSummary → List String → String
  | [], _ => ""
  | suite :: rest, texts =>
    suiteBlockWith suite (texts.take suite.failures.length)
      ++ suiteBlocksWith rest (texts.drop suite.failures.length)

/-- The request for fixes in which each failure of a summary is followed by one of the texts. -/
def buildWith (summary : ErrorSummary) (texts : List String) : String :=
  header ++ totalsBlock summary.totals ++ suiteBlocksWith summary.suites texts ++ outputFormat

/-- The text about the context that is found for a failure. -/
def contextText (contexts : List FailureContext) (failure : FailureSummary) : String :=
  ((contextOf? contexts failure).map contextBlock).getD ""

theorem suiteBlock_eq_with (contexts : List FailureContext) (suite : SuiteSummary) :
    suiteBlock contexts suite
      = suiteBlockWith suite (suite.failures.map (contextText contexts)) := by
  rw [suiteBlock, suiteBlockWith, List.zipWith_map_right, List.zipWith_self]
  rfl

theorem join_suiteBlocks (contexts : List FailureContext) (suites : List SuiteSummary) :
    String.join (suites.map (suiteBlock contexts))
      = suiteBlocksWith suites
          ((suites.flatMap (·.failures)).map (contextText contexts)) := by
  induction suites with
  | nil => rfl
  | cons suite rest ih =>
      rw [List.map_cons, String.join_cons, ih, suiteBlock_eq_with, suiteBlocksWith,
        List.flatMap_cons, List.map_append, List.take_left' (List.length_map _),
        List.drop_left' (List.length_map _)]

/-- **Each failure** is followed by the text about the context that is found for it. -/
theorem build_eq_buildWith (summary : ErrorSummary) (contexts : List FailureContext) :
    build summary contexts = buildWith summary (summary.failures.map (contextText contexts)) := by
  rw [build, buildWith, join_suiteBlocks]
  rfl

/-! ## What is said about a context -/

/-- A text of several lines. -/
def ofLines (lines : List String) : String :=
  String.join (lines.map fun line => line ++ "\n")

/-- Whether a block shows a source: its path, and its content in a fence. -/
def IsShown (source : RelatedSource) (block : String) : Prop :=
  block = ofLines [
    "**Related Source Code (" ++ source.path.text ++ "):**", "```java", source.content, "```", ""]

/-- Whether a block lists a suspicion: its kind, the path of its source with the number of the line,
    the line, what is wrong with it, what may be right, and how likely that is. -/
def IsListed (item : Path × Suspicion) (block : String) : Prop :=
  block = ofLines [
    "- **" ++ item.2.kind.label ++ "** in " ++ item.1.text ++ ":" ++ toString item.2.lineNumber,
    "  Line: `" ++ item.2.lineContent ++ "`",
    "  Issue: " ++ item.2.description,
    "  Suggested Fix: " ++ item.2.suggestedFix,
    "  Confidence: " ++ item.2.confidence.label,
    ""]

/-- Whether a text shows a context: a block for each related source that has a content, in order,
    and then, if there are suspicions, a heading and a block for each of them by its rank. -/
def Shows (context : FailureContext) (text : String) : Prop :=
  ∃ (sources listed : List String) (ranking : List (Path × Suspicion)),
    text = String.join sources
        ++ (if listed = [] then ""
          else "**POTENTIAL LOGIC BUGS DETECTED:**\n" ++ String.join listed)
      ∧ List.Forall₂ IsShown (context.related.filter fun source => source.content ≠ "") sources
      ∧ RankedFrom
        (context.related.flatMap fun source => source.suspicions.map fun s => (source.path, s))
        ranking
      ∧ List.Forall₂ IsListed ranking listed

theorem isShown_relatedBlock {source : RelatedSource} (h : source.content ≠ "") :
    IsShown source (relatedBlock source) := by
  have hempty : source.content.isEmpty = false := by
    simpa [String.isEmpty_iff] using h
  rw [IsShown, relatedBlock, hempty]
  simp only [ofLines, List.map_cons, List.map_nil, String.join_cons, String.join_nil, fenced,
    toString, if_false, Bool.false_eq_true, String.append_assoc]
  rfl

theorem isListed_suspicionBlock (item : Path × Suspicion) :
    IsListed item (suspicionBlock item) := by
  rw [IsListed, suspicionBlock]
  simp only [ofLines, List.map_cons, List.map_nil, String.join_cons, String.join_nil,
    toString, String.append_assoc]
  rfl

end FailureTriage.Prompt
