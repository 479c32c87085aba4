import FailureTriage.Context.Bundle
import FailureTriage.Summary.Document

/-!
# Prompts

The request for fixes: what is asked for, then every failure of a summary with its context, then
the format of the answer.
-/

namespace FailureTriage.Prompt

/-- What a prompt starts with. -/
def header : String :=
  "You are a Java debugging expert. Analyze the test failure and provide EXACT CODE FIXES "
    ++ "that can be directly applied.\n\n"
    ++ "IMPORTANT: Provide specific file paths, line numbers, and exact code replacements in "
    ++ "this format:\nFILE: path/to/file.java\nLINE: 123\nREPLACE: old code here\n"
    ++ "WITH: new code here\n\n"

/-- What a prompt ends with. -/
def outputFormat : String :=
  "REQUIRED OUTPUT FORMAT:\n1. **ROOT CAUSE**: Brief explanation of what's wrong\n"
    ++ "2. **EXACT FIXES**: For each file that needs changes:\n"
    ++ "   FILE: exact/path/to/file.java\n   LINE: line_number\n"
    ++ "   REPLACE: exact_current_code\n   WITH: exact_new_code\n\n"
    ++ "3. **VERIFICATION**: How to verify the fix works\n\n"
    ++ "Focus on providing executable, copy-paste ready code fixes.\n"

/-- The counts of the test run. -/
def totalsBlock (totals : SummaryTotals) : String :=
  let rate := Decimal.floatText totals.successRate
  s!"**Test Summary:**\n- Total tests: {totals.totalTests}\n"
    ++ s!"- Failures: {totals.totalFailures}\n- Success rate: {rate}%\n\n"

/-- A piece of source text in a fence. -/
def fenced (code : String) : String :=
  "```java\n" ++ code ++ "\n```\n\n"

/-- What the summary says about a failure. -/
def failureBlock (failure : FailureSummary) : String :=
  let location := match failure.location with
    | some l => s!"**Location:** {l.file}:{l.line}\n\n"
    | none => ""
  let assertion := match failure.assertion with
    | some a =>
      s!"**Assertion Details:**\n- Expected: {a.expected}\n- Actual: {a.actual}\n\n"
    | none => ""
  let source := match failure.testSource.context with
    | some code => if code.isEmpty then "" else "**Test Source Code:**\n" ++ fenced code
    | none => ""
  s!"**Test Method:** {failure.testMethod}\n**Failure Type:** {failure.failureType}\n"
    ++ s!"**Error Message:** {failure.message}\n" ++ location ++ assertion ++ source

/-- A related source that could be read. -/
def relatedBlock (source : RelatedSource) : String :=
  if source.content.isEmpty then ""
  else s!"**Related Source Code ({source.path.text}):**\n" ++ fenced source.content

/-- A suspicion about a source. -/
def suspicionBlock (item : Path × Suspicion) : String :=
  let (path, s) := item
  s!"- **{s.kind.label}** in {path.text}:{s.lineNumber}\n  Line: `{s.lineContent}`\n"
    ++ s!"  Issue: {s.description}\n  Suggested Fix: {s.suggestedFix}\n"
    ++ s!"  Confidence: {s.confidence.label}\n\n"

/-- The related sources of a failure, and all suspicions about them. -/
def contextBlock (context : FailureContext) : String :=
  let suspicions := context.ranked .low
  String.join (context.related.map relatedBlock)
    ++ if suspicions.isEmpty then ""
      else "**POTENTIAL LOGIC BUGS DETECTED:**\n" ++ String.join (suspicions.map suspicionBlock)

/-- The environment of a suite, if it is known. -/
def environmentBlock (environment : NameMap) : String :=
  if environment.isEmpty then ""
  else
    let get (name : String) : String := (environment.get? name).getD "N/A"
    let java := get "java.version"
    let system := get "os.name"
    let version := get "os.version"
    s!"**Environment:**\n- Java Version: {java}\n- OS: {system} {version}\n\n"

/-- The first context of the test case that a failure belongs to. -/
def contextOf? (contexts : List FailureContext) (failure : FailureSummary) :
    Option FailureContext :=
  contexts.find? fun c =>
    c.failure.testClass == failure.testClass && c.failure.testMethod == failure.testMethod

/-- The failures of a suite, if there are any. -/
def suiteBlock (contexts : List FailureContext) (suite : SuiteSummary) : String :=
  if suite.failures.isEmpty then ""
  else
    let blocks := suite.failures.map fun failure =>
      failureBlock failure ++ ((contextOf? contexts failure).map contextBlock).getD ""
        ++ environmentBlock suite.environment
    s!"**Failed Test Suite: {suite.name}**\n\n" ++ String.join blocks

/-- The request for fixes of all failures of a summary. -/
def build (summary : ErrorSummary) (contexts : List FailureContext) : String :=
  header ++ totalsBlock summary.totals ++ String.join (summary.suites.map (suiteBlock contexts))
    ++ outputFormat

end FailureTriage.Prompt
