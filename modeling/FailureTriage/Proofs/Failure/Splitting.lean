import FailureTriage.Failure.Text
import FailureTriage.Proofs.StackTrace.Printing
import FailureTriage.Proofs.Text.LineEnds

/-!
# A failure text in two parts

The first line of a failure text becomes its message, and the rest of it the stack trace.  The text
is trimmed, put together anew and trimmed again on the way, and yet no line is lost and no frame is
read otherwise than from the whole text.

* `Text.solidLines`: what the lines of a text say.
* `StackFrame.skipsBlanks_ofLine?`: the blanks around a line with a frame do not count.
* `FailureText.headline_body`: what becomes of the lines and the frames of a failure text.
-/

namespace FailureTriage

namespace Text

/-- The trimmed lines of a text that are not blank. -/
def solidLines (text : List Char) : List (List Char) :=
  ((lines text).map trim).filter (· ≠ [])

/-- What a line says: the line without the blanks around it, unless it is blank. -/
def solid? (line : List Char) : Option (List Char) :=
  (some (trim line)).filter (· ≠ [])

theorem solidLines_eq (text : List Char) : solidLines text = (lines text).filterMap solid? := by
  rw [solidLines, ← List.filterMap_eq_map, List.filter_filterMap]
  rfl

theorem solid?_of_ne {line : List Char} (h : trim line ≠ []) : solid? line = some (trim line) := by
  rw [solid?, Option.filter_some, if_pos (decide_eq_true h)]

theorem skipsBlanks_solid? : SkipsBlanks solid? where
  empty := rfl
  behind line c hc := by
    have htrim := trim_padded (List.forall_mem_nil _) (List.forall_mem_singleton.mpr hc) line
    rw [List.nil_append] at htrim
    rw [solid?, solid?, htrim]
  ahead line c hc := by
    have htrim := trim_padded (List.forall_mem_singleton.mpr hc) (List.forall_mem_nil _) line
    rw [List.append_nil] at htrim
    rw [solid?, solid?, ← htrim]
    rfl

end Text

namespace StackFrame

open Text

/-- **The blanks around a line** with a frame do not count. -/
theorem skipsBlanks_ofLine? : SkipsBlanks ofLine? where
  empty := by
    refine Option.eq_none_iff_forall_ne_some.mpr fun f hf => ?_
    obtain ⟨l, htext, -⟩ := ofLine?_eq_some_iff.mp hf
    rw [l.text_eq_core] at htext
    exact absurd htext.symm (List.append_ne_nil_of_right_ne_nil _ (List.cons_ne_nil _ _))
  behind line c hc := by
    refine ofLine?_concat (fun heq => ?_) line
    rw [heq] at hc
    cases hc
  ahead line c hc := by
    refine Option.ext fun f => ?_
    rw [ofLine?_eq_some_iff, ofLine?_eq_some_iff]
    constructor
    · rintro ⟨l, htext, hshows⟩
      cases hindent : l.indent with
      | nil =>
          -- without an indent the line starts with the word
          rw [FrameLine.text, hindent] at htext
          rw [(List.cons.inj htext).1] at hc
          cases hc
      | cons d indent =>
          have hblank := l.isIndent
          rw [hindent] at hblank
          refine ⟨{ l with indent, isIndent := (List.forall_mem_cons.mp hblank).2 }, ?_,
            hshows.qualifier, hshows.method, hshows.file, hshows.number⟩
          rw [FrameLine.text, hindent, List.cons_append] at htext
          exact (List.cons.inj htext).2
    · rintro ⟨l, rfl, hshows⟩
      exact ⟨{ l with
        indent := c :: l.indent
        isIndent := List.forall_mem_cons.mpr ⟨hc, l.isIndent⟩ }, rfl,
        hshows.qualifier, hshows.method, hshows.file, hshows.number⟩

end StackFrame

namespace FailureText

open Text

variable {text : List Char}

theorem headline_of_lines {first : List Char} {rest : List (List Char)}
    (h : lines (trim text) = first :: rest) : headline text = trim first := by
  rw [headline, h]

/-- The lines of a text with more than one line. -/
theorem body_of_lines {first second : List Char} {rest : List (List Char)}
    (h : lines (trim text) = first :: second :: rest) :
    body text = trim (unlines (second :: rest)) := by
  rw [body, h]

/-- What is read of the lines behind the first one is read of the stack trace. -/
theorem filterMap_lines_body {β : Type} {f : List Char → Option β} (hf : SkipsBlanks f)
    (h : 2 ≤ (lines (trim text)).length) :
    (lines (body text)).filterMap f = (lines (trim text)).tail.filterMap f := by
  match hlines : lines (trim text) with
  | [] => rw [hlines] at h; exact absurd h (by decide)
  | [first] => rw [hlines] at h; exact absurd h (by simp)
  | first :: second :: rest =>
      have hfeed : ∀ row ∈ second :: rest, '\n' ∉ row := fun row hrow =>
        not_mem_of_mem_lines (hlines ▸ List.mem_cons_of_mem first hrow)
      rw [body_of_lines hlines, hf.filterMap_lines_trim,
        hf.toSkipsEnd.filterMap_lines_unlines hfeed]
      rfl

/-- The first line of a text is not blank. -/
theorem solid?_first {first : List Char} {rest : List (List Char)}
    (h : lines (trim text) = first :: rest) : solid? first = some (trim first) := by
  cases htrim : trim text with
  | nil =>
      rw [htrim] at h
      cases h
  | cons c tail =>
      have hc := isBlank_head_trim htrim
      rw [htrim] at h
      obtain ⟨more, rfl⟩ := exists_cons_of_lines hc h
      refine solid?_of_ne fun hnil => ?_
      have hblank := trim_eq_nil_iff.mp hnil c List.mem_cons_self
      rw [hc] at hblank
      cases hblank

/-- **A failure text in two parts** loses no line: what its lines say is its message, followed by
    what the lines of its stack trace say, and the frames of the stack trace are those on the lines
    behind the first one.  A text of one line, or of none, is both message and stack trace. -/
theorem headline_body (text : List Char) :
    (2 ≤ (lines (trim text)).length →
      solidLines text = headline text :: solidLines (body text)
      ∧ StackFrame.parseAll (String.ofList (body text))
        = (lines (trim text)).tail.filterMap StackFrame.ofLine?)
    ∧ ((lines (trim text)).length ≤ 1 → headline text = trim text ∧ body text = trim text) := by
  constructor
  · intro hlength
    have hlines : solidLines text = headline text :: solidLines (body text) := by
      rw [solidLines_eq, solidLines_eq, filterMap_lines_body skipsBlanks_solid? hlength,
        ← skipsBlanks_solid?.filterMap_lines_trim text]
      cases hlines : lines (trim text) with
      | nil =>
          rw [hlines] at hlength
          exact absurd hlength (by decide)
      | cons first rest =>
          rw [List.filterMap_cons_some (solid?_first hlines), headline_of_lines hlines,
            List.tail_cons]
    refine ⟨hlines, ?_⟩
    rw [StackFrame.parseAll, String.toList_ofList,
      filterMap_lines_body StackFrame.skipsBlanks_ofLine? hlength]
  · intro hlength
    cases hlines : lines (trim text) with
    | nil =>
        rw [headline, body, hlines, lines_eq_nil_iff.mp hlines]
        exact ⟨rfl, rfl⟩
    | cons line rest =>
        rw [hlines, List.length_cons] at hlength
        have hrest : rest.length = 0 := Nat.le_zero.mp (Nat.le_of_succ_le_succ hlength)
        obtain rfl := List.eq_nil_of_length_eq_zero hrest
        have hline := (trimmed_trim text).eq_of_lines hlines
        rw [headline_of_lines hlines, body, hlines, hline]
        exact ⟨trimmed_trim text, rfl⟩

/-- A failure text with a blank line in it and three kinds of line ends. -/
def mixedEnds : List Char :=
  "\n  expected: <3> but was: <0>\r\r\n \r\n\tat x.FooTest.run(FooTest.java:10)\n caused\r".toList

/-- A failure text of four lines, and one of a single line. -/
theorem headline_body_mixedEnds :
    2 ≤ (lines (trim mixedEnds)).length
    ∧ (lines (trim " lost\r\n".toList)).length ≤ 1
    ∧ (solidLines mixedEnds = headline mixedEnds :: solidLines (body mixedEnds)
      ∧ StackFrame.parseAll (String.ofList (body mixedEnds))
        = (lines (trim mixedEnds)).tail.filterMap StackFrame.ofLine?)
    ∧ headline " lost\r\n".toList = trim " lost\r\n".toList
    ∧ body " lost\r\n".toList = trim " lost\r\n".toList := by
  have hmany : 2 ≤ (lines (trim mixedEnds)).length := by decide +kernel
  have hone : (lines (trim " lost\r\n".toList)).length ≤ 1 := by decide +kernel
  exact ⟨hmany, hone, (headline_body mixedEnds).1 hmany, (headline_body _).2 hone⟩

end FailureText

end FailureTriage
