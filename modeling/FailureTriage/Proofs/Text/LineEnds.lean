import FailureTriage.Proofs.Text.Trimming
import FailureTriage.Text.Lines
import Mathlib.Data.List.DropRight

/-!
# Lines read one by one

A reader that looks neither at the blanks behind a line nor at a line without characters finds the
same in the lines of a text as in the parts between its line feeds, whatever stands before them.
So it does not notice the blanks around the text either.

* `SkipsEnd`, `SkipsBlanks`: readers of lines that do not look at blanks.
* `SkipsEnd.filterMap_lines`: the lines are the parts between the line feeds.
* `SkipsBlanks.filterMap_lines_trim`: what is read of a trimmed text.
* `filterMap_lines_unlines`, `lines_unlines`: lines that are put together.
-/

namespace FailureTriage.Text

variable {β : Type} {f : List Char → Option β} {text before after : List Char}

/-! ## Readers of lines -/

/-- Whether a reader finds nothing on an empty line and does not look at the blanks behind a
    line. -/
structure SkipsEnd (f : List Char → Option β) : Prop where
  empty : f [] = none
  behind : ∀ (line : List Char) (c : Char), isBlank c = true → f (line ++ [c]) = f line

/-- Whether a reader finds nothing on an empty line and does not look at the blanks around a
    line. -/
structure SkipsBlanks (f : List Char → Option β) : Prop extends SkipsEnd f where
  ahead : ∀ (line : List Char) (c : Char), isBlank c = true → f (c :: line) = f line

/-- **The lines are the parts between the line feeds**, for such a reader. -/
theorem SkipsEnd.filterMap_lines (h : SkipsEnd f) (text : List Char) :
    (lines text).filterMap f = (splitOn '\n' text).filterMap f := by
  induction hlength : text.length using Nat.strong_induction_on generalizing text with
  | h length ih =>
      subst hlength
      by_cases hmem : '\n' ∈ text
      · obtain ⟨line, rest, rfl, hline⟩ := List.eq_append_cons_of_mem hmem
        obtain ⟨first, hlines, hfirst⟩ := lines_append hline rest
        have hsame : f first = f line := by
          rcases hfirst with rfl | rfl
          · rfl
          · exact (h.behind first '\r' rfl).symm
        have hshort : rest.length < (line ++ '\n' :: rest).length := by
          rw [List.length_append, List.length_cons]
          omega
        rw [hlines, splitOn_append, splitOn_of_not_mem hline, List.singleton_append,
          List.filterMap_cons, List.filterMap_cons, hsame, ih _ hshort rest rfl]
      · rw [splitOn_of_not_mem hmem]
        by_cases hnil : text = []
        · rw [hnil, lines_nil, List.filterMap_cons_none h.empty]
        · rw [lines_of_not_mem hmem hnil]

/-- One more blank behind a text makes a line longer, or an empty line. -/
private theorem SkipsEnd.filterMap_splitOn_concat (h : SkipsEnd f) {c : Char}
    (hc : isBlank c = true) (text : List Char) :
    (splitOn '\n' (text ++ [c])).filterMap f = (splitOn '\n' text).filterMap f := by
  by_cases hfeed : c = '\n'
  · subst hfeed
    rw [splitOn_append, List.filterMap_append,
      show splitOn '\n' [] = [[]] from rfl, List.filterMap_cons_none h.empty]
    exact List.append_nil _
  · have hnot : '\n' ∉ [c] := fun hmem => hfeed (List.mem_singleton.mp hmem).symm
    obtain ⟨parts, last, hbefore, hboth⟩ := splitOn_append_of_not_mem hnot text
    rw [hbefore, hboth, List.filterMap_append, List.filterMap_append, List.filterMap_cons,
      List.filterMap_cons, h.behind last c hc]

/-- Blanks behind a text make no difference. -/
theorem SkipsEnd.filterMap_lines_append (h : SkipsEnd f)
    (hafter : ∀ c ∈ after, isBlank c = true) (text : List Char) :
    (lines (text ++ after)).filterMap f = (lines text).filterMap f := by
  rw [h.filterMap_lines, h.filterMap_lines]
  induction after generalizing text with
  | nil => rw [List.append_nil]
  | cons c after ih =>
      obtain ⟨hc, hafter⟩ := List.forall_mem_cons.mp hafter
      rw [List.append_cons, ih hafter, h.filterMap_splitOn_concat hc]

/-- Blanks before a text make no difference. -/
theorem SkipsBlanks.filterMap_lines_padded (h : SkipsBlanks f)
    (hbefore : ∀ c ∈ before, isBlank c = true) (text : List Char) :
    (lines (before ++ text)).filterMap f = (lines text).filterMap f := by
  rw [h.filterMap_lines, h.filterMap_lines]
  induction before with
  | nil => rfl
  | cons c before ih =>
      obtain ⟨hc, hbefore⟩ := List.forall_mem_cons.mp hbefore
      rw [List.cons_append, ← ih hbefore]
      by_cases hfeed : c = '\n'
      · rw [hfeed, splitOn_cons_separator, List.filterMap_cons_none h.empty]
      · obtain ⟨first, rest, hparts⟩ := exists_splitOn '\n' (before ++ text)
        rw [splitOn_cons hfeed hparts, hparts, List.filterMap_cons, List.filterMap_cons,
          h.ahead first c hc]

/-! ## Trimmed texts -/

/-- A text is what is left of it when it is trimmed, with blanks behind it. -/
theorem exists_eq_trimEnd_append (text : List Char) :
    ∃ after, text = trimEnd text ++ after ∧ ∀ c ∈ after, isBlank c = true :=
  ⟨text.rtakeWhile isBlank, List.rdropWhile_append_rtakeWhile.symm,
    fun _ hc => List.mem_rtakeWhile_imp hc⟩

/-- A text is what is left of it when it is trimmed, with blanks before it. -/
theorem exists_eq_append_trimStart (text : List Char) :
    ∃ before, text = before ++ trimStart text ∧ ∀ c ∈ before, isBlank c = true :=
  ⟨text.takeWhile isBlank, List.takeWhile_append_dropWhile.symm,
    fun _ hc => List.mem_takeWhile_imp hc⟩

/-- A text without blanks behind it ends with no blank. -/
theorem isBlank_getLast {c : Char} (h : trimEnd text = text) (hlast : text.getLast? = some c) :
    isBlank c = false := by
  have hkept : List.rdropWhile isBlank text = text := h
  rw [List.rdropWhile_eq_self_iff] at hkept
  obtain ⟨start, rfl⟩ := List.getLast?_eq_some_iff.mp hlast
  have hne : start ++ [c] ≠ [] := List.append_ne_nil_of_right_ne_nil _ (List.cons_ne_nil _ _)
  have hc := hkept hne
  rw [List.getLast_concat] at hc
  exact Bool.eq_false_iff.mpr hc

/-- A trimmed text stays as it is. -/
theorem trimmed_trim (text : List Char) : Trimmed (trim text) := by
  obtain ⟨before, hbefore, hblank⟩ := exists_eq_append_trimStart text
  obtain ⟨after, hafter, hblank'⟩ := exists_eq_trimEnd_append (trimStart text)
  have htext : text = before ++ trim text ++ after := by
    rw [List.append_assoc, trim, ← hafter, ← hbefore]
  exact (trim_padded hblank hblank' (trim text)).symm.trans (congrArg trim htext.symm)

/-- Blanks behind a text make no difference, be they there or not. -/
theorem SkipsEnd.filterMap_lines_trimEnd (h : SkipsEnd f) (text : List Char) :
    (lines (trimEnd text)).filterMap f = (lines text).filterMap f := by
  obtain ⟨after, hafter, hblank⟩ := exists_eq_trimEnd_append text
  rw [← h.filterMap_lines_append hblank, ← hafter]

/-- **Trimming a text** makes no difference to a reader that does not look at blanks. -/
theorem SkipsBlanks.filterMap_lines_trim (h : SkipsBlanks f) (text : List Char) :
    (lines (trim text)).filterMap f = (lines text).filterMap f := by
  obtain ⟨before, hbefore, hblank⟩ := exists_eq_append_trimStart text
  rw [trim, h.toSkipsEnd.filterMap_lines_trimEnd, ← h.filterMap_lines_padded hblank, ← hbefore]

/-! ## Lines that are put together -/

variable {rows : List (List Char)}

theorem unlines_cons_cons (first second : List Char) (rest : List (List Char)) :
    unlines (first :: second :: rest) = first ++ '\n' :: unlines (second :: rest) := by
  show first ++ ['\n'] ++ unlines (second :: rest) = _
  rw [List.append_assoc]
  rfl

/-- Lines that are put together are the parts between the line feeds. -/
theorem splitOn_unlines (hne : rows ≠ []) (hrows : ∀ row ∈ rows, '\n' ∉ row) :
    splitOn '\n' (unlines rows) = rows := by
  induction rows with
  | nil => exact absurd rfl hne
  | cons first rest ih =>
      obtain ⟨hfirst, hrest⟩ := List.forall_mem_cons.mp hrows
      cases rest with
      | nil => exact splitOn_of_not_mem hfirst
      | cons second rest =>
          rw [unlines_cons_cons, splitOn_append, splitOn_of_not_mem hfirst,
            ih (List.cons_ne_nil _ _) hrest]
          rfl

/-- **What is read of lines that are put together** is what is read of them one by one. -/
theorem SkipsEnd.filterMap_lines_unlines (h : SkipsEnd f) (hrows : ∀ row ∈ rows, '\n' ∉ row) :
    (lines (unlines rows)).filterMap f = rows.filterMap f := by
  by_cases hnil : rows = []
  · rw [hnil]
    rfl
  · rw [h.filterMap_lines, splitOn_unlines hnil hrows]

/-- Lines that are put together are read back, if none is empty and none ends in a carriage
    return. -/
theorem lines_unlines (hrows : ∀ row ∈ rows, '\n' ∉ row) (hne : ∀ row ∈ rows, row ≠ [])
    (hreturn : ∀ row ∈ rows, row.getLast? ≠ some '\r') : lines (unlines rows) = rows := by
  induction rows with
  | nil => rfl
  | cons first rest ih =>
      obtain ⟨hfirst, hrest⟩ := List.forall_mem_cons.mp hrows
      obtain ⟨hneFirst, hneRest⟩ := List.forall_mem_cons.mp hne
      obtain ⟨hreturnFirst, hreturnRest⟩ := List.forall_mem_cons.mp hreturn
      cases rest with
      | nil => exact lines_of_not_mem hfirst hneFirst
      | cons second rest =>
          obtain ⟨line, hlines, hline⟩ := lines_append hfirst (unlines (second :: rest))
          have hsame : line = first := by
            rcases hline with hline | hline
            · exact hline.symm
            · rw [hline, List.getLast?_concat] at hreturnFirst
              exact absurd rfl hreturnFirst
          rw [unlines_cons_cons, hlines, hsame, ih hrest hneRest hreturnRest]

theorem hasText_unlines {first : List Char} (h : HasText first) (rest : List (List Char)) :
    HasText (unlines (first :: rest)) := by
  cases rest with
  | nil => exact h
  | cons second rest =>
      rw [unlines_cons_cons]
      exact hasText_append.mpr (Or.inl h)

/-- The blanks before lines that are put together are those before the first of them. -/
theorem trimStart_unlines {first : List Char} (h : HasText first) (rest : List (List Char)) :
    trimStart (unlines (first :: rest)) = unlines (trimStart first :: rest) := by
  cases rest with
  | nil => rfl
  | cons second rest => rw [unlines_cons_cons, unlines_cons_cons, trimStart_append h]

/-- Lines without blanks behind them have none when they are put together. -/
theorem trimEnd_unlines (hrows : ∀ row ∈ rows, HasText row ∧ trimEnd row = row) :
    trimEnd (unlines rows) = unlines rows := by
  induction rows with
  | nil => rfl
  | cons first rest ih =>
      obtain ⟨⟨-, hend⟩, hrest⟩ := List.forall_mem_cons.mp hrows
      cases rest with
      | nil => exact hend
      | cons second rest =>
          have htext := hasText_unlines (hrest second List.mem_cons_self).1 rest
          rw [unlines_cons_cons, List.append_cons, trimEnd_append htext, ih hrest]

/-! ## The first line -/

/-- Only an empty text has no line. -/
theorem lines_eq_nil_iff : lines text = [] ↔ text = [] := by
  refine ⟨fun h => ?_, fun h => h ▸ lines_nil⟩
  by_contra hne
  by_cases hmem : '\n' ∈ text
  · obtain ⟨line, rest, rfl, hline⟩ := List.eq_append_cons_of_mem hmem
    obtain ⟨first, hlines, -⟩ := lines_append hline rest
    rw [hlines] at h
    cases h
  · rw [lines_of_not_mem hmem hne] at h
    cases h

/-- A text that starts with no blank starts as its first line does. -/
theorem exists_cons_of_lines {c : Char} {first : List Char} {rest : List (List Char)}
    (hc : isBlank c = false) (h : lines (c :: text) = first :: rest) :
    ∃ more, first = c :: more := by
  by_cases hmem : '\n' ∈ c :: text
  · obtain ⟨line, later, htext, hline⟩ := List.eq_append_cons_of_mem hmem
    obtain ⟨start, hlines, hstart⟩ := lines_append hline later
    rw [htext, hlines] at h
    obtain rfl := (List.cons.inj h).1
    -- the first character is neither the line feed nor a carriage return before it
    cases start with
    | nil =>
        rcases hstart with rfl | rfl
        · rw [(List.cons.inj htext).1] at hc
          cases hc
        · rw [(List.cons.inj htext).1] at hc
          cases hc
    | cons d more =>
        have hd : c = d := by
          rcases hstart with rfl | rfl
          · exact (List.cons.inj htext).1
          · exact (List.cons.inj htext).1
        exact ⟨more, by rw [hd]⟩
  · rw [lines_of_not_mem hmem (List.cons_ne_nil _ _)] at h
    exact ⟨text, (List.cons.inj h).1.symm⟩

/-- A trimmed text of one line is that line. -/
theorem Trimmed.eq_of_lines {line : List Char} (h : Trimmed text) (hlines : lines text = [line]) :
    line = text := by
  by_cases hmem : '\n' ∈ text
  · obtain ⟨start, rest, rfl, hstart⟩ := List.eq_append_cons_of_mem hmem
    obtain ⟨first, hfirst, -⟩ := lines_append hstart rest
    rw [hfirst] at hlines
    -- nothing follows the line feed, so the text ends in a blank
    obtain rfl := lines_eq_nil_iff.mp (List.cons.inj hlines).2
    cases isBlank_getLast h.trimEnd_eq List.getLast?_concat
  · have hne : text ≠ [] := by
      rintro rfl
      cases hlines
    rw [lines_of_not_mem hmem hne] at hlines
    exact (List.cons.inj hlines).1.symm

end FailureTriage.Text
