import FailureTriage.Text.Blank

/-!
# Lines

A line ends at a line feed, and one carriage return just before that line feed belongs to the line
end.  A carriage return anywhere else is part of its line, and a text that ends in a line feed has
no empty line after it.

* `lines_append`, `lines_of_not_mem`: where a line ends.
* `lines_append_lines`, `length_lines`: the lines before a line feed, and their number.
* `not_mem_of_mem_lines`: no line has a line feed in it.
-/

namespace FailureTriage.Text

/-- A finished line from its characters in reverse order, without the carriage return of its end. -/
private def closeLine : List Char → List Char
  | '\r' :: reversed => reversed.reverse
  | reversed => reversed.reverse

/-- The lines of a text, given the characters of the current line in reverse order. -/
private def linesFrom : List Char → List Char → List (List Char)
  | [], [] => []
  | [], current => [current.reverse]
  | '\n' :: rest, current => closeLine current :: linesFrom rest []
  | c :: rest, current => linesFrom rest (c :: current)

/-- The lines of a text, without their line ends. -/
def lines (text : List Char) : List (List Char) :=
  linesFrom text []

/-- The parts, with `separator` between each two of them. -/
def joinWith (separator : List Char) : List (List Char) → List Char
  | [] => []
  | [part] => part
  | part :: rest => part ++ separator ++ joinWith separator rest

/-- The lines as one text, with a line feed between each two of them. -/
def unlines (parts : List (List Char)) : List Char :=
  joinWith ['\n'] parts

@[simp] theorem lines_nil : lines [] = [] := rfl

private theorem linesFrom_of_not_mem {text : List Char} (h : '\n' ∉ text)
    (current rest : List Char) :
    linesFrom (text ++ '\n' :: rest) current
      = closeLine (text.reverse ++ current) :: linesFrom rest [] := by
  induction text generalizing current with
  | nil => rfl
  | cons c text ih =>
    rw [List.mem_cons, not_or] at h
    rw [List.cons_append, linesFrom, ih h.2, List.reverse_cons, List.append_assoc,
      List.singleton_append]
    exact fun hc => h.1 hc.symm

/-- A line feed ends a line, and one carriage return before it belongs to the line end. -/
theorem lines_append {text : List Char} (h : '\n' ∉ text) (rest : List Char) :
    ∃ line, lines (text ++ '\n' :: rest) = line :: lines rest
      ∧ (text = line ∨ text = line ++ ['\r']) := by
  refine ⟨closeLine (text.reverse ++ []), linesFrom_of_not_mem h [] rest, ?_⟩
  rw [List.append_nil]
  cases hlast : text.reverse with
  | nil => exact Or.inl (List.reverse_eq_nil_iff.mp hlast)
  | cons c before =>
    rw [← List.reverse_reverse text, hlast]
    by_cases hc : c = '\r'
    · subst hc
      exact Or.inr List.reverse_cons
    · exact Or.inl (by simp [closeLine, hc])

/-- A text without a line feed is one line, unless it is empty. -/
theorem lines_of_not_mem {text : List Char} (h : '\n' ∉ text) (hne : text ≠ []) :
    lines text = [text] := by
  have hfrom : ∀ current, current ≠ [] ∨ text ≠ [] →
      linesFrom text current = [current.reverse ++ text] := by
    clear hne
    induction text with
    | nil =>
      intro current hne
      cases current with
      | nil => simp at hne
      | cons c current => simp [linesFrom]
    | cons c text ih =>
      intro current _
      rw [List.mem_cons, not_or] at h
      rw [linesFrom, ih h.2 _ (Or.inl (List.cons_ne_nil _ _)), List.reverse_cons,
        List.append_assoc, List.singleton_append]
      exact fun hc => h.1 hc.symm
  exact hfrom [] (Or.inr hne)

/-- The lines up to a line feed do not depend on what follows it. -/
theorem lines_append_lines (before rest : List Char) :
    lines (before ++ '\n' :: rest) = lines (before ++ ['\n']) ++ lines rest := by
  have hfrom : ∀ current, linesFrom (before ++ '\n' :: rest) current
      = linesFrom (before ++ ['\n']) current ++ linesFrom rest [] := by
    induction before with
    | nil =>
      intro current
      rfl
    | cons c before ih =>
      intro current
      by_cases hc : c = '\n'
      · subst hc
        exact congrArg (closeLine current :: ·) (ih [])
      · rw [List.cons_append, List.cons_append, linesFrom, linesFrom]
        · exact ih (c :: current)
        · exact hc
        · exact hc
  exact hfrom []

/-- Each line feed ends a line. -/
theorem length_lines (before : List Char) :
    (lines (before ++ ['\n'])).length = before.count '\n' + 1 := by
  have hfrom : ∀ current,
      (linesFrom (before ++ ['\n']) current).length = before.count '\n' + 1 := by
    induction before with
    | nil =>
      intro current
      rfl
    | cons c before ih =>
      intro current
      by_cases hc : c = '\n'
      · subst hc
        rw [List.count_cons_self, ← ih []]
        rfl
      · rw [List.cons_append, linesFrom, ih, List.count_cons_of_ne hc]
        exact hc
  exact hfrom []

/-- A line feed ends a line and is in none. -/
theorem not_mem_of_mem_lines {text line : List Char} (h : line ∈ lines text) : '\n' ∉ line := by
  have hclose : ∀ current : List Char, '\n' ∉ current → '\n' ∉ closeLine current := by
    intro current hcurrent
    cases current with
    | nil => simp [closeLine]
    | cons c current =>
      by_cases hc : c = '\r'
      · subst hc
        intro hmem
        exact hcurrent (List.mem_cons_of_mem _ (List.mem_reverse.mp hmem))
      · rw [closeLine, List.mem_reverse]
        · exact hcurrent
        · exact fun rest heq => hc (List.cons.inj heq).1
  have hfrom : ∀ current, '\n' ∉ current → ∀ line ∈ linesFrom text current, '\n' ∉ line := by
    clear h
    induction text with
    | nil =>
      intro current hcurrent line hline
      cases current with
      | nil => cases hline
      | cons c current =>
        rw [List.mem_singleton.mp hline, List.mem_reverse]
        exact hcurrent
    | cons c text ih =>
      intro current hcurrent line hline
      by_cases hc : c = '\n'
      · subst hc
        rcases List.mem_cons.mp hline with rfl | hline
        · exact hclose current hcurrent
        · exact ih [] List.not_mem_nil line hline
      · have hmore : '\n' ∉ c :: current := by
          rw [List.mem_cons, not_or]
          exact ⟨Ne.symm hc, hcurrent⟩
        rw [linesFrom] at hline
        · exact ih (c :: current) hmore line hline
        · exact hc
  exact hfrom [] List.not_mem_nil line h

end FailureTriage.Text
