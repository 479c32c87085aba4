import FailureTriage.Proofs.Markup.Extent

/-!
# The events from a place on

The reading of a document, without the fuel that bounds it and the events that it has passed.

* `eventsFrom` are the events from a place between two pieces of markup on.
* `eventsFrom_end`, `eventsFrom_markup`: a text without markup, and the first piece of markup in a
  text, decide how the reading goes on.
-/

namespace FailureTriage.Markup

/-- What is left after a piece of markup is not longer than the text it was in. -/
theorem length_of_readMarkup {text : List Char} {openNames : List (List Char)} {step : Step}
    (h : readMarkup text openNames = some step) : step.rest.length ≤ text.length := by
  obtain ⟨taken, rfl, -⟩ := spans_readMarkup h
  rw [List.length_append]
  exact Nat.le_add_left _ _

/-! ## Fuel and the events that are passed -/

/-- The same reading with more events before its own. -/
def EventList.after (found : List Event) (later : EventList) : EventList :=
  ⟨found ++ later.events, later.wellFormed⟩

@[simp] theorem EventList.after_nil (later : EventList) : later.after [] = later := rfl

@[simp] theorem EventList.after_after (first second : List Event) (later : EventList) :
    (later.after second).after first = later.after (first ++ second) := by
  simp [EventList.after]

private theorem reverse_toList {α : Type} (o : Option α) : o.toList.reverse = o.toList := by
  cases o <;> rfl

/-- The text that a piece of markup starts is the rest after its bracket. -/
private theorem length_of_dropWhile {text : List Char} {c : Char} {markup : List Char}
    (h : text.dropWhile (· != '<') = c :: markup) : markup.length < text.length := by
  have := (List.dropWhile_suffix (l := text) (· != '<')).length_le
  rw [h, List.length_cons] at this
  omega

private theorem readEvents_succ (fuel : Nat) (text : List Char) (openNames : List (List Char))
    (found : List Event) :
    readEvents (fuel + 1) text openNames found
      = match text.dropWhile (· != '<') with
        | [] => ⟨((textEvent? (text.takeWhile (· != '<'))).toList ++ found).reverse, true⟩
        | _ :: markup =>
          match readMarkup markup openNames with
          | none => ⟨((textEvent? (text.takeWhile (· != '<'))).toList ++ found).reverse, false⟩
          | some step => readEvents fuel step.rest step.openNames
              (step.event.toList ++ ((textEvent? (text.takeWhile (· != '<'))).toList ++ found)) :=
  rfl

/-- The events found already stand before those that are still found. -/
private theorem readEvents_found (fuel : Nat) (text : List Char) (openNames : List (List Char))
    (found : List Event) :
    readEvents fuel text openNames found
      = (readEvents fuel text openNames []).after found.reverse := by
  -- the events found so far are kept in reverse, in front of which the next ones are put
  induction fuel generalizing text openNames found with
  | zero => simp [readEvents, EventList.after]
  | succ fuel ih =>
      rw [readEvents_succ, readEvents_succ]
      cases text.dropWhile (· != '<') with
      | nil => simp [EventList.after]
      | cons c markup =>
          cases hread : readMarkup markup openNames with
          | none => simp [hread, EventList.after]
          | some step =>
              simp only [hread]
              rw [ih, ih step.rest step.openNames (step.event.toList ++ (_ ++ []))]
              simp

/-- More fuel than the text is long changes nothing. -/
private theorem readEvents_fuel {fuel more : Nat} {text : List Char} (h : text.length < fuel)
    (h' : text.length < more) (openNames : List (List Char)) (found : List Event) :
    readEvents fuel text openNames found = readEvents more text openNames found := by
  -- every piece of markup leaves less text than there was, so no fuel runs out first
  induction fuel generalizing more text openNames found with
  | zero => exact absurd h (Nat.not_lt_zero _)
  | succ fuel ih =>
      obtain ⟨more, rfl⟩ : ∃ k, more = k + 1 := ⟨more - 1, by omega⟩
      rw [readEvents_succ, readEvents_succ]
      cases hdrop : text.dropWhile (· != '<') with
      | nil => rfl
      | cons c markup =>
          have hlen := length_of_dropWhile hdrop
          cases hread : readMarkup markup openNames with
          | none => simp [hread]
          | some step =>
              have := length_of_readMarkup hread
              simp only [hread]
              exact ih (by omega) (by omega) _ _

/-! ## The events from a place on -/

/-- The events from a place between two pieces of markup on. -/
def eventsFrom (text : List Char) (openNames : List (List Char)) : EventList :=
  readEvents (text.length + 1) text openNames []

private theorem takeWhile_run {run : List Char} (h : '<' ∉ run) (rest : List Char)
    (hrest : rest = [] ∨ ∃ markup, rest = '<' :: markup) :
    (run ++ rest).takeWhile (· != '<') = run ∧ (run ++ rest).dropWhile (· != '<') = rest := by
  have hrun : ∀ c ∈ run, (c != '<') = true := by
    intro c hc
    rw [bne_iff_ne]
    exact fun heq => h (heq ▸ hc)
  rw [List.takeWhile_append_of_pos hrun, List.dropWhile_append_of_pos hrun]
  rcases hrest with rfl | ⟨markup, rfl⟩
  · exact ⟨List.append_nil run, rfl⟩
  · exact ⟨List.append_nil run, rfl⟩

/-- **A text without markup** is the last event, unless it is blank. -/
theorem eventsFrom_end {run : List Char} (h : '<' ∉ run) (openNames : List (List Char)) :
    eventsFrom run openNames = ⟨(textEvent? run).toList, true⟩ := by
  have hsplit := takeWhile_run h [] (Or.inl rfl)
  rw [List.append_nil] at hsplit
  rw [eventsFrom, readEvents_succ, hsplit.1, hsplit.2, List.append_nil]
  show EventList.mk _ _ = _
  rw [reverse_toList]

/-- **The first piece of markup** decides how the reading goes on. -/
theorem eventsFrom_markup {run : List Char} (h : '<' ∉ run) (markup : List Char)
    (openNames : List (List Char)) :
    eventsFrom (run ++ '<' :: markup) openNames
      = match readMarkup markup openNames with
        | none => ⟨(textEvent? run).toList, false⟩
        | some step => (eventsFrom step.rest step.openNames).after
            ((textEvent? run).toList ++ step.event.toList) := by
  have hsplit := takeWhile_run h ('<' :: markup) (Or.inr ⟨markup, rfl⟩)
  rw [eventsFrom, readEvents_succ, hsplit.1, hsplit.2]
  cases hread : readMarkup markup openNames with
  | none =>
      simp only [hread, List.append_nil, reverse_toList]
  | some step =>
      have hlen := length_of_readMarkup hread
      simp only [hread, List.append_nil]
      rw [readEvents_found, List.reverse_append, reverse_toList, reverse_toList, eventsFrom,
        readEvents_fuel (by rw [List.length_append, List.length_cons]; omega)
          (Nat.lt_succ_self _)]

end FailureTriage.Markup
