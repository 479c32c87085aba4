import FailureTriage.Proofs.Markup.Sequence

/-!
# The pieces of a document

A document as runs of text and pieces of markup in turn, each with the event that is read from it.

* `pieces` cuts a document up; `Reads` is the same as a relation, one rule for each way to go on.
* `Reads.flatMap_text`: nothing of a well-formed document is lost.
* `Reads.eventsFrom_eq`: its events are those of its pieces.
* `Reads.exists_cut`: what is read of a document that is cut short.
-/

namespace FailureTriage.Markup

/-- A part of a document, with the event that is read from it. -/
structure Piece where
  text : List Char
  event : Option Event

/-- Whether a piece is markup, and not a run of text. -/
def Piece.isMarkup (p : Piece) : Bool :=
  p.text.head? == some '<'

/-- The pieces from a place between two pieces of markup on, up to the first fault. -/
def readPieces : (fuel : Nat) → (text : List Char) → (openNames : List (List Char)) → List Piece
  | 0, _, _ => []
  | fuel + 1, text, openNames =>
    let run := text.takeWhile (· != '<')
    ⟨run, textEvent? run⟩ ::
      match text.dropWhile (· != '<') with
      | [] => []
      | _ :: markup =>
        match readMarkup markup openNames with
        | none => []
        | some step =>
          ⟨'<' :: markup.take (markup.length - step.rest.length), step.event⟩
            :: readPieces fuel step.rest step.openNames

/-- The pieces of a document, up to the first fault in it. -/
def pieces (document : List Char) : List Piece :=
  readPieces (document.length + 1) document []

/-- The events of some pieces. -/
def eventsOf (ps : List Piece) : List Event :=
  ps.filterMap (·.event)

/-- Where the first `k` pieces end. -/
def offset (ps : List Piece) (k : Nat) : Nat :=
  ((ps.take k).flatMap (·.text)).length

theorem eventsOf_cons (p : Piece) (ps : List Piece) :
    eventsOf (p :: ps) = p.event.toList ++ eventsOf ps := by
  cases hevent : p.event <;> simp [eventsOf, hevent]

theorem eventsOf_append (first second : List Piece) :
    eventsOf (first ++ second) = eventsOf first ++ eventsOf second :=
  List.filterMap_append

/-! ## Offsets -/

@[simp] theorem offset_zero (ps : List Piece) : offset ps 0 = 0 := rfl

@[simp] theorem offset_cons_succ (p : Piece) (ps : List Piece) (k : Nat) :
    offset (p :: ps) (k + 1) = p.text.length + offset ps k := by
  rw [offset, offset, List.take_succ_cons, List.flatMap_cons, List.length_append]

theorem offset_succ {ps : List Piece} {k : Nat} {p : Piece} (h : ps[k]? = some p) :
    offset ps (k + 1) = offset ps k + p.text.length := by
  rw [offset, offset, List.take_add_one, h, List.flatMap_append, List.length_append]
  simp

theorem offset_mono (ps : List Piece) {k m : Nat} (h : k ≤ m) : offset ps k ≤ offset ps m := by
  rw [offset, offset, ← List.take_append_drop k (ps.take m), List.take_take,
    Nat.min_eq_left h, List.flatMap_append, List.length_append]
  exact Nat.le_add_right _ _

/-! ## Reading piece by piece -/

/-- The pieces of a well-formed text, read from a place between two pieces of markup on. -/
inductive Reads : List (List Char) → List Char → List Piece → Prop
  /-- No markup is left. -/
  | run {openNames : List (List Char)} {run : List Char} (hrun : '<' ∉ run) :
      Reads openNames run [⟨run, textEvent? run⟩]
  /-- A run of text comes before a piece of markup. -/
  | markup {openNames : List (List Char)} {run taken : List Char} {s : Step} {ps : List Piece}
      (hrun : '<' ∉ run) (hspans : Spans (readMarkup · openNames) taken s.withRest)
      (hrest : Reads s.openNames s.rest ps) :
      Reads openNames (run ++ '<' :: (taken ++ s.rest))
        (⟨run, textEvent? run⟩ :: ⟨'<' :: taken, s.event⟩ :: ps)

theorem reads_readPieces {fuel : Nat} {text : List Char} {openNames : List (List Char)}
    (hfuel : text.length < fuel) (hformed : (eventsFrom text openNames).wellFormed = true) :
    Reads openNames text (readPieces fuel text openNames) := by
  induction fuel generalizing text openNames with
  | zero => exact absurd hfuel (Nat.not_lt_zero _)
  | succ fuel ih =>
      rw [readPieces]
      have hrun : '<' ∉ text.takeWhile (· != '<') := by
        intro hmem
        exact absurd (List.all_eq_true.mp List.all_takeWhile _ hmem) (by simp)
      have htext := List.takeWhile_append_dropWhile (p := (· != '<')) (l := text)
      cases hdrop : text.dropWhile (· != '<') with
      | nil =>
          rw [hdrop, List.append_nil] at htext
          rw [htext] at hrun ⊢
          exact .run hrun
      | cons c markup =>
          have hc : c = '<' := by
            have := List.head?_dropWhile_not (· != '<') text
            rw [hdrop] at this
            simpa using this
          subst hc
          rw [hdrop] at htext
          rw [← htext, eventsFrom_markup hrun] at hformed
          cases hread : readMarkup markup openNames with
          | none =>
              rw [hread] at hformed
              cases hformed
          | some s =>
              rw [hread] at hformed
              obtain ⟨taken, htaken, hspans⟩ := spans_readMarkup hread
              have hlength : s.rest.length < fuel := by
                have := congrArg List.length htext
                rw [htaken] at this
                simp only [List.length_append, List.length_cons] at this
                omega
              have hps := Reads.markup hrun hspans (ih hlength hformed)
              rw [← htaken, htext] at hps
              have hcut : markup.take (markup.length - s.rest.length) = taken := by
                rw [htaken, List.length_append, Nat.add_sub_cancel]
                exact List.take_left
              simp only [hread, hcut]
              exact hps

/-- **A well-formed document** is read piece by piece. -/
theorem reads_pieces {document : List Char}
    (hformed : (eventsFrom document []).wellFormed = true) : Reads [] document (pieces document) :=
  reads_readPieces (Nat.lt_succ_self _) hformed

namespace Reads

variable {openNames : List (List Char)} {text : List Char} {ps : List Piece}

/-- **Nothing is lost**: the pieces make up the text. -/
theorem flatMap_text (h : Reads openNames text ps) : ps.flatMap (·.text) = text := by
  induction h with
  | run hrun => exact List.append_nil _
  | markup hrun hspans hrest ih =>
      rw [List.flatMap_cons, List.flatMap_cons, ih]
      rfl

/-- **The events** of a text are those of its pieces. -/
theorem eventsFrom_eq (h : Reads openNames text ps) :
    eventsFrom text openNames = ⟨eventsOf ps, true⟩ := by
  induction h with
  | run hrun => rw [eventsFrom_end hrun, eventsOf_cons, eventsOf, List.filterMap_nil,
      List.append_nil]
  | @markup openNames run taken s ps hrun hspans hrest ih =>
      rw [eventsFrom_markup hrun, hspans.whole, eventsOf_cons, eventsOf_cons, ← List.append_assoc]
      show EventList.after _ (eventsFrom s.rest s.openNames) = _
      rw [ih]
      rfl

/-- A run of text is no markup. -/
private theorem isMarkup_run {run : List Char} (hrun : '<' ∉ run) :
    Piece.isMarkup ⟨run, textEvent? run⟩ = false := by
  cases run with
  | nil => rfl
  | cons c run =>
      have hc : c ≠ '<' := fun heq => hrun (heq ▸ List.mem_cons_self)
      simpa [Piece.isMarkup] using hc

/-- A piece that is no markup is a run of text. -/
theorem event_of_plain (h : Reads openNames text ps) {p : Piece} (hp : p ∈ ps)
    (hplain : p.isMarkup = false) : p.event = textEvent? p.text := by
  induction h with
  | run hrun =>
      obtain rfl := List.mem_singleton.mp hp
      rfl
  | markup hrun hspans hrest ih =>
      rcases List.mem_cons.mp hp with rfl | hp
      · rfl
      rcases List.mem_cons.mp hp with rfl | hp
      · cases hplain
      · exact ih hp

/-- **A text that is cut short** is read up to the cut: a run of text may be cut anywhere, and a
    piece of markup only at its ends. -/
theorem exists_cut (h : Reads openNames text ps) {n : Nat} (hn : n ≤ text.length) :
    ∃ k p, ps[k]? = some p ∧ offset ps k ≤ n ∧ n ≤ offset ps (k + 1)
      ∧ ((p.isMarkup = false ∧ eventsFrom (text.take n) openNames
            = ⟨eventsOf (ps.take k) ++ (textEvent? (p.text.take (n - offset ps k))).toList, true⟩)
        ∨ (p.isMarkup = true ∧ offset ps k < n ∧ n < offset ps (k + 1)
          ∧ eventsFrom (text.take n) openNames = ⟨eventsOf (ps.take k), false⟩)) := by
  -- a run that is cut is still a run
  have hcutRun : ∀ {run rest : List Char} {openNames : List (List Char)} {n : Nat}, '<' ∉ run →
      n ≤ run.length → eventsFrom ((run ++ rest).take n) openNames
        = ⟨(textEvent? (run.take n)).toList, true⟩ := by
    intro run rest openNames n hrun hle
    rw [List.take_append_of_le_length hle,
      eventsFrom_end fun hmem => hrun (List.mem_of_mem_take hmem)]
  induction h generalizing n with
  | @run openNames run hrun =>
      refine ⟨0, _, rfl, Nat.zero_le _, by simpa using hn, Or.inl ⟨isMarkup_run hrun, ?_⟩⟩
      have := @hcutRun run [] openNames n hrun hn
      rwa [List.append_nil] at this
  | @markup openNames run taken s ps hrun hspans hrest ih =>
      by_cases hin : n ≤ run.length
      · exact ⟨0, _, rfl, Nat.zero_le _, by simpa using hin,
          Or.inl ⟨isMarkup_run hrun, hcutRun hrun hin⟩⟩
      · -- the cut is `m` characters behind the bracket
        obtain ⟨m, rfl⟩ : ∃ m, n = run.length + (m + 1) := ⟨n - run.length - 1, by omega⟩
        have htake : (run ++ '<' :: (taken ++ s.rest)).take (run.length + (m + 1))
            = run ++ '<' :: (taken ++ s.rest).take m := by
          rw [List.take_length_add_append, List.take_succ_cons]
        rw [htake, eventsFrom_markup hrun]
        by_cases hshort : m < taken.length
        · have hnone : readMarkup ((taken ++ s.rest).take m) openNames = none := by
            rw [List.take_append_of_le_length (Nat.le_of_lt hshort)]
            exact hspans.short m hshort
          refine ⟨1, _, rfl, ?_, ?_, Or.inr ⟨rfl, ?_, ?_, ?_⟩⟩
          case refine_5 =>
            rw [hnone, List.take_succ_cons, List.take_zero, eventsOf_cons, eventsOf,
              List.filterMap_nil, List.append_nil]
          all_goals simp only [offset_cons_succ, offset_zero, List.length_cons]
          all_goals omega
        · -- the whole piece of markup is left, and the cut is in what comes after it
          obtain ⟨m, rfl⟩ : ∃ more, m = taken.length + more := ⟨m - taken.length, by omega⟩
          rw [List.take_length_add_append, hspans.whole]
          have hm : m ≤ s.rest.length := by
            simp only [List.length_append, List.length_cons] at hn
            omega
          obtain ⟨k, p, hp, hlow, hhigh, hcut⟩ := ih hm
          have hk : ∀ k, offset (⟨run, textEvent? run⟩ :: ⟨'<' :: taken, s.event⟩ :: ps) (k + 2)
              = run.length + (taken.length + 1) + offset ps k := by
            intro k
            rw [offset_cons_succ, offset_cons_succ, ← Nat.add_assoc]
            rfl
          refine ⟨k + 2, p, hp, by rw [hk]; omega, by rw [hk (k + 1)]; omega, ?_⟩
          have hbefore : eventsOf
              ((⟨run, textEvent? run⟩ :: ⟨'<' :: taken, s.event⟩ :: ps).take (k + 2))
                = (textEvent? run).toList ++ s.event.toList ++ eventsOf (ps.take k) := by
            rw [List.take_succ_cons, List.take_succ_cons, eventsOf_cons, eventsOf_cons,
              List.append_assoc]
          rw [hbefore]
          rcases hcut with ⟨hplain, hevents⟩ | ⟨hmarkup, hstrict, hlast, hevents⟩
          · refine Or.inl ⟨hplain, ?_⟩
            have hbehind : run.length + (taken.length + m + 1)
                - (run.length + (taken.length + 1) + offset ps k) = m - offset ps k := by omega
            show EventList.after _ (eventsFrom (s.rest.take m) s.openNames) = _
            rw [hk, hbehind, hevents]
            exact congrArg (EventList.mk · true) (List.append_assoc _ _ _).symm
          · refine Or.inr ⟨hmarkup, by rw [hk]; omega, by rw [hk (k + 1)]; omega, ?_⟩
            show EventList.after _ (eventsFrom (s.rest.take m) s.openNames) = _
            rw [hevents]
            rfl

end Reads

end FailureTriage.Markup
