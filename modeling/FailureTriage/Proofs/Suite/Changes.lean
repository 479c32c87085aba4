import FailureTriage.Proofs.Suite.Sources

/-!
# What one piece of a report can do

The things that one piece can do to the sources of what has been read, said once; what none of them
can do holds from piece to piece.

* `Sources.Change`, `change_next`: what one piece can do.
* `Change.closed`, `Change.testCase`, `Change.records`: closed suites stay closed, the open test
  case keeps its failures, and no record is lost.
* `Sources.after_induction`: what one piece leaves true holds after any number of them.
-/

namespace FailureTriage

open Markup

namespace Sources

variable {s later : Sources} {target onward : TextTarget} {place : Nat} {p : Piece}

/-! ## What one piece can do -/

/-- Whether a piece neither begins nor ends anything that is kept track of.  The start tag of a
    failure does not, if no test case is open. -/
structure Passive (p : Piece) (s : Sources) : Prop where
  suite : ∀ text, p.event ≠ some (.start "testsuite" text)
    ∧ p.event ≠ some (.selfClosed "testsuite" text) ∧ p.event ≠ some (.close "testsuite")
  testCase : ∀ text, p.event ≠ some (.start "testcase" text) ∧ p.event ≠ some (.close "testcase")
  failure : s.testCase = none
    ∨ ∀ (kind : FailureKind) text, p.event ≠ some (.start kind.label text)
  failureEnd : ∀ kind : FailureKind, p.event ≠ some (.close kind.label)

/-- What one piece at a place can do to the sources. -/
inductive Change (place : Nat) (p : Piece) (s : Sources) : Sources → Prop
  | same (h : Passive p s) : Change place p s s
  | openSuite {attributes : Attributes} {text : List Char}
      (h : p.event = some (.start "testsuite" text)) (hread : attributes? text = some attributes) :
      Change place p s (s.openSuite place attributes)
  | emptySuite {attributes : Attributes} {text : List Char}
      (h : p.event = some (.selfClosed "testsuite" text))
      (hread : attributes? text = some attributes) :
      Change place p s (s.emptySuite place attributes)
  | closeSuite (h : p.event = some (.close "testsuite")) : Change place p s s.closeSuite
  | openCase {attributes : Attributes} {text : List Char}
      (h : p.event = some (.start "testcase" text)) (hread : attributes? text = some attributes) :
      Change place p s (s.openCase place attributes)
  | closeCase (h : p.event = some (.close "testcase")) : Change place p s s.closeCase
  | openFailure {kind : FailureKind} {attributes : Attributes} {text : List Char}
      (h : p.event = some (.start kind.label text)) (hread : attributes? text = some attributes) :
      Change place p s (s.openFailure place kind attributes)
  | emptyFailure {kind : FailureKind} {attributes : Attributes} {text : List Char}
      (h : p.event = some (.selfClosed kind.label text))
      (hread : attributes? text = some attributes) :
      Change place p s (s.addFailure { place, kind, attributes })
  | closeFailure {kind : FailureKind} (h : p.event = some (.close kind.label)) :
      Change place p s s.closeFailure
  | addProperty (h : Passive p s) (attributes : Attributes) :
      Change place p s (s.addProperty attributes)
  | addText (h : Passive p s) (target : TextTarget) (text : String) :
      Change place p s (s.addText target text)

/-- What is made of attributes. -/
private theorem change_read {text : List Char} {make : Attributes → Sources}
    (h : (attributes? text).map (fun a => (make a, target)) = some (later, onward))
    (hmake : ∀ a, attributes? text = some a → Change place p s (make a)) :
    Change place p s later := by
  obtain ⟨attributes, hread, hlater⟩ := Option.map_eq_some_iff.mp h
  obtain ⟨rfl, -⟩ := Prod.mk.inj hlater
  exact hmake attributes hread

private theorem change_same (hpassive : Passive p s)
    (h : some (s, target) = some (later, onward)) : Change place p s later := by
  obtain ⟨rfl, -⟩ := Prod.mk.inj (Option.some.inj h)
  exact .same hpassive

/-- A piece that is no tag is passive. -/
private theorem passive_content
    (h : ∀ name text, p.event ≠ some (.start name text) ∧ p.event ≠ some (.selfClosed name text)
      ∧ p.event ≠ some (.close name)) : Passive p s where
  suite := h "testsuite"
  testCase text := ⟨(h _ text).1, (h _ text).2.2⟩
  failure := Or.inr fun _ text => (h _ text).1
  failureEnd _ := (h _ []).2.2

/-- A start tag of another name is passive. -/
private theorem passive_start {name : String} {text : List Char}
    (hevent : p.event = some (.start name text)) (hsuite : name ≠ "testsuite")
    (hcase : name ≠ "testcase")
    (hfailure : s.testCase = none ∨ ∀ kind : FailureKind, name ≠ kind.label) : Passive p s where
  suite := by simp [hevent, hsuite]
  testCase := by simp [hevent, hcase]
  failure := hfailure.imp_right fun hne kind text => by simp [hevent, hne kind]
  failureEnd := by simp [hevent]

private theorem change_start {name : String} {text : List Char}
    (hevent : p.event = some (.start name text))
    (h : s.start target place name text = some (later, onward)) : Change place p s later := by
  rw [start] at h
  split at h
  · rename_i hname
    exact change_read h fun _ => .openSuite (hname ▸ hevent)
  rename_i hsuite
  split at h
  · rename_i hname
    subst hname
    have hpassive : Passive p s := passive_start hevent (by decide) (by decide)
      (Or.inr fun kind => kind.label_ne_property.symm)
    exact change_read h fun a _ => .addProperty hpassive a
  split at h
  · rename_i hname
    exact change_read h fun _ => .openCase (hname ▸ hevent)
  rename_i hcase
  split at h
  · rename_i hnone
    exact change_same (passive_start hevent hsuite hcase
      (Or.inl (Option.isNone_iff_eq_none.mp hnone))) h
  split at h
  · rename_i hname
    exact change_same (passive_start hevent hsuite hcase
      (Or.inr fun kind => hname ▸ kind.label_ne_output.1.symm)) h
  split at h
  · rename_i hname
    exact change_same (passive_start hevent hsuite hcase
      (Or.inr fun kind => hname ▸ kind.label_ne_output.2.symm)) h
  split at h
  · rename_i kind hkind
    exact change_read h fun _ => .openFailure (FailureKind.ofLabel?_eq_some hkind ▸ hevent)
  · rename_i hkind
    exact change_same (passive_start hevent hsuite hcase
      (Or.inr (FailureKind.ofLabel?_eq_none hkind))) h

private theorem change_selfClosed {name : String} {text : List Char}
    (hevent : p.event = some (.selfClosed name text))
    (h : s.selfClosed target place name text = some (later, onward)) : Change place p s later := by
  rw [selfClosed] at h
  split at h
  · rename_i hname
    exact change_read h fun _ => .emptySuite (hname ▸ hevent)
  rename_i hsuite
  have hpassive : Passive p s :=
    ⟨by simp [hevent, hsuite], by simp [hevent], Or.inr (by simp [hevent]), by simp [hevent]⟩
  split at h
  · exact change_read h fun a _ => .addProperty hpassive a
  split at h
  · rename_i kind hkind
    split at h
    · exact change_same hpassive h
    · exact change_read h fun _ => .emptyFailure (FailureKind.ofLabel?_eq_some hkind ▸ hevent)
  · exact change_same hpassive h

private theorem change_close {name : String} (hevent : p.event = some (.close name)) :
    Change place p s (s.close target name).1 := by
  rw [close]
  split
  · rename_i hname
    exact .closeSuite (hname ▸ hevent)
  rename_i hsuite
  split
  · rename_i hname
    exact .closeCase (hname ▸ hevent)
  rename_i hcase
  have hpassive : (∀ kind : FailureKind, name ≠ kind.label) → Passive p s := fun hfailure =>
    ⟨by simp [hevent, hsuite], by simp [hevent, hcase], Or.inr (by simp [hevent]),
      by simp [hevent, hfailure]⟩
  split
  · rename_i houtput
    refine .same (hpassive fun kind hname => ?_)
    rw [hname] at houtput
    exact absurd houtput (by cases kind <;> decide)
  cases hkind : FailureKind.ofLabel? name with
  | some kind => exact .closeFailure (FailureKind.ofLabel?_eq_some hkind ▸ hevent)
  | none => exact .same (hpassive (FailureKind.ofLabel?_eq_none hkind))

/-- **One piece** does one of these things. -/
theorem change_next (h : s.next target place p = some (later, onward)) :
    Change place p s later := by
  rw [next] at h
  cases hevent : p.event with
  | none =>
      rw [hevent] at h
      exact change_same (passive_content (by simp [hevent])) h
  | some event =>
      rw [hevent] at h
      cases event with
      | start name text => exact change_start hevent h
      | selfClosed name text => exact change_selfClosed hevent h
      | close name =>
          have hchange : Change place p s (s.close target name).1 := change_close hevent
          rw [Option.some.inj h] at hchange
          exact hchange
      | text raw =>
          obtain ⟨text, -, hlater⟩ := Option.map_eq_some_iff.mp h
          obtain ⟨rfl, -⟩ := Prod.mk.inj hlater
          exact .addText (passive_content (by simp [hevent])) _ _
      | verbatim content =>
          obtain ⟨rfl, -⟩ := Prod.mk.inj (Option.some.inj h)
          exact .addText (passive_content (by simp [hevent])) _ _

/-- **Suites that are closed** stay closed. -/
theorem Change.closed (h : Change place p s later) : s.closed <:+ later.closed := by
  cases h with
  | same | openSuite | openCase | closeCase | openFailure | emptyFailure =>
      exact List.suffix_refl _
  | emptySuite => exact List.suffix_cons _ _
  | closeSuite =>
      rw [Sources.closeSuite]
      split
      · exact List.suffix_cons _ _
      · exact List.suffix_refl _
  | closeFailure =>
      rw [Sources.closeFailure]
      split <;> exact List.suffix_refl _
  | addProperty h attributes =>
      rw [Sources.addProperty]
      split <;> exact List.suffix_refl _
  | addText h target text => cases target <;> exact List.suffix_refl _

/-- **The open test case** stays open with its failures, unless a tag of a test case follows. -/
theorem Change.testCase (h : Change place p s later)
    (hstart : ∀ text, p.event ≠ some (.start "testcase" text))
    (hclose : p.event ≠ some (.close "testcase")) {c : CaseSource} (hc : c ∈ s.testCase) :
    ∃ d ∈ later.testCase, d.place = c.place ∧ c.failures ⊆ d.failures := by
  have hkept : ∀ {now : Sources}, now.testCase = s.testCase →
      ∃ d ∈ now.testCase, d.place = c.place ∧ c.failures ⊆ d.failures := fun hsame =>
    ⟨c, hsame ▸ hc, rfl, List.Subset.refl _⟩
  have hadded : ∀ failure : FailureSource,
      ∃ d ∈ (s.addFailure failure).testCase, d.place = c.place ∧ c.failures ⊆ d.failures := by
    intro failure
    refine ⟨{ c with failures := c.failures ++ [failure] }, ?_, rfl,
      List.subset_append_left _ _⟩
    rw [Sources.addFailure, Option.mem_def.mp hc]
    rfl
  cases h with
  | same | openSuite | emptySuite | openFailure => exact hkept rfl
  | closeSuite =>
      refine hkept ?_
      rw [Sources.closeSuite]
      split <;> rfl
  | openCase hevent => exact absurd hevent (hstart _)
  | closeCase hevent => exact absurd hevent hclose
  | emptyFailure => exact hadded _
  | closeFailure =>
      rw [Sources.closeFailure]
      split
      · exact hadded _
      · exact hkept rfl
  | addProperty h attributes =>
      refine hkept ?_
      rw [Sources.addProperty]
      split <;> rfl
  | addText h target text =>
      cases target with
      | nowhere | failureText => exact hkept rfl
      | systemOut =>
          refine ⟨{ c with systemOut := c.systemOut ++ text }, ?_, rfl, List.Subset.refl _⟩
          rw [Sources.addText, Option.mem_def.mp hc]
          rfl
      | systemErr =>
          refine ⟨{ c with systemErr := c.systemErr ++ text }, ?_, rfl, List.Subset.refl _⟩
          rw [Sources.addText, Option.mem_def.mp hc]
          rfl

/-- The records of all suites. -/
def records (s : Sources) : List (CaseSource × FailureSource) :=
  (s.opened ++ s.closed).flatMap (·.records)

/-- **Records** are never lost. -/
theorem Change.records (h : Change place p s later) : s.records ⊆ later.records := by
  have hkept : ∀ {now : Sources}, now.records = s.records → s.records ⊆ now.records :=
    fun hsame => hsame ▸ List.Subset.refl _
  cases h with
  | same | openSuite | openCase | openFailure | emptyFailure => exact hkept rfl
  | emptySuite =>
      refine hkept ?_
      simp [Sources.records, Sources.emptySuite]
  | closeSuite =>
      rw [Sources.closeSuite]
      split
      · rename_i suite outer hopened
        have hperm : (outer ++ suite :: s.closed).Perm (s.opened ++ s.closed) := by
          rw [hopened]
          exact List.perm_middle
        exact (hperm.symm.flatMap_right _).subset
      · exact hkept rfl
  | closeCase =>
      intro r hr
      rw [Sources.records, Sources.closeCase]
      cases hopened : s.opened with
      | nil =>
          rw [Sources.records, hopened] at hr
          exact hr
      | cons suite outer =>
          rw [Sources.records, hopened, List.cons_append, List.flatMap_cons] at hr
          rw [ReportBuilder.mapFirst, List.cons_append, List.flatMap_cons, List.append_assoc]
          exact (List.sublist_append_right _ _).append_left _ |>.subset hr
  | closeFailure =>
      rw [Sources.closeFailure]
      split <;> exact hkept rfl
  | addProperty h attributes =>
      rw [Sources.addProperty]
      split
      · refine hkept ?_
        cases hopened : s.opened <;> simp [Sources.records, hopened, ReportBuilder.mapFirst]
      · exact hkept rfl
  | addText h target text =>
      cases target <;> exact hkept rfl

/-! ## From piece to piece -/

/-- What has been closed after some pieces stays closed after more of them. -/
theorem exists_after_append {ps more : List Piece} (h : after (ps ++ more) = some (later, onward)) :
    ∃ s target, after ps = some (s, target) ∧ s.closed <:+ later.closed := by
  induction more using List.reverseRecOn generalizing later onward with
  | nil => exact ⟨later, onward, List.append_nil ps ▸ h, List.suffix_refl _⟩
  | append_singleton more p ih =>
      rw [← List.append_assoc, after_snoc] at h
      obtain ⟨⟨before, middle⟩, hbefore, hnext⟩ := Option.bind_eq_some_iff.mp h
      obtain ⟨s, target, hs, hclosed⟩ := ih hbefore
      exact ⟨s, target, hs, hclosed.trans (change_next hnext).closed⟩

theorem after_take_succ {ps : List Piece} {k : Nat} (hp : ps[k]? = some p) :
    after (ps.take (k + 1)) = (after (ps.take k)).bind fun now => now.1.next now.2 k p := by
  have hlength : (ps.take k).length = k :=
    List.length_take_of_le (Nat.le_of_lt (List.getElem?_eq_some_iff.mp hp).1)
  rw [List.take_add_one, hp, Option.toList_some, after_snoc, hlength]

/-- What the piece at a place does to what has been read before it. -/
theorem exists_next {ps : List Piece} {k : Nat} (hp : ps[k]? = some p)
    (h : after (ps.take (k + 1)) = some (later, onward)) :
    ∃ s target, after (ps.take k) = some (s, target)
      ∧ s.next target k p = some (later, onward) := by
  rw [after_take_succ hp] at h
  obtain ⟨⟨s, target⟩, hbefore, hnext⟩ := Option.bind_eq_some_iff.mp h
  exact ⟨s, target, hbefore, hnext⟩

/-- **What every piece between two places leaves true** is true at the second place, if it is at the
    first. -/
theorem after_induction {ps : List Piece} {first last : Nat}
    (holds : Nat → Sources → TextTarget → Prop) (hle : first ≤ last) (hlast : last ≤ ps.length)
    (hfirst : ∀ s target, after (ps.take first) = some (s, target) → holds first s target)
    (hstep : ∀ k p s target later onward, first ≤ k → k < last → ps[k]? = some p →
      holds k s target → s.next target k p = some (later, onward) → holds (k + 1) later onward)
    (h : after (ps.take last) = some (s, target)) : holds last s target := by
  induction last, hle using Nat.le_induction generalizing s target with
  | base => exact hfirst s target h
  | succ k hk ih =>
      have hp : ps[k]? = some ps[k] := List.getElem?_eq_getElem hlast
      obtain ⟨before, middle, hbefore, hnext⟩ := exists_next hp h
      refine hstep k ps[k] before middle s target hk (Nat.lt_succ_self k) hp ?_ hnext
      refine ih (Nat.le_of_succ_le hlast) (fun m p s target later onward hm hlt => ?_) hbefore
      exact hstep m p s target later onward hm (Nat.lt_succ_of_lt hlt)

end Sources

end FailureTriage
