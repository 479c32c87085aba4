import FailureTriage.Proofs.Markup.Content
import FailureTriage.Proofs.Suite.Changes
import FailureTriage.Proofs.Suite.Truncation

/-!
# Texts of failures

What the record of a failure keeps of the content of its element: the text of every run without the
blanks at its ends, and every section as it stands, one after the other.

* `FailureElement`: a failure in a test case of a suite, with nothing but text in it.
* `Accepted.hasRecord`: every such failure has a record with what is kept of its content.
* `parseReport_rawText`: when that is the whole text, up to the blanks at its ends.
-/

namespace FailureTriage

open Markup

/-! ## What the pieces of a failure do -/

namespace Sources

variable {s later : Sources} {target onward : TextTarget} {place : Nat} {p : Piece}
  {kind : FailureKind} {text : List Char}

/-- The start tag of a test case opens it. -/
theorem next_openCase (hevent : p.event = some (.start "testcase" text))
    (h : s.next target place p = some (later, onward)) :
    ∃ attributes, later = s.openCase place attributes := by
  rw [next, hevent] at h
  obtain ⟨attributes, -, hlater⟩ := Option.map_eq_some_iff.mp h
  exact ⟨attributes, (Prod.mk.inj hlater).1.symm⟩

/-- The end tag of a test case closes it. -/
theorem next_closeCase (hevent : p.event = some (.close "testcase"))
    (h : s.next target place p = some (later, onward)) : later = s.closeCase := by
  rw [next, hevent] at h
  exact (Prod.mk.inj (Option.some.inj h)).1.symm

/-- The start tag of a failure in a test case opens it, and text goes there. -/
theorem next_openFailure (hevent : p.event = some (.start kind.label text))
    (hcase : s.testCase ≠ none) (h : s.next target place p = some (later, onward)) :
    ∃ attributes, later = s.openFailure place kind attributes ∧ onward = .failureText := by
  have hcase : ¬ s.testCase.isNone = true := fun hnone =>
    hcase (Option.isNone_iff_eq_none.mp hnone)
  rw [next, hevent] at h
  have h : s.start target place kind.label text = some (later, onward) := h
  rw [start, if_neg kind.label_ne_testsuite, if_neg kind.label_ne_property,
    if_neg kind.label_ne_testcase, if_neg hcase, if_neg kind.label_ne_output.1,
    if_neg kind.label_ne_output.2, kind.ofLabel?_label] at h
  obtain ⟨attributes, -, hlater⟩ := Option.map_eq_some_iff.mp h
  obtain ⟨hlater, honward⟩ := Prod.mk.inj hlater
  exact ⟨attributes, hlater.symm, honward.symm⟩

/-- The tag of a failure without content in a test case is one of its failures. -/
theorem next_emptyFailure (hevent : p.event = some (.selfClosed kind.label text))
    (hcase : s.testCase ≠ none) (h : s.next target place p = some (later, onward)) :
    ∃ attributes, later = s.addFailure { place, kind, attributes } := by
  have hcase : ¬ s.testCase.isNone = true := fun hnone =>
    hcase (Option.isNone_iff_eq_none.mp hnone)
  rw [next, hevent] at h
  have h : s.selfClosed target place kind.label text = some (later, onward) := h
  rw [selfClosed, if_neg kind.label_ne_testsuite, if_neg kind.label_ne_property,
    kind.ofLabel?_label] at h
  dsimp only at h
  rw [if_neg hcase] at h
  obtain ⟨attributes, -, hlater⟩ := Option.map_eq_some_iff.mp h
  exact ⟨attributes, (Prod.mk.inj hlater).1.symm⟩

/-- The end tag of a failure closes it. -/
theorem next_closeFailure (hevent : p.event = some (.close kind.label))
    (h : s.next target place p = some (later, onward)) : later = s.closeFailure := by
  have houtput : ¬ (kind.label = "system-out" || kind.label = "system-err") = true := by
    cases kind <;> decide
  rw [next, hevent] at h
  have h : some (s.close target kind.label) = some (later, onward) := h
  rw [close, if_neg kind.label_ne_testsuite, if_neg kind.label_ne_testcase,
    if_neg houtput, kind.ofLabel?_label] at h
  exact (Prod.mk.inj (Option.some.inj h)).1.symm

/-- A piece of content adds to the text of the open failure what is kept of it. -/
theorem next_content (hplain : p.isTag = false)
    (h : s.next .failureText place p = some (later, onward)) :
    onward = .failureText ∧ later.testCase = s.testCase
      ∧ later.pending = s.pending.map fun f =>
          { f with text := f.text ++ String.ofList p.kept } := by
  rw [next] at h
  rw [Piece.isTag] at hplain
  rw [Piece.kept]
  cases hevent : p.event with
  | none =>
      rw [hevent] at h
      obtain ⟨rfl, rfl⟩ := Prod.mk.inj (Option.some.inj h)
      refine ⟨rfl, rfl, ?_⟩
      cases s.pending with
      | none => rfl
      | some f => exact congrArg some (by simp)
  | some event =>
      rw [hevent] at h hplain
      cases event with
      | start name text => cases hplain
      | selfClosed name text => cases hplain
      | close name => cases hplain
      | text raw =>
          obtain ⟨text, htext, hlater⟩ := Option.map_eq_some_iff.mp h
          obtain ⟨rfl, rfl⟩ := Prod.mk.inj hlater
          refine ⟨rfl, rfl, ?_⟩
          show _ = s.pending.map fun f =>
            { f with text := f.text ++ String.ofList ((unescape? raw).getD []) }
          rw [htext]
          rfl
      | verbatim content =>
          obtain ⟨rfl, rfl⟩ := Prod.mk.inj (Option.some.inj h)
          exact ⟨rfl, rfl, rfl⟩

/-- A test case that is closed in a suite leaves its failures there. -/
theorem mem_records_closeCase {c : CaseSource} {f : FailureSource} (hc : c ∈ s.testCase)
    (hf : f ∈ c.failures) (hopened : s.opened ≠ []) : (c, f) ∈ s.closeCase.records := by
  obtain ⟨suite, outer, hsuite⟩ := List.exists_cons_of_ne_nil hopened
  have hmem : (c, f) ∈ s.caseRecords := by
    rw [caseRecords, Option.mem_def.mp hc]
    exact List.mem_map.mpr ⟨f, hf, rfl⟩
  rw [records, closeCase, hsuite, ReportBuilder.mapFirst, List.cons_append, List.flatMap_cons]
  exact List.mem_append_left _ (List.mem_append_right _ hmem)

end Sources

/-! ## Failures in a test case -/

/-- A failure in a test case of a suite, by the places of the first and the last piece of the
    failure and of the test case, with nothing but text and sections in it. -/
structure FailureElement (ps : List Piece) (kind : FailureKind) (first last case caseLast : Nat) :
    Prop where
  element : (first, last) ∈ elements ps kind.label
  inCase : enclosing? ps "testcase" first = some case
  caseElement : (case, caseLast) ∈ elements ps "testcase"
  /-- No other test case begins inside of the test case. -/
  only : ∀ k < caseLast, case < k → startName? ps k ≠ some "testcase"
  inSuite : (enclosing? ps "testsuite" case).isSome = true
  plain : ∀ p ∈ content ps first last, p.isTag = false

instance {ps : List Piece} {kind : FailureKind} {first last case caseLast : Nat} :
    Decidable (FailureElement ps kind first last case caseLast) :=
  decidable_of_iff ((first, last) ∈ elements ps kind.label
      ∧ enclosing? ps "testcase" first = some case ∧ (case, caseLast) ∈ elements ps "testcase"
      ∧ (∀ k < caseLast, case < k → startName? ps k ≠ some "testcase")
      ∧ (enclosing? ps "testsuite" case).isSome = true
      ∧ ∀ p ∈ content ps first last, p.isTag = false)
    ⟨fun ⟨element, inCase, caseElement, only, inSuite, plain⟩ =>
        ⟨element, inCase, caseElement, only, inSuite, plain⟩,
      fun h => ⟨h.element, h.inCase, h.caseElement, h.only, h.inSuite, h.plain⟩⟩

/-- A test case is open that begins at a place. -/
def Sources.InCase (s : Sources) (case : Nat) : Prop :=
  ∃ c ∈ s.testCase, c.place = case

/-- The source of a failure that begins at a place, with what is kept of its content up to
    another. -/
structure FailureSource.Holds (f : FailureSource) (ps : List Piece) (kind : FailureKind)
    (first last : Nat) : Prop where
  place : f.place = first
  kind : f.kind = kind
  text : f.text = String.ofList (keptText (content ps first last))

/-- A failure is open in a test case, and text goes there. -/
structure Sources.Collects (s : Sources) (target : TextTarget) (ps : List Piece)
    (kind : FailureKind) (case first last : Nat) : Prop where
  target : target = .failureText
  inCase : s.InCase case
  pending : ∃ f ∈ s.pending, f.Holds ps kind first last

/-- A failure is one of those of the open test case. -/
def Sources.HasFailure (s : Sources) (ps : List Piece) (kind : FailureKind)
    (case first last : Nat) : Prop :=
  ∃ c ∈ s.testCase, c.place = case ∧ ∃ f ∈ c.failures, f.Holds ps kind first last

/-- A failure has a record. -/
def Sources.HasRecord (s : Sources) (ps : List Piece) (kind : FailureKind)
    (case first last : Nat) : Prop :=
  ∃ r ∈ s.records, r.1.place = case ∧ r.2.Holds ps kind first last

/-- A failure that is added to the open test case is one of its failures. -/
theorem Sources.InCase.addFailure {s : Sources} {f : FailureSource} {ps : List Piece}
    {kind : FailureKind} {case first last : Nat} (h : s.InCase case)
    (hf : f.Holds ps kind first last) : (s.addFailure f).HasFailure ps kind case first last := by
  obtain ⟨c, hc, hplace⟩ := h
  refine ⟨{ c with failures := c.failures ++ [f] }, ?_, hplace, f,
    List.mem_append_right _ List.mem_cons_self, hf⟩
  rw [Sources.addFailure, Option.mem_def.mp hc]
  rfl

/-- A test case is open. -/
theorem Sources.InCase.ne_none {s : Sources} {case : Nat} (h : s.InCase case) :
    s.testCase ≠ none := by
  obtain ⟨c, hc, -⟩ := h
  exact fun hnone => nomatch hnone ▸ hc

namespace FailureElement

variable {ps : List Piece} {kind : FailureKind} {first last case caseLast k : Nat} {p : Piece}

theorem bounds (h : FailureElement ps kind first last case caseLast) (hnested : Nested ps) :
    case < first ∧ first ≤ last ∧ last < caseLast ∧ caseLast < ps.length := by
  obtain ⟨hcase, hle⟩ := hnested.enclosing?_bounds h.inCase h.caseElement
  have hne : case ≠ caseLast := Nat.ne_of_lt (Nat.lt_of_lt_of_le hcase hle)
  obtain ⟨-, hclose, -⟩ := hnested.element h.caseElement hne
  have hlt : first < caseLast := by
    refine Nat.lt_of_le_of_ne hle ?_
    rintro rfl
    by_cases heq : first = last
    · obtain ⟨-, ⟨-, text, hself⟩ | ⟨hend, -⟩⟩ :=
        elementEnding?_eq_some (mem_elements.mp h.element)
      · rw [← heq, hclose] at hself
        cases hself
      · rw [← heq, hclose] at hend
        have hname := Event.close.inj (Option.some.inj hend)
        exact kind.label_ne_testcase hname.symm
    · obtain ⟨text, hstart⟩ := startName?_eq_some.mp (hnested.element h.element heq).1
      rw [hclose] at hstart
      cases hstart
  exact ⟨hcase, le_of_element h.element, hnested.inside_ends_before h.caseElement h.element
    (kind.label_ne_testcase) hcase hlt, lt_of_eventAt? hclose⟩

/-- No tag of a test case stands in the test case. -/
theorem not_caseTag (h : FailureElement ps kind first last case caseLast) (hnested : Nested ps)
    (hcase : case < k) (hlast : k < caseLast) (hp : ps[k]? = some p) :
    (∀ text, p.event ≠ some (.start "testcase" text)) ∧ p.event ≠ some (.close "testcase") := by
  rw [← eventAt?_of_getElem? hp]
  constructor
  · intro text hevent
    exact h.only k hlast hcase (startName?_eq_some.mpr ⟨text, hevent⟩)
  · exact hnested.not_close_inside h.caseElement (fun k hk hlt => h.only k hlt hk) hcase hlast

end FailureElement

namespace Accepted

variable {file : Path} {document : List Char} {suites : List TestSuite} {b : ReportBuilder}
  {kind : FailureKind} {first last case caseLast : Nat} {s : Sources} {target : TextTarget}

/-- The pieces of an accepted report can be read. -/
theorem readable (h : Accepted file document suites b) : ∀ p ∈ pieces document, p.Readable := by
  intro p hp
  obtain ⟨k, hk⟩ := List.getElem?_of_mem hp
  exact {
    run := fun hplain => ⟨h.reads.event_of_plain hp hplain, h.unescape?_ne_none hk hplain⟩
    markup := fun hmarkup => h.reads.event_ne_text hp hmarkup }

/-- The test case is open before the failure. -/
theorem case_open (h : Accepted file document suites b)
    (hfailure : FailureElement (pieces document) kind first last case caseLast)
    (hafter : Sources.after ((pieces document).take first) = some (s, target)) :
    s.InCase case := by
  have hnested := h.reads.nested
  obtain ⟨hcase, hfirst, hlast, hlength⟩ := hfailure.bounds hnested
  refine Sources.after_induction (fun _ s _ => s.InCase case) hcase (by omega)
    (fun s target hopened => ?_) (fun k p s target later onward hk hlt hp hopen hnext => ?_) hafter
  · have hne : case ≠ caseLast := by omega
    obtain ⟨text, hevent⟩ :=
      startName?_eq_some.mp (hnested.element hfailure.caseElement hne).1
    obtain ⟨p, hp, hstart⟩ := exists_of_eventAt? hevent
    obtain ⟨before, middle, -, hnext⟩ := Sources.exists_next hp hopened
    obtain ⟨attributes, rfl⟩ := Sources.next_openCase hstart hnext
    exact ⟨_, rfl, rfl⟩
  · obtain ⟨c, hc, hplace⟩ := hopen
    obtain ⟨hstart, hclose⟩ := hfailure.not_caseTag hnested hk (by omega) hp
    obtain ⟨d, hd, hsame, -⟩ := (Sources.change_next hnext).testCase hstart hclose hc
    exact ⟨d, hd, hsame.trans hplace⟩

/-- The failure is open up to its end tag, with what is kept of its content up to there. -/
theorem collects (h : Accepted file document suites b)
    (hfailure : FailureElement (pieces document) kind first last case caseLast)
    (hlt : first < last)
    (hafter : Sources.after ((pieces document).take last) = some (s, target)) :
    s.Collects target (pieces document) kind case first last := by
  have hnested := h.reads.nested
  obtain ⟨hcase, hfirst, hlast, hlength⟩ := hfailure.bounds hnested
  refine Sources.after_induction
    (fun k s target => s.Collects target (pieces document) kind case first k) hlt (by omega)
    (fun s target hopened => ?_) (fun k p s target later onward hk hklast hp hopen hnext => ?_)
    hafter
  · obtain ⟨text, hevent⟩ :=
      startName?_eq_some.mp (hnested.element hfailure.element (Nat.ne_of_lt hlt)).1
    obtain ⟨p, hp, hstart⟩ := exists_of_eventAt? hevent
    obtain ⟨before, middle, hbefore, hnext⟩ := Sources.exists_next hp hopened
    have hinCase := h.case_open hfailure hbefore
    obtain ⟨attributes, rfl, rfl⟩ := Sources.next_openFailure hstart hinCase.ne_none hnext
    refine ⟨rfl, hinCase, _, rfl, rfl, rfl, ?_⟩
    rw [content_succ_self]
    rfl
  · obtain ⟨rfl, ⟨c, hc, hplace⟩, f, hf, hholds⟩ := hopen
    obtain ⟨rfl, hcaseSame, hpending⟩ :=
      Sources.next_content (hfailure.plain p (mem_content hk hklast hp)) hnext
    refine ⟨rfl, ⟨c, hcaseSame ▸ hc, hplace⟩,
      { f with text := f.text ++ String.ofList p.kept }, ?_, hholds.place, hholds.kind, ?_⟩
    · rw [hpending, Option.mem_def.mp hf]
      rfl
    · rw [content_succ hk hp, keptText_concat, String.ofList_append, hholds.text]

/-- The failure is one of its test case, with what is kept of its content. -/
theorem hasFailure (h : Accepted file document suites b)
    (hfailure : FailureElement (pieces document) kind first last case caseLast)
    (hafter : Sources.after ((pieces document).take (last + 1)) = some (s, target)) :
    s.HasFailure (pieces document) kind case first last := by
  have hnested := h.reads.nested
  by_cases heq : first = last
  · subst heq
    obtain ⟨-, ⟨-, text, hevent⟩ | ⟨-, rest, hopen⟩⟩ :=
      elementEnding?_eq_some (mem_elements.mp hfailure.element)
    · obtain ⟨p, hp, hself⟩ := exists_of_eventAt? hevent
      obtain ⟨before, middle, hbefore, hnext⟩ := Sources.exists_next hp hafter
      have hcase := h.case_open hfailure hbefore
      obtain ⟨attributes, rfl⟩ := Sources.next_emptyFailure hself hcase.ne_none hnext
      refine hcase.addFailure ⟨rfl, rfl, ?_⟩
      rw [content_self]
      rfl
    · exact absurd (innermost_take_lt hopen) (Nat.lt_irrefl first)
  · have hlt := Nat.lt_of_le_of_ne (le_of_element hfailure.element) heq
    obtain ⟨-, hevent, -⟩ := hnested.element hfailure.element heq
    obtain ⟨p, hp, hclose⟩ := exists_of_eventAt? hevent
    obtain ⟨before, middle, hbefore, hnext⟩ := Sources.exists_next hp hafter
    obtain ⟨-, hcase, f, hf, hholds⟩ := h.collects hfailure hlt hbefore
    obtain rfl := Sources.next_closeFailure hclose hnext
    rw [Sources.closeFailure, Option.mem_def.mp hf]
    exact hcase.addFailure hholds

/-- The failure stays one of its test case up to the end tag of that. -/
theorem keepsFailure (h : Accepted file document suites b)
    (hfailure : FailureElement (pieces document) kind first last case caseLast)
    (hafter : Sources.after ((pieces document).take caseLast) = some (s, target)) :
    s.HasFailure (pieces document) kind case first last := by
  have hnested := h.reads.nested
  obtain ⟨hcase, hfirst, hlast, hlength⟩ := hfailure.bounds hnested
  refine Sources.after_induction
    (fun _ s _ => s.HasFailure (pieces document) kind case first last) hlast (by omega)
    (fun s target hopened => h.hasFailure hfailure hopened)
    (fun k p s target later onward hk hklast hp hopen hnext => ?_) hafter
  obtain ⟨c, hc, hplace, f, hf, hholds⟩ := hopen
  obtain ⟨hstart, hclose⟩ := hfailure.not_caseTag hnested (by omega) hklast hp
  obtain ⟨d, hd, hsame, hsubset⟩ := (Sources.change_next hnext).testCase hstart hclose hc
  exact ⟨d, hd, hsame.trans hplace, f, hsubset hf, hholds⟩

/-- A suite is open where the test case ends. -/
theorem suite_open (h : Accepted file document suites b)
    (hfailure : FailureElement (pieces document) kind first last case caseLast)
    (hafter : Sources.after ((pieces document).take caseLast) = some (s, target)) :
    s.opened ≠ [] := by
  have hnested := h.reads.nested
  obtain ⟨hcase, hfirst, hlast, hlength⟩ := hfailure.bounds hnested
  obtain ⟨hname, -, rest, hopen⟩ := hnested.element hfailure.caseElement (by omega)
  have hlt : case < ((pieces document).take caseLast).length := innermost_lt hopen
  have hopened := (Sources.follows_after (hnested.take caseLast) hafter).opened
  have hsuite := hfailure.inSuite
  -- the suites around the test case are those that are open where it ends
  rw [← List.take_append_drop caseLast (pieces document)] at hname hsuite
  rw [startName?_append hlt] at hname
  rw [enclosing?_append (Nat.le_of_lt hlt), enclosing?_innermost hopen hname (by decide),
    ← hopened] at hsuite
  intro hnil
  rw [hnil] at hsuite
  cases hsuite

/-- Behind the test case, the failure has a record. -/
theorem hasRecord (h : Accepted file document suites b)
    (hfailure : FailureElement (pieces document) kind first last case caseLast)
    (hafter : Sources.after (pieces document) = some (s, target)) :
    s.HasRecord (pieces document) kind case first last := by
  have hnested := h.reads.nested
  obtain ⟨hcase, hfirst, hlast, hlength⟩ := hfailure.bounds hnested
  rw [← List.take_length (l := pieces document)] at hafter
  refine Sources.after_induction
    (fun _ s _ => s.HasRecord (pieces document) kind case first last) hlength (Nat.le_refl _)
    (fun s target hopened => ?_) (fun k p s target later onward hk hklast hp hopen hnext => ?_)
    hafter
  · obtain ⟨-, hevent, -⟩ := hnested.element hfailure.caseElement (by omega)
    obtain ⟨p, hp, hclose⟩ := exists_of_eventAt? hevent
    obtain ⟨before, middle, hbefore, hnext⟩ := Sources.exists_next hp hopened
    obtain rfl := Sources.next_closeCase hclose hnext
    obtain ⟨c, hc, hplace, f, hf, hholds⟩ := h.keepsFailure hfailure hbefore
    have hmem := Sources.mem_records_closeCase hc hf (h.suite_open hfailure hbefore)
    exact ⟨(c, f), hmem, hplace, hholds⟩
  · obtain ⟨r, hr, hplace, hholds⟩ := hopen
    exact ⟨r, (Sources.change_next hnext).records hr, hplace, hholds⟩

end Accepted

variable {file : Path} {document : String} {suites : List TestSuite} {kind : FailureKind}
  {first last case caseLast : Nat}

/-- **The record of a failure** keeps, of every run of text in its element, what stands between the
    blanks of markup at the ends of the run, and every section as it stands, one after the other.
    That is all of the text, up to the white space at its beginning and its end, exactly if no run
    has blanks at one of its ends with text on both sides of them; then the message and the stack
    trace are those of the whole text. -/
theorem parseReport_rawText (h : parseReport file document = .ok suites)
    (hfailure : FailureElement (pieces document.toList) kind first last case caseLast) :
    let ps := pieces document.toList
    let inside := content ps first last
    ∃ found, Accounts file ps suites found ∧ ∃ suite ∈ found, ∃ r ∈ suite.records,
      r.1.place = case ∧ r.2.place = first ∧ r.2.kind = kind
      ∧ let record := r.2.failure.toRecord r.1.testCase
        record ∈ (suite.suite file).testFailures
        ∧ record.rawText = String.ofList (keptText inside)
        ∧ (Text.trim record.rawText.toList = Text.trim (saidText inside) ↔ Faithful inside)
        ∧ (Faithful inside →
          record.stackTrace = String.ofList (FailureText.body (saidText inside))
          ∧ record.message = ((r.2.attributes.get? "message").filter (· ≠ "")).getD
              (String.ofList (FailureText.headline (saidText inside)))) := by
  intro ps inside
  obtain ⟨b, haccepted⟩ := exists_accepted h
  obtain ⟨s, target, hafter, -⟩ := exists_sources haccepted.reads.nested haccepted.events
  obtain ⟨hopened, haccounts⟩ := haccepted.accounts hafter
  obtain ⟨r, hr, hcase, hholds⟩ := haccepted.hasRecord hfailure hafter
  rw [Sources.records, hopened, List.nil_append] at hr
  obtain ⟨suite, hsuite, hmem⟩ := List.mem_flatMap.mp hr
  have hreadable : ∀ p ∈ inside, p.Readable := fun p hp =>
    haccepted.readable p (content_subset ps first last hp)
  have hfaithful := trim_keptText_eq_iff hreadable
  have htext : r.2.failure.text.toList = keptText inside := by
    show r.2.text.toList = _
    rw [hholds.text, String.toList_ofList]
  refine ⟨_, haccounts, suite, List.mem_reverse.mpr hsuite, r, hmem, hcase, hholds.place,
    hholds.kind, List.mem_map_of_mem hmem, hholds.text, ?_, fun hkept => ⟨?_, ?_⟩⟩
  · show Text.trim r.2.failure.text.toList = _ ↔ _
    rw [htext, hfaithful]
  · show String.ofList (FailureText.body r.2.failure.text.toList) = _
    rw [htext, FailureText.body, FailureText.body, hfaithful.mpr hkept]
  · show (r.2.failure.message.filter (· ≠ "")).getD
      (String.ofList (FailureText.headline r.2.failure.text.toList)) = _
    rw [htext, FailureText.headline, FailureText.headline, hfaithful.mpr hkept]
    rfl

/-- A report with a failure whose text is a run and a section. -/
def sectionReport : String :=
  "<testsuite><testcase><failure>lost\nat x.A.<![CDATA[load(A.java:1)]]></failure></testcase>"
    ++ "</testsuite>"

/-- A line break inside of a run is kept, and so is what a section adds to the run. -/
theorem parseReport_rawText_section :
    ∃ suites, parseReport exampleFile sectionReport = .ok suites
      ∧ FailureElement (pieces sectionReport.toList) .failure 5 9 3 11
      ∧ ∃ found, Accounts exampleFile (pieces sectionReport.toList) suites found
        ∧ ∃ suite ∈ found, ∃ record ∈ (suite.suite exampleFile).testFailures,
          record.rawText = "lost\nat x.A.load(A.java:1)" := by
  have hlength : (parseReport exampleFile sectionReport).toOption.map List.length = some 1 := by
    decide +kernel
  obtain ⟨suites, haccepted, -⟩ := exists_suites hlength
  have hfailure : FailureElement (pieces sectionReport.toList) .failure 5 9 3 11 := by
    decide +kernel
  obtain ⟨found, haccounts, suite, hsuite, r, -, -, -, -, hrecord, htext, -⟩ :=
    parseReport_rawText haccepted hfailure
  have hkept : keptText (content (pieces sectionReport.toList) 5 9)
      = "lost\nat x.A.load(A.java:1)".toList := by
    decide +kernel
  refine ⟨suites, haccepted, hfailure, found, haccounts, suite, hsuite, _, hrecord, ?_⟩
  rw [htext, hkept, String.ofList_toList]

/-- A report with a failure whose message ends with a line break, before a section. -/
def brokenReport : String :=
  "<testsuite name=\"A\" tests=\"1\" failures=\"1\"><testcase name=\"a\" classname=\"x.ATest\">"
    ++ "<failure type=\"T\">lost\n<![CDATA[at x.A.load(A.java:1)]]></failure></testcase>"
    ++ "</testsuite>"

/-- The line break between a run and a section is lost: the message runs into the first frame. -/
theorem parseReport_rawText_broken :
    FailureElement (pieces brokenReport.toList) .failure 5 9 3 11
      ∧ String.ofList (saidText (content (pieces brokenReport.toList) 5 9))
        = "lost\nat x.A.load(A.java:1)"
      ∧ (parseReport exampleFile brokenReport).toOption.map
          (·.flatMap fun suite => suite.testFailures.map (·.rawText))
        = some ["lostat x.A.load(A.java:1)"] := by
  decide +kernel

end FailureTriage
