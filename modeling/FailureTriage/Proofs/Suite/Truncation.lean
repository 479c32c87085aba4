import FailureTriage.Proofs.Markup.Cuts
import FailureTriage.Proofs.Suite.Following
import FailureTriage.Suite.Directory

/-!
# Reports that are cut short

What is read of an accepted report, and of a first part of it, as it is found when its writer has
stopped half-way.

* `Accounts`: the suites of a report are those of its elements, in the order in which they are
  closed, and their records are those of its failures.
* `parseReport_accepted`: every suite that is opened is closed, and no cut inside one is accepted.
* `parseReport_before`: what is read of a report up to a cut.
* `suitesOrWarning_before`: when the reader of a directory warns of a cut.
-/

namespace FailureTriage

open Markup

/-! ## Runs of text -/

namespace ReportBuilder

variable {file : Path} {b : ReportBuilder}

@[simp] theorem closed_addText (text : String) : (b.addText text).closed = b.closed := by
  rw [addText]
  split <;> rfl

@[simp] theorem opened_addText (text : String) : (b.addText text).opened = b.opened := by
  rw [addText]
  split <;> rfl

/-- A run of text faults exactly if one of its references does, and else only adds text. -/
theorem stepAll_run (b : ReportBuilder) (run : List Char) :
    (unescape? run = none ∧ b.stepAll file (textEvent? run).toList = .error .attributeOrReference)
      ∨ (unescape? run ≠ none
        ∧ ∃ text, b.stepAll file (textEvent? run).toList = .ok (b.addText text)) := by
  have hsome : unescape? run ≠ none ↔ unescape? (inner run) ≠ none := by
    rw [← Option.isSome_iff_ne_none, ← Option.isSome_iff_ne_none, isSome_unescape?_inner]
  rw [textEvent?]
  show _ ∧ b.stepAll file (if (inner run).isEmpty then none else some _).toList = _
    ∨ _ ∧ ∃ text, b.stepAll file (if (inner run).isEmpty then none else some _).toList = _
  cases hin : (inner run).isEmpty with
  | true =>
      refine Or.inr ⟨?_, "", congrArg Except.ok addText_empty.symm⟩
      rw [hsome, List.isEmpty_iff.mp hin]
      exact Option.some_ne_none _
  | false =>
      show _ ∧ b.stepAll file [.text (inner run)] = _
        ∨ _ ∧ ∃ text, b.stepAll file [.text (inner run)] = _
      rw [stepAll_singleton, step]
      cases hunescape : unescape? (inner run) with
      | none =>
          refine Or.inl ⟨?_, rfl⟩
          rw [hunescape] at hsome
          exact of_not_not fun hne => hsome.mp hne rfl
      | some text =>
          refine Or.inr ⟨hsome.mpr ?_, _, rfl⟩
          rw [hunescape]
          exact Option.some_ne_none _

end ReportBuilder

/-! ## Accepted reports -/

/-- The suites of a report, from the sources that are found for them: one for each suite element,
    in the order in which the elements end, each with what its own tags say, and no tag twice. -/
structure Accounts (file : Path) (ps : List Piece) (suites : List TestSuite)
    (found : List SuiteSource) : Prop where
  suites : suites = found.map (·.suite file)
  places : found.map (·.place) = (elements ps "testsuite").map Prod.fst
  valid : ∀ suite ∈ found, suite.Valid ps
  distinct : (found.flatMap (·.places)).Nodup

variable {file : Path} {document : List Char} {suites : List TestSuite}

/-- How a report has been read that is accepted: piece by piece, and up to its end. -/
structure Accepted (file : Path) (document : List Char) (suites : List TestSuite)
    (b : ReportBuilder) : Prop where
  reads : Reads [] document (pieces document)
  events : ReportBuilder.stepAll file {} (eventsOf (pieces document)) = .ok b
  opened : b.opened = []
  suites : suites = b.closed.reverse

theorem ReportBuilder.finish_eq_ok {b : ReportBuilder} {wellFormed : Bool}
    (h : b.finish wellFormed = .ok suites) :
    wellFormed = true ∧ b.opened = [] ∧ suites = b.closed.reverse := by
  rw [finish] at h
  split at h
  · cases h
  · rename_i hformed
    split at h
    · cases h
    · rename_i hopened
      exact ⟨by simpa using hformed, by simpa using hopened, (Except.ok.inj h).symm⟩

/-- **A text that is accepted** is an accepted report. -/
theorem exists_accepted {text : String} (h : parseReport file text = .ok suites) :
    ∃ b, Accepted file text.toList suites b := by
  rw [← @String.ofList_toList text, ReportBuilder.parseReport_eq_resume,
    ReportBuilder.resume] at h
  cases hread : ReportBuilder.stepAll file {} (eventsFrom text.toList []).events with
  | error fault =>
      rw [hread] at h
      cases h
  | ok b =>
      rw [hread] at h
      obtain ⟨hformed, hopened, hsuites⟩ := ReportBuilder.finish_eq_ok h
      have hreads := reads_pieces hformed
      rw [hreads.eventsFrom_eq] at hread
      exact ⟨b, hreads, hread, hopened, hsuites⟩

namespace Accepted

variable {b : ReportBuilder} {k : Nat}

/-- The first pieces of an accepted report leave a builder whose suites are the first ones. -/
theorem exists_take (h : Accepted file document suites b) (k : Nat) :
    ∃ (s : Sources) (target : TextTarget),
      ReportBuilder.stepAll file {} (eventsOf ((pieces document).take k))
          = .ok (s.builder file target)
        ∧ s.Follows ((pieces document).take k)
        ∧ (s.builder file target).closed.reverse <+: suites := by
  obtain ⟨last, onward, hlast, rfl, -⟩ := exists_sources h.reads.nested h.events
  rw [← List.take_append_drop k (pieces document)] at hlast
  obtain ⟨s, target, hafter, hclosed⟩ := Sources.exists_after_append hlast
  refine ⟨s, target, ?_, Sources.follows_after (h.reads.nested.take k) hafter, ?_⟩
  · rw [Sources.stepAll_eventsOf, hafter]
    rfl
  · rw [h.suites]
    exact List.reverse_prefix.mpr (hclosed.map _)

/-- The suites that are closed in the end are all there are. -/
theorem accounts (h : Accepted file document suites b) {s : Sources} {target : TextTarget}
    (hafter : Sources.after (pieces document) = some (s, target)) :
    s.opened = [] ∧ Accounts file (pieces document) suites s.closed.reverse := by
  have hfollows := Sources.follows_after h.reads.nested hafter
  have hb := h.events
  rw [Sources.stepAll_eventsOf, hafter] at hb
  obtain rfl : s.builder file target = b := Except.ok.inj hb
  have hopened : s.opened = [] := List.map_eq_nil_iff.mp h.opened
  refine ⟨hopened, ?_, hfollows.closed, ?_, ?_⟩
  · rw [h.suites, List.map_reverse]
    rfl
  · intro suite hsuite
    refine hfollows.suites suite (List.mem_append_right _ (List.mem_reverse.mp hsuite))
  · have hdistinct := (List.nodup_append.mp hfollows.distinct).2.1
    rw [hopened, List.nil_append] at hdistinct
    exact ((List.reverse_perm s.closed).flatMap_right _).nodup_iff.mpr hdistinct

/-- No suite is open in the end. -/
theorem exists_accounts (h : Accepted file document suites b) :
    openNamed (pieces document) "testsuite" = []
      ∧ ∃ found, Accounts file (pieces document) suites found := by
  obtain ⟨s, target, hafter, -, hfollows⟩ := exists_sources h.reads.nested h.events
  obtain ⟨hopened, haccounts⟩ := h.accounts hafter
  exact ⟨by rw [← hfollows.opened, hopened]; rfl, _, haccounts⟩

/-- The text of an accepted report has no unfinished reference. -/
theorem unescape?_ne_none (h : Accepted file document suites b) {p : Piece}
    (hp : (pieces document)[k]? = some p) (hplain : p.isMarkup = false) :
    unescape? p.text ≠ none := by
  intro hnone
  obtain ⟨s, target, hread, -⟩ := h.exists_take (k + 1)
  rw [List.take_add_one, hp, eventsOf_append, ReportBuilder.stepAll_append] at hread
  obtain ⟨before, target, hbefore, -⟩ := h.exists_take k
  have hevents : eventsOf (some p).toList = (textEvent? p.text).toList := by
    rw [Option.toList_some, eventsOf_cons, eventsOf, List.filterMap_nil, List.append_nil,
      h.reads.event_of_plain (List.mem_of_getElem? hp) hplain]
  rw [hbefore, hevents] at hread
  rcases @ReportBuilder.stepAll_run file (before.builder file target) p.text with
    ⟨-, hfault⟩ | ⟨hsome, -⟩
  · have hfault' : (Except.ok (before.builder file target) >>= fun b =>
        b.stepAll file (textEvent? p.text).toList) = .error .attributeOrReference := hfault
    rw [hfault'] at hread
    cases hread
  · exact hsome hnone

end Accepted

/-! ## Cuts -/

/-- What is read of a report up to a cut in it, if the whole report is read as some suites. -/
def readUpTo (ps : List Piece) (suites : List TestSuite) (cut : Nat) :
    Except ReportFault (List TestSuite) :=
  if InMarkup ps cut then .error .markup
  else if InReference ps cut then .error .attributeOrReference
  else if InElement ps "testsuite" cut then .error .unfinishedSuite
  else .ok (suites.take (closedBefore ps "testsuite" cut))

/-- A cut inside a piece of markup, a reference or a suite. -/
def Torn (ps : List Piece) (cut : Nat) : Prop :=
  InMarkup ps cut ∨ InReference ps cut ∨ InElement ps "testsuite" cut

instance {ps : List Piece} {cut : Nat} : Decidable (Torn ps cut) :=
  inferInstanceAs (Decidable (_ ∨ _ ∨ _))

theorem readUpTo_of_torn {ps : List Piece} {cut : Nat} (h : Torn ps cut) :
    ∃ fault, readUpTo ps suites cut = .error fault := by
  rw [readUpTo]
  split
  · exact ⟨_, rfl⟩
  rename_i hmarkup
  split
  · exact ⟨_, rfl⟩
  rename_i hreference
  exact ⟨_, if_pos ((h.resolve_left hmarkup).resolve_left hreference)⟩

theorem readUpTo_of_not_torn {ps : List Piece} {cut : Nat} (h : ¬ Torn ps cut) :
    readUpTo ps suites cut = .ok (suites.take (closedBefore ps "testsuite" cut)) := by
  rw [readUpTo, if_neg fun hin => h (Or.inl hin), if_neg fun hin => h (Or.inr (Or.inl hin)),
    if_neg fun hin => h (Or.inr (Or.inr hin))]

namespace Accepted

variable {b : ReportBuilder} {p : Piece} {k cut : Nat}

/-- Whether a cut in a run of text leaves a reference that is unfinished. -/
theorem inReference_iff (h : Accepted file document suites b)
    (hp : (pieces document)[k]? = some p) (hplain : p.isMarkup = false)
    (hlow : offset (pieces document) k ≤ cut) (hhigh : cut ≤ offset (pieces document) (k + 1)) :
    InReference (pieces document) cut
      ↔ unescape? (p.text.take (cut - offset (pieces document) k)) = none := by
  rw [Markup.inReference_iff hp hlow hhigh, hplain, Bool.not_false, Bool.true_and,
    Option.isNone_iff_eq_none]
  refine ⟨fun hinside => hinside.1, fun hnone => ⟨hnone, ?_, ?_⟩⟩
  · -- nothing of the run is no reference
    refine Nat.lt_of_le_of_ne hlow fun heq => ?_
    rw [heq, Nat.sub_self] at hnone
    cases hnone
  · -- and the whole run is accepted
    refine Nat.lt_of_le_of_ne hhigh fun heq => ?_
    rw [heq, offset_succ hp, Nat.add_sub_cancel_left, List.take_length] at hnone
    exact h.unescape?_ne_none hp hplain hnone

/-- What is left open by a cut in a run of text, and what has been closed before it. -/
theorem opened_closed (h : Accepted file document suites b) {s : Sources} {target : TextTarget}
    (hp : (pieces document)[k]? = some p) (hplain : p.isMarkup = false)
    (hlow : offset (pieces document) k ≤ cut) (hhigh : cut ≤ offset (pieces document) (k + 1))
    (hfollows : s.Follows ((pieces document).take k))
    (hstarts : (s.builder file target).closed.reverse <+: suites) :
    (InElement (pieces document) "testsuite" cut ↔ (s.builder file target).opened ≠ [])
      ∧ (s.builder file target).closed.reverse
        = suites.take (closedBefore (pieces document) "testsuite" cut) := by
  constructor
  · rw [h.reads.inElement_iff_open h.exists_accounts.1 hp hplain hlow hhigh, ← hfollows.opened,
      Sources.builder]
    simp
  · have hlength : (s.builder file target).closed.reverse.length
        = (elements ((pieces document).take k) "testsuite").length := by
      have hplaces := congrArg List.length hfollows.closed
      simpa [Sources.builder] using hplaces
    rw [h.reads.closedBefore_eq hp hplain hlow hhigh, ← hlength]
    exact List.prefix_iff_eq_take.mp hstarts

end Accepted

/-- **A report that is cut short** is rejected if the cut is inside a piece of markup, a reference
    or a suite; else the suites before the cut are taken for all. -/
theorem parseReport_before {before after : String}
    (h : parseReport file (before ++ after) = .ok suites) :
    parseReport file before
      = readUpTo (pieces (before ++ after).toList) suites before.length := by
  obtain ⟨b, haccepted⟩ := exists_accepted h
  have hbefore : (before ++ after).toList.take before.length = before.toList := by
    rw [String.toList_append, ← String.length_toList, List.take_left]
  have hle : before.length ≤ (before ++ after).toList.length := by
    rw [String.length_toList, String.length_append]
    exact Nat.le_add_right _ _
  obtain ⟨k, p, hp, hlow, hhigh, hcut⟩ := haccepted.reads.exists_cut hle
  rw [hbefore] at hcut
  obtain ⟨s, target, hfirst, hfollows, hstarts⟩ := haccepted.exists_take k
  have hresume : parseReport file before = ReportBuilder.resume file {} before.toList [] := by
    rw [← ReportBuilder.parseReport_eq_resume, String.ofList_toList]
  rw [hresume, ReportBuilder.resume, readUpTo]
  rcases hcut with ⟨hplain, hevents⟩ | ⟨hmarkup, hstrict, hlast, hevents⟩
  · have hnot : ¬ InMarkup (pieces (before ++ after).toList) before.length := by
      rw [inMarkup_iff hp hlow hhigh, hplain]
      rintro ⟨⟨⟩, -⟩
    obtain ⟨hopened, hclosed⟩ := haccepted.opened_closed hp hplain hlow hhigh hfollows hstarts
    rw [hevents, if_neg hnot]
    simp only [haccepted.inReference_iff hp hplain hlow hhigh, hopened, ← hclosed,
      ReportBuilder.stepAll_append, hfirst]
    rcases @ReportBuilder.stepAll_run file (s.builder file target)
        (p.text.take (before.length - offset (pieces (before ++ after).toList) k)) with
      ⟨hnone, hfault⟩ | ⟨hsome, text, hadded⟩
    · rw [if_pos hnone]
      show ((s.builder file target).stepAll file _ >>= fun b => b.finish true) = _
      rw [hfault]
      rfl
    · rw [if_neg hsome]
      show ((s.builder file target).stepAll file _ >>= fun b => b.finish true) = _
      rw [hadded]
      show (((s.builder file target).addText text).finish true) = _
      rw [ReportBuilder.finish, ReportBuilder.opened_addText, ReportBuilder.closed_addText]
      cases hlist : (s.builder file target).opened with
      | nil => simp
      | cons suite outer => simp
  · rw [if_pos ((inMarkup_iff hp hlow hhigh).mpr ⟨hmarkup, hstrict, hlast⟩), hevents]
    show (ReportBuilder.stepAll file {} (eventsOf ((pieces (before ++ after).toList).take k)) >>=
      fun b => b.finish false) = _
    rw [hfirst]
    rfl

/-- **A report that is accepted** is read whole: nothing in it is passed over, each of its suites is
    closed and gives one entry, each record has a tag of its own in a test case of its suite, and no
    cut inside a suite is accepted. -/
theorem parseReport_accepted {document : String} (h : parseReport file document = .ok suites) :
    let ps := pieces document.toList
    (ps.flatMap (·.text) = document.toList ∧ eventsFrom document.toList [] = ⟨eventsOf ps, true⟩)
    ∧ (∀ i, startName? ps i = some "testsuite" →
        ∃ j, i < j ∧ eventAt? ps j = some (.close "testsuite") ∧ (i, j) ∈ elements ps "testsuite")
    ∧ (elements ps "testsuite").Pairwise (fun e f => e.2 < f.2)
    ∧ (∃ found, Accounts file ps suites found)
    ∧ ∀ before after : String, document = before ++ after →
        InElement ps "testsuite" before.length →
          ∃ fault, parseReport file before = .error fault := by
  obtain ⟨b, haccepted⟩ := exists_accepted h
  obtain ⟨hclosed, hfound⟩ := haccepted.exists_accounts
  refine ⟨⟨haccepted.reads.flatMap_text, haccepted.reads.eventsFrom_eq⟩, fun i hname => ?_,
    elements_pairwise _ _, hfound, ?_⟩
  · exact exists_close haccepted.reads.nested hclosed hname
  · rintro before after rfl hinside
    rw [parseReport_before h]
    exact readUpTo_of_torn (Or.inr (Or.inr hinside))

/-- The file of the reports below. -/
def exampleFile : Path := ⟨"reports/TEST-A.xml"⟩

/-- A report that gives so many suites is accepted. -/
theorem exists_suites {text : String} {count : Nat}
    (h : (parseReport file text).toOption.map List.length = some count) :
    ∃ suites, parseReport file text = .ok suites ∧ suites.length = count := by
  cases hread : parseReport file text with
  | error fault =>
      rw [hread] at h
      cases h
  | ok suites =>
      rw [hread] at h
      exact ⟨suites, rfl, Option.some.inj h⟩

/-- A report with one suite is accepted, but not what is there of it before the suite is closed. -/
theorem parseReport_accepted_oneSuite :
    ∃ suites,
      parseReport exampleFile ("<testsuite><testcase>" ++ "<error/></testcase></testsuite>")
        = .ok suites
      ∧ (∃ found, Accounts exampleFile
          (pieces ("<testsuite><testcase>" ++ "<error/></testcase></testsuite>").toList) suites
          found)
      ∧ ∃ fault, parseReport exampleFile "<testsuite><testcase>" = .error fault := by
  have hlength : (parseReport exampleFile
      ("<testsuite><testcase>" ++ "<error/></testcase></testsuite>")).toOption.map List.length
        = some 1 := by decide +kernel
  obtain ⟨suites, haccepted, -⟩ := exists_suites hlength
  obtain ⟨-, -, -, hfound, hcut⟩ := parseReport_accepted haccepted
  exact ⟨suites, haccepted, hfound, hcut _ _ rfl (by decide +kernel)⟩

/-! ## Reports in a directory -/

/-- What a file gives that holds a text. -/
theorem readReport_of_text {files : FileTree} {text : String}
    (hfile : files.read file = .ok text.toUTF8) :
    readReport files file
      = ((parseReport file text).mapError fun fault => .malformedReport file fault.message).map
          fun suites => suites.map (·.complete (logExcerpt? files file suiteLogLimit)) := by
  have hdecode : Utf8.decode text.toUTF8 = .ok text := Utf8.decode_toByteArray text
  rw [readReport, hfile]
  show ((Utf8.decode text.toUTF8).mapError _ >>= _) = _
  rw [hdecode]
  show ((parseReport file text).mapError _ >>= _) = _
  cases parseReport file text with
  | error fault => rfl
  | ok suites => rfl

/-- **Of a report whose writer has stopped half-way** nothing is taken, and a warning is given,
    exactly if the text ends inside a piece of markup, a reference or a suite.  Elsewhere, between
    two suites of one report too, the suites that are there are taken for the whole report, and
    nothing is said. -/
theorem suitesOrWarning_before {files : FileTree} {before after : String}
    (hwhole : parseReport file (before ++ after) = .ok suites)
    (hfile : files.read file = .ok before.toUTF8) :
    let ps := pieces (before ++ after).toList
    let loaded := suitesOrWarning files file
    ((∃ fault, parseReport file before = .error fault) ↔ Torn ps before.length)
    ∧ (Torn ps before.length → loaded.value = [] ∧ ∃ fault : ReportFault,
        loaded.messages
          = [⟨.warning, (TriageFault.malformedReport file fault.message).message⟩])
    ∧ (¬ Torn ps before.length → loaded.messages = []
        ∧ loaded.value = (suites.take (closedBefore ps "testsuite" before.length)).map
            (·.complete (logExcerpt? files file suiteLogLimit))) := by
  have hparse := parseReport_before hwhole
  have hread := readReport_of_text hfile
  rw [hparse] at hread ⊢
  refine ⟨⟨fun ⟨fault, hfault⟩ => ?_, readUpTo_of_torn⟩, fun htorn => ?_, fun hwhole => ?_⟩
  · by_contra hnot
    rw [readUpTo_of_not_torn hnot] at hfault
    cases hfault
  · obtain ⟨fault, hfault⟩ := readUpTo_of_torn htorn
    rw [hfault] at hread
    rw [suitesOrWarning, hread]
    exact ⟨rfl, fault, rfl⟩
  · rw [readUpTo_of_not_torn hwhole] at hread
    rw [suitesOrWarning, hread]
    exact ⟨rfl, rfl⟩

/-- A directory with a report in it. -/
def directoryOf (report : String) : FileTree where
  entries := [
    (["reports"], .directory),
    (["reports", "TEST-A.xml"], .file report.toUTF8)]

/-- A report that ends inside its second suite is left out with a warning. -/
theorem suitesOrWarning_inSecondSuite :
    ∃ suites,
      parseReport exampleFile ("<testsuites><testsuite/><testsuite>" ++ "</testsuite></testsuites>")
        = .ok suites
      ∧ (directoryOf "<testsuites><testsuite/><testsuite>").read exampleFile
        = .ok "<testsuites><testsuite/><testsuite>".toUTF8
      ∧ (suitesOrWarning (directoryOf "<testsuites><testsuite/><testsuite>") exampleFile).value = []
      ∧ (suitesOrWarning (directoryOf "<testsuites><testsuite/><testsuite>") exampleFile).messages
        ≠ [] := by
  have hlength : (parseReport exampleFile
      ("<testsuites><testsuite/><testsuite>" ++ "</testsuite></testsuites>")).toOption.map
        List.length = some 2 := by decide +kernel
  obtain ⟨suites, haccepted, -⟩ := exists_suites hlength
  have hfile : (directoryOf "<testsuites><testsuite/><testsuite>").read exampleFile
      = .ok "<testsuites><testsuite/><testsuite>".toUTF8 := rfl
  obtain ⟨-, htorn, -⟩ := suitesOrWarning_before haccepted hfile
  obtain ⟨hnone, fault, hwarned⟩ := htorn (by decide +kernel)
  refine ⟨suites, haccepted, hfile, hnone, ?_⟩
  rw [hwarned]
  exact List.cons_ne_nil _ _

/-- A report that ends between its two suites is taken for a report with one suite. -/
theorem parseReport_secondSuiteLost :
    ∃ whole part,
      parseReport exampleFile ("<testsuites><testsuite/>" ++ "<testsuite/></testsuites>")
        = .ok whole
      ∧ InElement (pieces ("<testsuites><testsuite/>" ++ "<testsuite/></testsuites>").toList)
          "testsuites" "<testsuites><testsuite/>".length
      ∧ parseReport exampleFile "<testsuites><testsuite/>" = .ok part
      ∧ whole.length = 2 ∧ part.length = 1 := by
  have hwhole : (parseReport exampleFile
      ("<testsuites><testsuite/>" ++ "<testsuite/></testsuites>")).toOption.map List.length
        = some 2 := by decide +kernel
  have hpart : (parseReport exampleFile "<testsuites><testsuite/>").toOption.map List.length
      = some 1 := by decide +kernel
  obtain ⟨whole, hwhole, htwo⟩ := exists_suites hwhole
  obtain ⟨part, hpart, hone⟩ := exists_suites hpart
  exact ⟨whole, part, hwhole, by decide +kernel, hpart, htwo, hone⟩

end FailureTriage
