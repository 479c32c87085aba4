import FailureTriage.Proofs.Suite.Changes

/-!
# Keeping track of sources

While a report is read, what a builder holds keeps its sources: every piece of the document is
followed by one step of the sources, and no tag becomes the source of two records.

* `Sources.Follows.openSuite` and its siblings: what each sort of tag does.
* `Sources.Follows.next`: one piece leaves everything with its source.
* `Sources.follows_after`, `exists_sources`: so does the reading of all pieces.
-/

namespace FailureTriage

open Markup

variable {file : Path} {ps : List Piece} {p : Piece} {s : Sources}

/-! ## Following one more piece -/

namespace Sources.Follows

variable {text : List Char} {attributes : Attributes} {kind : FailureKind}

theorem closed_snoc (h : s.Follows ps)
    (hself : ∀ text, p.event ≠ some (.selfClosed "testsuite" text))
    (hclose : p.event ≠ some (.close "testsuite")) :
    s.closed.reverse.map (·.place) = (elements (ps ++ [p]) "testsuite").map Prod.fst := by
  rw [h.closed, elements_of_ne hself hclose]

theorem opened_snoc (h : s.Follows ps) (hnested : Nested (ps ++ [p]))
    (hstart : ∀ text, p.event ≠ some (.start "testsuite" text))
    (hclose : p.event ≠ some (.close "testsuite")) :
    s.opened.map (·.place) = openNamed (ps ++ [p]) "testsuite" := by
  rw [h.opened, openNamed_of_ne hnested hstart hclose]

theorem caseOpen_snoc (h : s.Follows ps) (hnested : Nested (ps ++ [p]))
    (hstart : ∀ text, p.event ≠ some (.start "testcase" text))
    (hclose : p.event ≠ some (.close "testcase")) :
    ∀ c ∈ s.testCase, (openNamed (ps ++ [p]) "testcase").head? = some c.place := by
  intro c hc
  rw [openNamed_of_ne hnested hstart hclose]
  exact h.caseOpen c hc

theorem pendingOpen_snoc (h : s.Follows ps) (hnested : Nested (ps ++ [p]))
    (hclose : ∀ kind : FailureKind, p.event ≠ some (.close kind.label)) :
    ∀ f ∈ s.pending, f.place ∈ openTags (ps ++ [p])
      ∧ startName? (ps ++ [p]) f.place = some f.kind.label := by
  intro f hf
  obtain ⟨hopen, hname⟩ := h.pendingOpen f hf
  exact ⟨open_of_ne hnested hopen hname (hclose f.kind),
    by rw [startName?_append (lt_of_mem_openTags hopen), hname]⟩

theorem last_snoc (h : s.Follows ps)
    (hstart : s.testCase = none
      ∨ ∀ (kind : FailureKind) text, p.event ≠ some (.start kind.label text)) :
    ∀ f ∈ s.pending, ∀ c ∈ s.testCase, ∀ i ∈ openTags (ps ++ [p]), ∀ kind : FailureKind,
      startName? (ps ++ [p]) i = some kind.label → c.place < i → i ≤ f.place := by
  intro f hf c hc i hi kind hname hlt
  rcases mem_openTags_snoc hi with hi | ⟨rfl, -⟩
  · rw [startName?_append (lt_of_mem_openTags hi)] at hname
    exact h.last f hf c hc i hi kind hname hlt
  · obtain ⟨text, hevent⟩ := startName?_eq_some.mp hname
    rw [eventAt?_length] at hevent
    rcases hstart with hnone | hstart
    · rw [hnone] at hc
      cases hc
    · exact absurd hevent (hstart kind text)

theorem past_snoc (h : s.Follows ps) :
    ∀ i ∈ s.places, i < (ps ++ [p]).length ∧ i ∉ openTags (ps ++ [p]) := by
  intro i hi
  obtain ⟨hlt, hclosed⟩ := h.past i hi
  refine ⟨by rw [List.length_append]; exact Nat.lt_add_right _ hlt, fun hopen => ?_⟩
  rcases mem_openTags_snoc hopen with hopen | ⟨rfl, -⟩
  · exact hclosed hopen
  · exact Nat.lt_irrefl _ hlt

/-- A passive piece changes nothing. -/
theorem passive (h : s.Follows ps) (hnested : Nested (ps ++ [p])) (hpassive : Passive p s) :
    s.Follows (ps ++ [p]) where
  toValid := h.toValid.append [p]
  closed := h.closed_snoc (fun text => (hpassive.suite text).2.1) (hpassive.suite []).2.2
  opened := h.opened_snoc hnested (fun text => (hpassive.suite text).1) (hpassive.suite []).2.2
  caseOpen := h.caseOpen_snoc hnested (fun text => (hpassive.testCase text).1)
    (hpassive.testCase []).2
  pendingOpen := h.pendingOpen_snoc hnested hpassive.failureEnd
  last := h.last_snoc hpassive.failure
  past := h.past_snoc

/-- The tag of the last piece. -/
private theorem tagAt_length {name : String} (hread : attributes? text = some attributes)
    (hevent : p.event = some (.start name text) ∨ p.event = some (.selfClosed name text)) :
    TagAt (ps ++ [p]) ps.length name attributes :=
  ⟨text, hread, by rwa [eventAt?_length]⟩

theorem openSuite (h : s.Follows ps) (hnested : Nested (ps ++ [p]))
    (hevent : p.event = some (.start "testsuite" text))
    (hread : attributes? text = some attributes) :
    (s.openSuite ps.length attributes).Follows (ps ++ [p]) where
  suites := by
    intro suite hmem
    rcases List.mem_cons.mp hmem with rfl | hmem
    · exact ⟨tagAt_length hread (Or.inl hevent), fun r hr => nomatch hr⟩
    · exact (h.suites suite hmem).append [p]
  caseTag := (h.append [p]).caseTag
  failures := (h.append [p]).failures
  pendingTag := (h.append [p]).pendingTag
  distinct := h.distinct
  closed := h.closed_snoc (by simp [hevent]) (by simp [hevent])
  opened := by
    rw [openNamed_start hevent, if_pos rfl, ← h.opened]
    rfl
  caseOpen := h.caseOpen_snoc hnested (by simp [hevent]) (by simp [hevent])
  pendingOpen := h.pendingOpen_snoc hnested (by simp [hevent])
  last := h.last_snoc (Or.inr (by simp [hevent, (FailureKind.label_ne_testsuite _).symm]))
  past := h.past_snoc

theorem openCase (h : s.Follows ps) (hnested : Nested (ps ++ [p]))
    (hevent : p.event = some (.start "testcase" text))
    (hread : attributes? text = some attributes) :
    (s.openCase ps.length attributes).Follows (ps ++ [p]) where
  suites := (h.append [p]).suites
  caseTag := by
    intro c hc
    obtain rfl := Option.mem_some.mp hc
    exact tagAt_length hread (Or.inl hevent)
  failures := by
    intro c hc f hf
    obtain rfl := Option.mem_some.mp hc
    cases hf
  pendingTag := (h.append [p]).pendingTag
  distinct := (List.nodup_append.mp h.distinct).2.1
  closed := h.closed_snoc (by simp [hevent]) (by simp [hevent])
  opened := h.opened_snoc hnested (by simp [hevent]) (by simp [hevent])
  caseOpen := by
    intro c hc
    obtain rfl := Option.mem_some.mp hc
    rw [openNamed_start hevent, if_pos rfl]
    rfl
  pendingOpen := h.pendingOpen_snoc hnested (by simp [hevent])
  last := by
    intro f _ c hc i hi _ _ hlt
    obtain rfl := Option.mem_some.mp hc
    exact absurd hlt (Nat.not_lt.mpr (le_of_mem_openTags_snoc hi))
  past := fun i hi => h.past_snoc i (List.mem_append_right _ hi)

theorem openFailure (h : s.Follows ps) (hnested : Nested (ps ++ [p]))
    (hevent : p.event = some (.start kind.label text))
    (hread : attributes? text = some attributes) :
    (s.openFailure ps.length kind attributes).Follows (ps ++ [p]) where
  suites := (h.append [p]).suites
  caseTag := (h.append [p]).caseTag
  failures := (h.append [p]).failures
  pendingTag := by
    intro f hf
    obtain rfl := Option.mem_some.mp hf
    exact tagAt_length hread (Or.inl hevent)
  distinct := h.distinct
  closed := h.closed_snoc (by simp [hevent]) (by simp [hevent])
  opened := h.opened_snoc hnested (by simp [hevent, FailureKind.label_ne_testsuite])
    (by simp [hevent])
  caseOpen := h.caseOpen_snoc hnested (by simp [hevent, FailureKind.label_ne_testcase])
    (by simp [hevent])
  pendingOpen := by
    intro f hf
    obtain rfl := Option.mem_some.mp hf
    refine ⟨?_, startName?_eq_some.mpr ⟨text, by rw [eventAt?_length, hevent]⟩⟩
    rw [openTags_snoc, nextOpen, hevent]
    exact List.mem_cons_self
  last := by
    intro f hf c _ i hi _ _ _
    obtain rfl := Option.mem_some.mp hf
    exact le_of_mem_openTags_snoc hi
  past := h.past_snoc

theorem emptySuite (h : s.Follows ps) (hnested : Nested (ps ++ [p]))
    (hevent : p.event = some (.selfClosed "testsuite" text))
    (hread : attributes? text = some attributes) :
    (s.emptySuite ps.length attributes).Follows (ps ++ [p]) := by
  have hplaces : (s.emptySuite ps.length attributes).places = s.places := by
    simp [places, Sources.emptySuite, SuiteSource.places]
  exact {
    suites := by
      intro suite hmem
      rcases List.mem_append.mp hmem with hmem | hmem
      · exact (h.suites suite (List.mem_append_left _ hmem)).append [p]
      · rcases List.mem_cons.mp hmem with rfl | hmem
        · exact ⟨tagAt_length hread (Or.inr hevent), fun r hr => absurd hr List.not_mem_nil⟩
        · exact (h.suites suite (List.mem_append_right _ hmem)).append [p]
    caseTag := (h.append [p]).caseTag
    failures := (h.append [p]).failures
    pendingTag := (h.append [p]).pendingTag
    distinct := hplaces ▸ h.distinct
    closed := by
      have hend : elementEnding? (ps ++ [p]) "testsuite" ps.length
          = some (ps.length, ps.length) := by
        rw [elementEnding?_length, hevent]
        exact if_pos rfl
      rw [elements_snoc, hend, List.map_append, ← h.closed]
      simp [Sources.emptySuite]
    opened := h.opened_snoc hnested (by simp [hevent]) (by simp [hevent])
    caseOpen := h.caseOpen_snoc hnested (by simp [hevent]) (by simp [hevent])
    pendingOpen := h.pendingOpen_snoc hnested (by simp [hevent])
    last := h.last_snoc (Or.inr (by simp [hevent]))
    past := hplaces ▸ h.past_snoc }

theorem closeSuite (h : s.Follows ps) (hnested : Nested (ps ++ [p]))
    (hevent : p.event = some (.close "testsuite")) : s.closeSuite.Follows (ps ++ [p]) := by
  obtain ⟨i, rest, hopen, hname⟩ := hnested.close hevent
  have hopened := h.opened
  rw [openNamed_close hevent hopen hname, if_pos rfl] at hopened
  obtain ⟨suite, outer, hsuites, hplace, houter⟩ := List.map_eq_cons_iff.mp hopened
  have hclose : s.closeSuite = { s with closed := suite :: s.closed, opened := outer } := by
    rw [Sources.closeSuite, hsuites]
  have hperm : (outer ++ suite :: s.closed).Perm (s.opened ++ s.closed) := by
    rw [hsuites]
    exact List.perm_middle
  have hplaces : s.closeSuite.places.Perm s.places := by
    rw [hclose]
    exact (hperm.flatMap_right _).append_left _
  have hsubset : ∀ suite ∈ s.closeSuite.opened ++ s.closeSuite.closed,
      suite ∈ s.opened ++ s.closed := by
    rw [hclose]
    exact fun suite hmem => hperm.mem_iff.mp hmem
  exact {
    suites := fun suite hmem => (h.suites suite (hsubset suite hmem)).append [p]
    caseTag := by rw [hclose]; exact (h.append [p]).caseTag
    failures := by rw [hclose]; exact (h.append [p]).failures
    pendingTag := by rw [hclose]; exact (h.append [p]).pendingTag
    distinct := hplaces.nodup_iff.mpr h.distinct
    closed := by
      have hend : elementEnding? (ps ++ [p]) "testsuite" ps.length = some (i, ps.length) := by
        rw [elementEnding?_length, hevent, hopen]
        exact if_pos rfl
      rw [elements_snoc, hend, List.map_append, ← h.closed, hclose]
      simp [hplace]
    opened := by rw [hclose, houter]
    caseOpen := by
      rw [hclose]
      exact h.caseOpen_snoc hnested (by simp [hevent]) (by simp [hevent])
    pendingOpen := by
      rw [hclose]
      exact h.pendingOpen_snoc hnested (by simp [hevent, (FailureKind.label_ne_testsuite _).symm])
    last := by
      rw [hclose]
      exact h.last_snoc (Or.inr (by simp [hevent]))
    past := fun i hi => h.past_snoc i (hplaces.mem_iff.mp hi) }

/-- The test case gets a failure whose tag is no source yet, and is not open any more. -/
theorem addFailure (h : s.Follows ps) {failure : FailureSource}
    (hin : ∀ c ∈ s.testCase, failure.In ps c.place) (hfresh : failure.place ∉ s.places)
    (hpast : failure.place < ps.length ∧ failure.place ∉ openTags ps) :
    (s.addFailure failure).Follows ps := by
  cases hcase : s.testCase with
  | none =>
      have hsame : s.addFailure failure = s := by
        obtain ⟨closed, opened, testCase, pending⟩ := s
        obtain rfl : testCase = none := hcase
        rfl
      rwa [hsame]
  | some c =>
      have hplaces : (s.addFailure failure).places.Perm (failure.place :: s.places) := by
        simp only [places, Sources.addFailure, hcase, Option.map_some, Option.getD_some,
          CaseSource.places, List.map_append, List.map_singleton, List.append_assoc,
          List.singleton_append]
        exact List.perm_middle
      have hadded : ∀ later ∈ (s.addFailure failure).testCase,
          later = { c with failures := c.failures ++ [failure] } := by
        intro later hlater
        rw [Sources.addFailure, hcase] at hlater
        exact (Option.mem_some.mp hlater).symm
      exact {
        suites := h.suites
        caseTag := by
          intro later hlater
          rw [hadded later hlater]
          exact h.caseTag c hcase
        failures := by
          intro later hlater f hf
          rw [hadded later hlater] at hf ⊢
          rcases List.mem_append.mp hf with hf | hf
          · exact h.failures c hcase f hf
          · rw [List.mem_singleton.mp hf]
            exact hin c hcase
        pendingTag := h.pendingTag
        distinct := hplaces.nodup_iff.mpr (List.nodup_cons.mpr ⟨hfresh, h.distinct⟩)
        closed := h.closed
        opened := h.opened
        caseOpen := by
          intro later hlater
          rw [hadded later hlater]
          exact h.caseOpen c hcase
        pendingOpen := h.pendingOpen
        last := by
          intro f hf later hlater
          rw [hadded later hlater]
          exact h.last f hf c hcase
        past := by
          intro i hi
          rcases List.mem_cons.mp (hplaces.mem_iff.mp hi) with rfl | hi
          · exact hpast
          · exact h.past i hi }

theorem emptyFailure (h : s.Follows ps) (hnested : Nested (ps ++ [p]))
    (hevent : p.event = some (.selfClosed kind.label text))
    (hread : attributes? text = some attributes) :
    (s.addFailure { place := ps.length, kind, attributes }).Follows (ps ++ [p]) := by
  have hbase : s.Follows (ps ++ [p]) := by
    refine h.passive hnested ⟨?_, ?_, Or.inr ?_, ?_⟩
    all_goals simp [hevent, FailureKind.label_ne_testsuite]
  refine hbase.addFailure (fun c hc => ⟨tagAt_length hread (Or.inr hevent), ?_⟩) (fun hmem => ?_)
    ⟨by simp, fun hopen => ?_⟩
  · rw [enclosing?_length]
    exact h.caseOpen c hc
  · exact Nat.lt_irrefl _ (h.past _ hmem).1
  · rcases mem_openTags_snoc hopen with hopen | ⟨-, tag, text, hstart⟩
    · exact Nat.lt_irrefl _ (lt_of_mem_openTags hopen)
    · rw [hevent] at hstart
      cases hstart

/-- The innermost open tag, if it is one of a failure, is that of the pending failure: no failure
    has begun after it. -/
theorem place_of_pending (h : s.Follows ps) {failure : FailureSource} {c : CaseSource} {i : Nat}
    {rest : List Nat} (hpending : failure ∈ s.pending) (hcase : c ∈ s.testCase)
    (hopen : openTags ps = i :: rest) (hname : startName? ps i = some kind.label) :
    failure.place = i := by
  obtain ⟨hfailure, -⟩ := h.pendingOpen failure hpending
  obtain ⟨hcaseOpen, hcaseName⟩ := mem_openNamed.mp (List.mem_of_head? (h.caseOpen c hcase))
  have hlt : c.place < i := by
    rw [hopen] at hcaseOpen
    rcases List.mem_cons.mp hcaseOpen with heq | hrest
    · rw [heq, hname] at hcaseName
      exact absurd (Option.some.inj hcaseName) (FailureKind.label_ne_testcase kind)
    · exact lt_of_openTags hopen _ hrest
  have hle := h.last failure hpending c hcase i (hopen ▸ List.mem_cons_self) kind hname hlt
  rcases List.mem_cons.mp (hopen ▸ hfailure) with heq | hrest
  · exact heq
  · exact absurd hle (Nat.not_le.mpr (lt_of_openTags hopen _ hrest))

theorem closeFailure (h : s.Follows ps) (hnested : Nested (ps ++ [p]))
    (hevent : p.event = some (.close kind.label)) : s.closeFailure.Follows (ps ++ [p]) := by
  have hbase : ({ s with pending := none } : Sources).Follows (ps ++ [p]) := {
    suites := (h.append [p]).suites
    caseTag := (h.append [p]).caseTag
    failures := (h.append [p]).failures
    pendingTag := fun f hf => nomatch hf
    distinct := h.distinct
    closed := h.closed_snoc (by simp [hevent]) (by simp [hevent, FailureKind.label_ne_testsuite])
    opened := h.opened_snoc hnested (by simp [hevent])
      (by simp [hevent, FailureKind.label_ne_testsuite])
    caseOpen := h.caseOpen_snoc hnested (by simp [hevent])
      (by simp [hevent, FailureKind.label_ne_testcase])
    pendingOpen := fun f hf => nomatch hf
    last := fun f hf => nomatch hf
    past := h.past_snoc }
  cases hpending : s.pending with
  | none =>
      rw [Sources.closeFailure, hpending]
      exact hbase
  | some failure =>
      have hclose : s.closeFailure = ({ s with pending := none } : Sources).addFailure failure := by
        rw [Sources.closeFailure, hpending]
        rfl
      obtain ⟨i, rest, hopen, hname⟩ := hnested.close hevent
      obtain ⟨hfailure, -⟩ := h.pendingOpen failure hpending
      rw [hclose]
      cases hcase : s.testCase with
      | none =>
          rw [hcase] at hbase
          exact hbase
      | some c =>
          have hplace := h.place_of_pending hpending hcase hopen hname
          have hlt : i < ps.length := innermost_lt hopen
          have hfresh : failure.place ∉ ({ s with pending := none } : Sources).places :=
            fun hmem => (h.past _ hmem).2 hfailure
          rw [hcase] at hbase hfresh
          refine hbase.addFailure (fun later hlater => ⟨?_, ?_⟩) hfresh ⟨?_, ?_⟩
          · exact (h.pendingTag failure hpending).append [p]
          · rw [hplace, enclosing?_append (Nat.le_of_lt hlt),
              enclosing?_innermost hopen hname (FailureKind.label_ne_testcase kind)]
            exact h.caseOpen later (hcase ▸ hlater)
          · rw [hplace, List.length_append]
            exact Nat.lt_add_right _ hlt
          · rw [openTags_snoc, nextOpen, hevent, hplace, hopen]
            exact fun hmem => Nat.lt_irrefl _ (lt_of_openTags hopen _ hmem)

theorem closeCase (h : s.Follows ps) (hnested : Nested (ps ++ [p]))
    (hevent : p.event = some (.close "testcase")) : s.closeCase.Follows (ps ++ [p]) := by
  obtain ⟨i, rest, hopen, hname⟩ := hnested.close hevent
  have hlt : i < ps.length := innermost_lt hopen
  -- the end tag is that of the test case, which lies directly in the innermost suite
  have hsuite : ∀ c ∈ s.testCase,
      enclosing? (ps ++ [p]) "testsuite" c.place = (s.opened.map (·.place)).head? := by
    intro c hc
    have hplace := h.caseOpen c hc
    rw [openNamed_close hevent hopen hname, if_pos rfl] at hplace
    obtain rfl := Option.some.inj hplace
    rw [enclosing?_append (Nat.le_of_lt hlt), enclosing?_innermost hopen hname (by decide),
      h.opened]
  have hrecords : s.caseRecords.map (·.2.place) = (s.testCase.map (·.places)).getD [] := by
    rw [caseRecords]
    cases s.testCase with
    | none => rfl
    | some c => simp [CaseSource.places]
  have hbase : ({ s with testCase := none } : Sources).Follows (ps ++ [p]) := {
    suites := (h.append [p]).suites
    caseTag := by rintro _ ⟨⟩
    failures := by rintro _ ⟨⟩
    pendingTag := (h.append [p]).pendingTag
    distinct := (List.nodup_append.mp h.distinct).2.1
    closed := h.closed_snoc (by simp [hevent]) (by simp [hevent])
    opened := h.opened_snoc hnested (by simp [hevent]) (by simp [hevent])
    caseOpen := by rintro _ ⟨⟩
    pendingOpen := h.pendingOpen_snoc hnested
      (by simp [hevent, (FailureKind.label_ne_testcase _).symm])
    last := by rintro _ _ _ ⟨⟩
    past := fun i hi => h.past_snoc i (List.mem_append_right _ hi) }
  cases hopened : s.opened with
  | nil =>
      have hclose : s.closeCase = { s with testCase := none } := by
        rw [Sources.closeCase, hopened]
        rfl
      rwa [hclose]
  | cons suite outer =>
      have hclose : s.closeCase = { s with
          opened := { suite with records := suite.records ++ s.caseRecords } :: outer
          testCase := none } := by
        rw [Sources.closeCase, hopened]
        rfl
      have hplaces : s.closeCase.places.Perm s.places := by
        rw [hclose, places, places, ← hrecords, hopened]
        simp only [Option.map_none, Option.getD_none, List.nil_append, List.cons_append,
          List.flatMap_cons, SuiteSource.places, List.map_append, List.append_assoc]
        exact List.perm_append_comm_assoc _ _ _
      rw [hclose] at hplaces ⊢
      exact { hbase with
        suites := by
          intro later hlater
          rcases List.mem_cons.mp hlater with rfl | hlater
          · have hmem : suite ∈ s.opened ++ s.closed := by rw [hopened]; simp
            refine ⟨(h.suites suite hmem).tag.append [p], fun r hr => ?_⟩
            rcases List.mem_append.mp hr with hr | hr
            · exact ((h.suites suite hmem).records r hr).append [p]
            · obtain ⟨hcase, hfailure⟩ := mem_caseRecords hr
              refine ⟨(h.caseTag _ hcase).append [p], ?_,
                (h.failures _ hcase _ hfailure).append [p]⟩
              rw [hsuite _ hcase, hopened]
              rfl
          · refine hbase.suites later ?_
            rw [hopened]
            exact List.mem_cons_of_mem _ hlater
        distinct := hplaces.nodup_iff.mpr h.distinct
        opened := by
          rw [← hbase.opened, hopened]
          rfl
        past := fun i hi => h.past_snoc i (hplaces.mem_iff.mp hi) }

/-- The output of a test case does not change where things come from. -/
private theorem output (h : s.Follows ps) {c : CaseSource} (hcase : s.testCase = some c)
    (out err : String) :
    ({ s with testCase := some { c with systemOut := out, systemErr := err } } : Sources).Follows
      ps := by
  have hplaces : ({ s with testCase := some { c with systemOut := out, systemErr := err } } :
      Sources).places = s.places := by
    rw [places, places, hcase]
    rfl
  exact { h with
    caseTag := by
      intro later hlater
      obtain rfl := Option.mem_some.mp hlater
      exact h.caseTag c hcase
    failures := by
      intro later hlater
      obtain rfl := Option.mem_some.mp hlater
      exact h.failures c hcase
    distinct := hplaces ▸ h.distinct
    caseOpen := by
      intro later hlater
      obtain rfl := Option.mem_some.mp hlater
      exact h.caseOpen c hcase
    last := by
      intro f hf later hlater
      obtain rfl := Option.mem_some.mp hlater
      exact h.last f hf c hcase
    past := hplaces ▸ h.past }

/-- Text that is collected does not change where things come from. -/
theorem addText (h : s.Follows ps) (target : TextTarget) (text : String) :
    (s.addText target text).Follows ps := by
  obtain ⟨closed, opened, testCase, pending⟩ := s
  cases target with
  | nowhere => exact h
  | failureText =>
      cases pending with
      | none => exact h
      | some f => exact { h with
          pendingTag := by
            intro later hlater
            obtain rfl := Option.mem_some.mp hlater
            exact h.pendingTag f rfl
          pendingOpen := by
            intro later hlater
            obtain rfl := Option.mem_some.mp hlater
            exact h.pendingOpen f rfl
          last := by
            intro later hlater
            obtain rfl := Option.mem_some.mp hlater
            exact h.last f rfl }
  | systemOut =>
      cases testCase with
      | none => exact h
      | some c => exact h.output rfl _ _
  | systemErr =>
      cases testCase with
      | none => exact h
      | some c => exact h.output rfl _ _

/-- A property does not change where things come from. -/
theorem addProperty (h : s.Follows ps) (attributes : Attributes) :
    (s.addProperty attributes).Follows ps := by
  obtain ⟨closed, opened, testCase, pending⟩ := s
  rw [Sources.addProperty]
  cases attributes.get? "name" with
  | none => exact h
  | some name =>
      cases attributes.get? "value" with
      | none => exact h
      | some value =>
          cases opened with
          | nil => exact h
          | cons suite outer => exact { h with
              suites := by
                intro later hlater
                rcases List.mem_cons.mp hlater with rfl | hlater
                · have hsuite := h.suites suite List.mem_cons_self
                  exact ⟨hsuite.tag, hsuite.records⟩
                · exact h.suites later (List.mem_cons_of_mem _ hlater) }

/-- **One more piece** leaves everything with its source. -/
theorem next {later : Sources} {target onward : TextTarget} (h : s.Follows ps)
    (hnested : Nested (ps ++ [p])) (hnext : s.next target ps.length p = some (later, onward)) :
    later.Follows (ps ++ [p]) := by
  cases change_next hnext with
  | same hpassive => exact h.passive hnested hpassive
  | openSuite hevent hread => exact h.openSuite hnested hevent hread
  | emptySuite hevent hread => exact h.emptySuite hnested hevent hread
  | closeSuite hevent => exact h.closeSuite hnested hevent
  | openCase hevent hread => exact h.openCase hnested hevent hread
  | closeCase hevent => exact h.closeCase hnested hevent
  | openFailure hevent hread => exact h.openFailure hnested hevent hread
  | emptyFailure hevent hread => exact h.emptyFailure hnested hevent hread
  | closeFailure hevent => exact h.closeFailure hnested hevent
  | addProperty hpassive attributes => exact (h.passive hnested hpassive).addProperty attributes
  | addText hpassive target text => exact (h.passive hnested hpassive).addText target text

end Sources.Follows

/-! ## Following a whole document -/

/-- At the start of a document there is nothing to follow. -/
theorem Sources.follows_nil : ({} : Sources).Follows [] where
  suites := fun _ hsuite => nomatch hsuite
  caseTag := fun _ hc => nomatch hc
  failures := fun _ hc => nomatch hc
  pendingTag := fun _ hf => nomatch hf
  distinct := List.nodup_nil
  closed := rfl
  opened := rfl
  caseOpen := fun _ hc => nomatch hc
  pendingOpen := fun _ hf => nomatch hf
  last := fun _ hf => nomatch hf
  past := fun _ hi => nomatch hi

/-- **The sources after well-nested pieces** follow them. -/
theorem Sources.follows_after (hnested : Nested ps) {target : TextTarget}
    (hafter : Sources.after ps = some (s, target)) : s.Follows ps := by
  -- one piece after the other, each with at most one event
  induction ps using List.reverseRecOn generalizing s target with
  | nil =>
      obtain ⟨rfl, -⟩ := Prod.mk.inj (Option.some.inj hafter)
      exact Sources.follows_nil
  | append_singleton ps p ih =>
      have hbefore : Nested ps := by
        have := hnested.take ps.length
        rwa [List.take_left' rfl] at this
      rw [Sources.after_snoc] at hafter
      obtain ⟨⟨first, middle⟩, hfirst, hnext⟩ := Option.bind_eq_some_iff.mp hafter
      exact (ih hbefore hfirst).next hnested hnext

/-- **Everything that is read** from well-nested pieces has its source among them. -/
theorem exists_sources (hnested : Nested ps) {b : ReportBuilder}
    (hread : ReportBuilder.stepAll file {} (eventsOf ps) = .ok b) :
    ∃ (s : Sources) (target : TextTarget),
      Sources.after ps = some (s, target) ∧ b = s.builder file target ∧ s.Follows ps := by
  rw [Sources.stepAll_eventsOf] at hread
  cases hafter : Sources.after ps with
  | none =>
      rw [hafter] at hread
      cases hread
  | some now =>
      rw [hafter] at hread
      exact ⟨now.1, now.2, rfl, (Except.ok.inj hread).symm, Sources.follows_after hnested hafter⟩

end FailureTriage
