import FailureTriage.Run.Advice

/-!
# Runs step by step

What a run ends with, and what its two stages do to the files.

* `outcome`: a run from a session on.
* `outcome_examine`: what is found in the reports, or why nothing is.
* `outcome_analyzeBy`: how an analysis ends, however its documents are written.
* `analyze_eq_ok`, `outcome_analyze`: what an analysis found, and the documents it wrote.
* `suggest_eq_none_iff`: when nobody is asked.
-/

namespace FailureTriage.Run

variable {α β : Type} {before after : Session} {settings : Settings} {clock : Clock}

/-- What a run ends with that goes on from a session, and the session then. -/
def outcome (step : Run α) (session : Session) : Except RunFault α × Session :=
  step.run session

/-! ## Single steps -/

/-- A run goes on with the value of its first part. -/
theorem outcome_bind {step : Run α} {next : α → Run β} {value : α} {between : Session}
    (h : outcome step before = (.ok value, between)) :
    outcome (step >>= next) before = outcome (next value) between := by
  show ExceptT.bindCont next (outcome step before).1 (outcome step before).2 = _
  rw [h]
  rfl

/-- A run ends where its first part fails. -/
theorem outcome_bind_error {step : Run α} {next : α → Run β} {fault : RunFault} {between : Session}
    (h : outcome step before = (.error fault, between)) :
    outcome (step >>= next) before = (.error fault, between) := by
  show ExceptT.bindCont next (outcome step before).1 (outcome step before).2 = _
  rw [h]
  rfl

/-- A run of two parts ends well if both do. -/
theorem outcome_bind_eq_ok {step : Run α} {next : α → Run β} {result : β} :
    outcome (step >>= next) before = (.ok result, after)
      ↔ ∃ value between, outcome step before = (.ok value, between)
        ∧ outcome (next value) between = (.ok result, after) := by
  constructor
  · intro h
    rcases hstep : outcome step before with ⟨fault | value, between⟩
    · rw [outcome_bind_error hstep] at h
      cases h
    · rw [outcome_bind hstep] at h
      exact ⟨value, between, rfl, h⟩
  · rintro ⟨value, between, hstep, h⟩
    rw [outcome_bind hstep, h]

theorem orFault_eq_ok {ε : Type} {fault : ε → RunFault} {tried : Except ε α} {value : α}
    (h : outcome (orFault fault tried) before = (.ok value, after)) :
    tried = .ok value ∧ after = before := by
  cases tried with
  | ok found =>
      cases h
      exact ⟨rfl, rfl⟩
  | error cause => cases h

theorem outcome_files (session : Session) :
    outcome files session = (.ok session.files, session) :=
  rfl

theorem outcome_change (change : Session → Session) (session : Session) :
    outcome (modify change) session = (.ok (), change session) :=
  rfl

theorem outcome_say (x : Logged α) (session : Session) :
    outcome (say x) session
      = (.ok x.value, { session with messages := session.messages ++ x.messages }) :=
  rfl

/-- What is said changes only the messages. -/
theorem outcome_say_bind (x : Logged α) (next : α → Run β) (session : Session) :
    ∃ messages, outcome (say x >>= next) session
      = outcome (next x.value) { session with messages } :=
  ⟨_, outcome_bind (outcome_say x session)⟩

theorem outcome_orFault_ok {ε : Type} (fault : ε → RunFault) (value : α) (session : Session) :
    outcome (orFault fault (.ok value)) session = (.ok value, session) :=
  rfl

theorem load_eq_ok [JsonCodec α] {path : Path} {value : α}
    (h : outcome (load path) before = (.ok value, after)) :
    readDocument before.files path = .ok value ∧ after = before := by
  rw [load, outcome_bind (outcome_files before)] at h
  exact orFault_eq_ok h

theorem outcome_load [JsonCodec α] {path : Path} {value : α}
    (h : readDocument before.files path = .ok value) :
    outcome (load path) before = (.ok value, before) := by
  rw [load, outcome_bind (outcome_files before), h]
  rfl

theorem outcome_load_error [JsonCodec α] {path : Path} {cause : TriageFault}
    (h : readDocument (α := α) before.files path = .error cause) :
    outcome (load (α := α) path) before = (.error (.cannotLoad path cause), before) := by
  rw [load, outcome_bind (outcome_files before), h]
  rfl

/-- A document is written, or as much of it as comes before a fault. -/
theorem outcome_save [JsonCodec α] (path : Path) (value : α) (session : Session) :
    outcome (save path value) session
      = (match (writeDocument session.files path value).2 with
          | .ok () => .ok ()
          | .error cause => .error (.cannotWrite path cause),
        { session with files := (writeDocument session.files path value).1 }) := by
  rw [save, outcome_bind (outcome_files session), outcome_bind (outcome_change _ session)]
  cases (writeDocument session.files path value).2 <;> rfl

/-- A prompt counts as sent whether there is a reply or not. -/
theorem outcome_ask (suggester : Suggester) (prompt : String) (session : Session) :
    outcome (ask suggester prompt) session
      = (match suggester.reply prompt with
          | .ok reply => .ok reply
          | .error cause => .error (.noReply cause),
        { session with prompts := session.prompts ++ [prompt] }) := by
  rw [ask, outcome_bind (outcome_change _ session)]
  cases suggester.reply prompt <;> rfl

/-! ## What is found in the reports -/

/-- What is found in the reports of a directory, or why nothing is. -/
inductive Examination (settings : Settings) (clock : Clock) (files : FileTree) :
    Except RunFault (ReportSet × Analysis) → Prop where
  /-- The reports cannot be taken in. -/
  | untaken {cause : TriageFault}
      (hload : (ReportSet.load files settings.reportsDir).value = .error cause) :
      Examination settings clock files (.error (.triage cause))
  /-- The counts of a suite cannot be added up. -/
  | uncounted {reports : ReportSet} {cause : TriageFault}
      (hload : (ReportSet.load files settings.reportsDir).value = .ok reports)
      (hsummary : (ErrorSummary.build (settings.workspace files) clock.stamp reports).value
        = .error cause) :
      Examination settings clock files (.error (.triage cause))
  /-- There is a summary, and a context for each failure. -/
  | found {reports : ReportSet} {analysis : Analysis}
      (hload : (ReportSet.load files settings.reportsDir).value = .ok reports)
      (hsummary : (ErrorSummary.build (settings.workspace files) clock.stamp reports).value
        = .ok analysis.summary)
      (hcontexts : analysis.contexts
        = ((settings.workspace files).reconstructAll clock.instant reports).value) :
      Examination settings clock files (.ok (reports, analysis))

/-- **The reports are examined** in one of these ways, and only messages are left behind. -/
theorem outcome_examine (settings : Settings) (clock : Clock) (before : Session) :
    ∃ result messages, Examination settings clock before.files result
      ∧ outcome (examine settings clock) before = (result, { before with messages }) := by
  unfold examine info
  obtain ⟨messages, hsay⟩ := outcome_say_bind _ _ before
  rw [hsay, outcome_bind (outcome_files _)]
  clear hsay
  obtain ⟨messages, hsay⟩ := outcome_say_bind _ _ { before with messages }
  rw [hsay]
  clear hsay
  cases hload : (ReportSet.load before.files settings.reportsDir).value with
  | error cause => exact ⟨_, _, .untaken hload, rfl⟩
  | ok reports =>
    rw [outcome_bind (outcome_orFault_ok _ reports _)]
    obtain ⟨messages, hsay⟩ := outcome_say_bind _ _ { before with messages }
    rw [hsay]
    clear hsay
    cases hsummary :
      (ErrorSummary.build (settings.workspace before.files) clock.stamp reports).value with
    | error cause => exact ⟨_, _, .uncounted hload hsummary, rfl⟩
    | ok summary =>
      rw [outcome_bind (outcome_orFault_ok _ summary _)]
      obtain ⟨messages, hsay⟩ := outcome_say_bind _ _ { before with messages }
      rw [hsay]
      exact ⟨_, messages, .found hload hsummary rfl, rfl⟩

/-! ## Analyses -/

/-- A way to write a text or a document: the files then, and whether it went well. -/
abbrev Writer := FileTree → FileTree × Except TriageFault Unit

/-- Whether a step writes to a path, and does nothing else. -/
def WritesBy (step : Run Unit) (path : Path) (write : Writer) : Prop :=
  ∀ session, outcome step session
    = (match (write session.files).2 with
        | .ok () => .ok ()
        | .error cause => .error (.cannotWrite path cause),
      { session with files := (write session.files).1 })

theorem writesBy_save [JsonCodec α] (path : Path) (value : α) :
    WritesBy (save path value) path fun files => writeDocument files path value :=
  outcome_save path value

/-- A step that writes goes well, or the run ends there. -/
theorem WritesBy.outcome_bind {step : Run Unit} {path : Path} {write : Writer}
    (h : WritesBy step path write) (next : Unit → Run β) (session : Session) :
    (∃ after, write session.files = (after, .ok ())
        ∧ outcome (step >>= next) session = outcome (next ()) { session with files := after })
      ∨ ∃ cause after, write session.files = (after, .error cause)
        ∧ outcome (step >>= next) session
          = (.error (.cannotWrite path cause), { session with files := after }) := by
  have hstep := h session
  rcases hwritten : write session.files with ⟨after, cause | ⟨⟩⟩
  · rw [hwritten] at hstep
    exact Or.inr ⟨cause, after, rfl, outcome_bind_error hstep⟩
  · rw [hwritten] at hstep
    exact Or.inl ⟨after, rfl, Run.outcome_bind hstep⟩

/-- How an analysis ends that writes its documents in a certain way: its result, and the files
    then. -/
inductive Ending (settings : Settings) (clock : Clock) (first : ErrorSummary → Writer)
    (second : List FailureContext → Writer) (before : FileTree) :
    Except RunFault Analysis → FileTree → Prop where
  /-- The reports cannot be taken in. -/
  | untaken {cause : TriageFault}
      (hload : (ReportSet.load before settings.reportsDir).value = .error cause) :
      Ending settings clock first second before (.error (.triage cause)) before
  /-- The counts of a suite cannot be added up. -/
  | uncounted {reports : ReportSet} {cause : TriageFault}
      (hload : (ReportSet.load before settings.reportsDir).value = .ok reports)
      (hsummary : (ErrorSummary.build (settings.workspace before) clock.stamp reports).value
        = .error cause) :
      Ending settings clock first second before (.error (.triage cause)) before
  /-- The summary cannot be written. -/
  | unsummarised {reports : ReportSet} {analysis : Analysis} {cause : TriageFault}
      {after : FileTree}
      (hfound : Examination settings clock before (.ok (reports, analysis)))
      (hfirst : first analysis.summary before = (after, .error cause)) :
      Ending settings clock first second before (.error (.cannotWrite settings.summaryPath cause))
        after
  /-- The summary is written, and the contexts cannot be. -/
  | halfway {reports : ReportSet} {analysis : Analysis} {cause : TriageFault}
      {between after : FileTree}
      (hfound : Examination settings clock before (.ok (reports, analysis)))
      (hfirst : first analysis.summary before = (between, .ok ()))
      (hsecond : second analysis.contexts between = (after, .error cause)) :
      Ending settings clock first second before (.error (.cannotWrite settings.contextPath cause))
        after
  /-- Both documents are written. -/
  | finished {reports : ReportSet} {analysis : Analysis} {between after : FileTree}
      (hfound : Examination settings clock before (.ok (reports, analysis)))
      (hfirst : first analysis.summary before = (between, .ok ()))
      (hsecond : second analysis.contexts between = (after, .ok ())) :
      Ending settings clock first second before (.ok analysis) after

/-- **An analysis** ends in one of these ways, however its documents are written. -/
theorem outcome_analyzeBy {saveSummary : Path → ErrorSummary → Run Unit}
    {saveContexts : Path → List FailureContext → Run Unit} {first : ErrorSummary → Writer}
    {second : List FailureContext → Writer}
    (hfirst : ∀ summary,
      WritesBy (saveSummary settings.summaryPath summary) settings.summaryPath (first summary))
    (hsecond : ∀ contexts,
      WritesBy (saveContexts settings.contextPath contexts) settings.contextPath (second contexts))
    (clock : Clock) (before : Session) :
    ∃ result files messages, Ending settings clock first second before.files result files
      ∧ outcome (analyzeBy saveSummary saveContexts settings clock) before
        = (result, { before with files, messages }) := by
  unfold analyzeBy info
  obtain ⟨examined, messages, hexamined, hran⟩ := outcome_examine settings clock before
  cases hexamined with
  | untaken hload => exact ⟨_, _, messages, .untaken hload, outcome_bind_error hran⟩
  | uncounted hload hsummary =>
    exact ⟨_, _, messages, .uncounted hload hsummary, outcome_bind_error hran⟩
  | @found reports analysis hload hsummary hcontexts =>
    have hfound := Examination.found hload hsummary hcontexts
    rw [outcome_bind hran]
    dsimp only
    rcases (hfirst analysis.summary).outcome_bind _ { before with messages } with
      ⟨between, hwritten, hgoes⟩ | ⟨cause, after, hwritten, hends⟩
    case inr => exact ⟨_, _, messages, .unsummarised hfound hwritten, hends⟩
    rw [hgoes]
    clear hgoes
    obtain ⟨messages, hsay⟩ := outcome_say_bind _ _ { before with files := between, messages }
    rw [hsay]
    clear hsay
    rcases (hsecond analysis.contexts).outcome_bind _ { before with files := between, messages }
      with ⟨after, hwritten', hgoes⟩ | ⟨cause, after, hwritten', hends⟩
    case inr => exact ⟨_, _, messages, .halfway hfound hwritten hwritten', hends⟩
    exact ⟨_, _, _, .finished hfound hwritten hwritten', hgoes⟩

/-- **An analysis that ends well** has found the reports of the directory, and has written the
    summary and then the contexts. -/
theorem analyze_eq_ok {analysis : Analysis}
    (h : outcome (analyze settings clock) before = (.ok analysis, after)) :
    ∃ reports between,
      (ReportSet.load before.files settings.reportsDir).value = .ok reports
      ∧ (ErrorSummary.build (settings.workspace before.files) clock.stamp reports).value
        = .ok analysis.summary
      ∧ analysis.contexts
        = ((settings.workspace before.files).reconstructAll clock.instant reports).value
      ∧ writeDocument before.files settings.summaryPath analysis.summary = (between, .ok ())
      ∧ writeDocument between settings.contextPath analysis.contexts = (after.files, .ok ()) := by
  obtain ⟨result, files, messages, hending, hran⟩ :=
    outcome_analyzeBy (writesBy_save settings.summaryPath) (writesBy_save settings.contextPath)
      clock before
  rw [analyze, hran] at h
  cases h
  cases hending with
  | finished hfound hfirst hsecond =>
    cases hfound with
    | found hload hsummary hcontexts =>
      exact ⟨_, _, hload, hsummary, hcontexts, hfirst, hsecond⟩

/-- **An analysis whose documents can be written** ends well. -/
theorem outcome_analyze {reports : ReportSet} {between written : FileTree} {analysis : Analysis}
    (hload : (ReportSet.load before.files settings.reportsDir).value = .ok reports)
    (hsummary : (ErrorSummary.build (settings.workspace before.files) clock.stamp reports).value
      = .ok analysis.summary)
    (hcontexts : analysis.contexts
      = ((settings.workspace before.files).reconstructAll clock.instant reports).value)
    (hfirst : writeDocument before.files settings.summaryPath analysis.summary
      = (between, .ok ()))
    (hsecond : writeDocument between settings.contextPath analysis.contexts = (written, .ok ())) :
    ∃ messages, outcome (analyze settings clock) before
      = (.ok analysis, { before with files := written, messages }) := by
  obtain ⟨result, files, messages, hending, hran⟩ :=
    outcome_analyzeBy (writesBy_save settings.summaryPath) (writesBy_save settings.contextPath)
      clock before
  have hsame : ∀ {reports' analysis'},
      Examination settings clock before.files (.ok (reports', analysis')) →
        analysis' = analysis := by
    intro reports' analysis' hfound
    cases hfound with
    | found hload' hsummary' hcontexts' =>
      obtain rfl := Except.ok.inj (hload'.symm.trans hload)
      cases analysis
      cases analysis'
      rw [Analysis.mk.injEq]
      exact ⟨Except.ok.inj (hsummary'.symm.trans hsummary), hcontexts'.trans hcontexts.symm⟩
  refine ⟨messages, hran.trans ?_⟩
  cases hending with
  | untaken hload' => exact absurd (hload'.symm.trans hload) (by rintro ⟨⟩)
  | uncounted hload' hsummary' =>
    obtain rfl := Except.ok.inj (hload'.symm.trans hload)
    exact absurd (hsummary'.symm.trans hsummary) (by rintro ⟨⟩)
  | unsummarised hfound hfirst' =>
    rw [hsame hfound] at hfirst'
    exact absurd (hfirst'.symm.trans hfirst) (by rintro ⟨⟩)
  | halfway hfound hfirst' hsecond' =>
    rw [hsame hfound] at hfirst' hsecond'
    obtain rfl := (Prod.mk.inj (hfirst'.symm.trans hfirst)).1
    exact absurd (hsecond'.symm.trans hsecond) (by rintro ⟨⟩)
  | finished hfound hfirst' hsecond' =>
    obtain rfl := hsame hfound
    obtain rfl := (Prod.mk.inj (hfirst'.symm.trans hfirst)).1
    rw [(Prod.mk.inj (hsecond'.symm.trans hsecond)).1]

/-- **Nobody is asked** if the summary that is read counts nothing, and only then. -/
theorem suggest_eq_none_iff (suggester : Suggester) :
    (outcome (suggest settings clock suggester) before).1 = .ok none
      ↔ ∃ summary : ErrorSummary,
        readDocument before.files settings.summaryPath = .ok summary
          ∧ summary.failing = .ok 0 := by
  constructor
  · intro h
    obtain ⟨summary, _, hload, hrest⟩ := outcome_bind_eq_ok.mp (Prod.ext h rfl)
    obtain ⟨hread, rfl⟩ := load_eq_ok hload
    obtain ⟨failing, _, hfailing, hrest⟩ := outcome_bind_eq_ok.mp hrest
    obtain ⟨hcounted, rfl⟩ := orFault_eq_ok hfailing
    refine ⟨summary, hread, hcounted.trans (congrArg Except.ok ?_)⟩
    refine Decidable.byContradiction fun hsome => ?_
    -- somebody was asked, and then a report is returned
    rw [if_neg hsome] at hrest
    simp only [warn, info, outcome_bind_eq_ok] at hrest
    obtain ⟨_, _, -, contexts, _, -, reply, _, -, _, _, -, _, _, -, hresult⟩ := hrest
    cases hresult
  · rintro ⟨summary, hread, hfailing⟩
    unfold suggest
    rw [outcome_bind (outcome_load hread), hfailing, outcome_bind (outcome_orFault_ok _ _ _),
      if_pos rfl]
    rfl

end FailureTriage.Run
