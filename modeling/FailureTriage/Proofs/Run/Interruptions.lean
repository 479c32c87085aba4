import FailureTriage.Proofs.Files.StoredDocument
import FailureTriage.Proofs.Run.Gate

/-!
# Analyses that are cut short

An analysis writes the summary and then the contexts, one after the other and each over what was
there.  Nothing takes the first document back if the second one cannot be written.

* `WriteOutcome`, `analyzeUnder`: an analysis whose writes may be cut short anywhere.
* `AnalysisExit`, `exit_analyzeUnder`: the five ways it ends, each with the files that it leaves
  behind.
* `analyze_halfway`: a new summary without contexts.
-/

namespace FailureTriage

/-! ## Writes that may be cut short -/

/-- How the writing of a document goes. -/
inductive WriteOutcome where
  /-- As far as the files let it. -/
  | sound
  /-- Only so many of the missing directories are made, and the file is not opened. -/
  | unopened (made : Nat) (fault : FileFault)
  /-- The file is opened, which empties it, and gets only so many bytes. -/
  | brokenOff (kept : Nat) (fault : FileFault)

/-- The files after only so many of the missing directories of a document have been made. -/
def makeDocumentDirPartly (made : Nat) (files : FileTree) (path : Path) : FileTree :=
  match documentDir? path with
  | none => files
  | some dir =>
    match files.missingDirectories (FileTree.ancestors dir.text.length dir) [] with
    | .ok missing => (files.makeAll (missing.take made)).1
    | .error _ => files

/-- The files after a text has been written, as far as that goes. -/
def writeDocumentTextUnder (how : WriteOutcome) (files : FileTree) (path : Path) (text : String) :
    FileTree × Except TriageFault Unit :=
  match how with
  | .sound => writeDocumentText files path text
  | .unopened made fault => (makeDocumentDirPartly made files path, .error (.file fault))
  | .brokenOff kept fault =>
    match makeDocumentDir files path with
    | (files, .error fault) => (files, .error (.file fault))
    | (files, .ok ()) =>
      match files.write path (text.toUTF8.extract 0 kept) with
      | .ok files => (files, .error (.file fault))
      | .error fault => (files, .error (.file fault))

/-- What is left where a document could not be written: there may be new directories, and the file
    that the path leads to may hold a first part of the text.  Nothing else has changed. -/
def HalfWritten (files : FileTree) (path : Path) (text : String) (after : FileTree) : Prop :=
  ∃ made, files.OnlyMakes made
    ∧ (after = made
      ∨ ∃ place kept, after = made.put place (.file (text.toUTF8.extract 0 kept))
        ∧ place ≠ [] ∧ made.Grows after
        ∧ after.reach path = .ok (.entry place (.file (text.toUTF8.extract 0 kept))))

section
variable {files after : FileTree} {path : Path} {text : String} {cause : TriageFault}
  {how : WriteOutcome}

theorem onlyMakes_makeDocumentDirPartly (made : Nat) (files : FileTree) (path : Path) :
    files.OnlyMakes (makeDocumentDirPartly made files path) := by
  unfold makeDocumentDirPartly
  split
  · exact .refl files
  · split
    · exact files.onlyMakes_makeAll _
    · exact .refl files

/-- **A document that could not be written** is half written at most. -/
theorem halfWritten_of_error
    (h : writeDocumentTextUnder how files path text = (after, .error cause)) :
    HalfWritten files path text after := by
  have hmakes := onlyMakes_makeDocumentDir files path
  cases how with
  | sound =>
      change writeDocumentText files path text = (after, .error cause) at h
      rw [writeDocumentText] at h
      split at h
      · rename_i made fault hmade
        cases h
        rw [hmade] at hmakes
        exact ⟨after, hmakes, Or.inl rfl⟩
      · rename_i made hmade
        rw [hmade] at hmakes
        split at h
        · cases h
        · cases h
          exact ⟨after, hmakes, Or.inl rfl⟩
  | unopened made fault =>
      cases h
      exact ⟨_, onlyMakes_makeDocumentDirPartly made files path, Or.inl rfl⟩
  | brokenOff kept fault =>
      rw [writeDocumentTextUnder] at h
      split at h
      · rename_i made fault hmade
        cases h
        rw [hmade] at hmakes
        exact ⟨after, hmakes, Or.inl rfl⟩
      · rename_i made hmade
        rw [hmade] at hmakes
        split at h
        · rename_i written hwritten
          cases h
          obtain ⟨place, hplace, hput, hgrows, hreach⟩ := FileTree.reach_of_write hwritten
          exact ⟨made, hmakes, Or.inr ⟨place, kept, hput, hplace, hgrows, hreach⟩⟩
        · cases h
          exact ⟨after, hmakes, Or.inl rfl⟩

/-- A document that was written was not cut short. -/
theorem sound_of_ok (h : writeDocumentTextUnder how files path text = (after, .ok ())) :
    writeDocumentText files path text = (after, .ok ()) := by
  cases how with
  | sound => exact h
  | unopened made fault => exact nomatch (Prod.mk.inj h).2
  | brokenOff kept fault =>
      rw [writeDocumentTextUnder] at h
      split at h
      · cases h
      · split at h
        · cases h
        · cases h

/-- **A document written before** is read after another one was cut short, unless the paths of both
    lead to one file. -/
theorem readText_of_halfWritten {before : FileTree} {other : Path} {more : String}
    (h : writeDocumentText before path text = (files, .ok ()))
    (hhalf : HalfWritten files other more after) :
    after.readText path = .ok text ∨ after.locate? path = after.locate? other := by
  obtain ⟨place, hplace, hput, -, hreach⟩ := FileTree.reach_of_write (writeDocumentText_eq_ok h)
  obtain ⟨made, hmakes, hafter⟩ := hhalf
  have hmade : made.entryAt? place = some (.file text.toUTF8) := by
    refine hmakes.keeps.entry _ _ ?_
    rw [hput, FileTree.entryAt?_put hplace, if_pos rfl]
  rcases hafter with rfl | ⟨seat, kept, rfl, hseat, hgrows, hother⟩
  · exact Or.inl (readText_of_reach (FileTree.reach_of_grows hmakes.keeps.grows hreach hmade))
  · have hlater := hmakes.keeps.trans_grows hgrows
    by_cases hsame : place = seat
    · have hcut := FileTree.reach_of_grows hlater hreach
        (by rw [FileTree.entryAt?_put hseat, if_pos hsame])
      rw [locate?_of_reach hcut, locate?_of_reach hother]
      exact Or.inr (congrArg some hsame)
    · have hwhole := FileTree.reach_of_grows hlater hreach
        (by rw [FileTree.entryAt?_put hseat, if_neg hsame, hmade])
      exact Or.inl (readText_of_reach hwhole)

end

/-! ## Analyses that may be cut short -/

namespace Run

variable {settings : Settings} {clock : Clock} {before : Session} {first second : WriteOutcome}

/-- Writes a document, as far as that goes. -/
def saveUnder {α : Type} [JsonCodec α] (how : WriteOutcome) (path : Path) (value : α) :
    Run Unit := do
  let (after, result) := writeDocumentTextUnder how (← files) path (writeJson value)
  modify fun session => { session with files := after }
  orFault (.cannotWrite path) result

/-- Reads the reports, and writes the summary and the contexts of their failures as far as that
    goes. -/
def analyzeUnder (first second : WriteOutcome) : Settings → Clock → Run Analysis :=
  analyzeBy (saveUnder first) (saveUnder second)

/-- An analysis is cut short nowhere if both its writes go as far as the files let them. -/
theorem analyzeUnder_sound (settings : Settings) (clock : Clock) :
    analyzeUnder .sound .sound settings clock = analyze settings clock :=
  rfl

/-- How an analysis ends: its result, and the files then. -/
inductive AnalysisExit (settings : Settings) (clock : Clock) (before : FileTree) :
    Except RunFault Analysis → FileTree → Prop where
  /-- The reports cannot be taken in, and nothing has changed. -/
  | untaken {cause : TriageFault}
      (hload : (ReportSet.load before settings.reportsDir).value = .error cause) :
      AnalysisExit settings clock before (.error (.triage cause)) before
  /-- The counts of a suite cannot be added up, and nothing has changed. -/
  | uncounted {reports : ReportSet} {cause : TriageFault}
      (hload : (ReportSet.load before settings.reportsDir).value = .ok reports)
      (hsummary : (ErrorSummary.build (settings.workspace before) clock.stamp reports).value
        = .error cause) :
      AnalysisExit settings clock before (.error (.triage cause)) before
  /-- The summary cannot be written, and no contexts have been. -/
  | unsummarised {reports : ReportSet} {summary : ErrorSummary} {cause : TriageFault}
      {after : FileTree}
      (hload : (ReportSet.load before settings.reportsDir).value = .ok reports)
      (hsummary : (ErrorSummary.build (settings.workspace before) clock.stamp reports).value
        = .ok summary)
      (hcut : HalfWritten before settings.summaryPath (writeJson summary) after) :
      AnalysisExit settings clock before (.error (.cannotWrite settings.summaryPath cause)) after
  /-- The summary is written, and the contexts cannot be. -/
  | halfway {reports : ReportSet} {summary : ErrorSummary} {contexts : List FailureContext}
      {cause : TriageFault} {between after : FileTree}
      (hload : (ReportSet.load before settings.reportsDir).value = .ok reports)
      (hsummary : (ErrorSummary.build (settings.workspace before) clock.stamp reports).value
        = .ok summary)
      (hcontexts : contexts
        = ((settings.workspace before).reconstructAll clock.instant reports).value)
      (hwritten : writeDocument before settings.summaryPath summary = (between, .ok ()))
      (hcut : HalfWritten between settings.contextPath (writeJson contexts) after)
      (hread : after.readText settings.summaryPath = .ok (writeJson summary)
        ∨ after.locate? settings.summaryPath = after.locate? settings.contextPath) :
      AnalysisExit settings clock before (.error (.cannotWrite settings.contextPath cause)) after
  /-- Both documents are written. -/
  | finished {reports : ReportSet} {analysis : Analysis} {between after : FileTree}
      (hload : (ReportSet.load before settings.reportsDir).value = .ok reports)
      (hsummary : (ErrorSummary.build (settings.workspace before) clock.stamp reports).value
        = .ok analysis.summary)
      (hcontexts : analysis.contexts
        = ((settings.workspace before).reconstructAll clock.instant reports).value)
      (hwritten : writeDocument before settings.summaryPath analysis.summary = (between, .ok ()))
      (hwritten' : writeDocument between settings.contextPath analysis.contexts
        = (after, .ok ())) :
      AnalysisExit settings clock before (.ok analysis) after

/-- A document is written, or as much of it as comes before the end. -/
theorem writesBy_saveUnder {α : Type} [JsonCodec α] (how : WriteOutcome) (path : Path) (value : α) :
    WritesBy (saveUnder how path value) path fun files =>
      writeDocumentTextUnder how files path (writeJson value) := by
  intro session
  rw [saveUnder, outcome_bind (outcome_files session), outcome_bind (outcome_change _ session)]
  cases (writeDocumentTextUnder how session.files path (writeJson value)).2 <;> rfl

/-- **An analysis** ends in one of these ways, wherever its writes are cut short. -/
theorem exit_analyzeUnder (first second : WriteOutcome) (settings : Settings) (clock : Clock)
    (before : Session) :
    AnalysisExit settings clock before.files
      (outcome (analyzeUnder first second settings clock) before).1
      (outcome (analyzeUnder first second settings clock) before).2.files := by
  obtain ⟨result, files, messages, hending, hran⟩ :=
    outcome_analyzeBy (writesBy_saveUnder first settings.summaryPath)
      (writesBy_saveUnder second settings.contextPath) clock before
  rw [analyzeUnder, hran]
  cases hending with
  | untaken hload => exact .untaken hload
  | uncounted hload hsummary => exact .uncounted hload hsummary
  | unsummarised hfound hfirst =>
    cases hfound with
    | found hload hsummary => exact .unsummarised hload hsummary (halfWritten_of_error hfirst)
  | halfway hfound hfirst hsecond =>
    have hcut := halfWritten_of_error hsecond
    have hwritten := sound_of_ok hfirst
    cases hfound with
    | found hload hsummary hcontexts =>
      exact .halfway hload hsummary hcontexts hwritten hcut (readText_of_halfWritten hwritten hcut)
  | finished hfound hfirst hsecond =>
    cases hfound with
    | found hload hsummary hcontexts =>
      exact .finished hload hsummary hcontexts (sound_of_ok hfirst) (sound_of_ok hsecond)

/-! ## A new summary without contexts -/

/-- A session in which a directory stands where the contexts are to be written. -/
def blocked : Session where
  files := { entries := [
    (["reports"], .directory),
    (["reports", "TEST-A.xml"], .file stated.toUTF8),
    (["output"], .directory),
    (["output", "failure-context.json"], .directory)] }

/-- Then an analysis fails, and has written its summary all the same. -/
theorem analyze_halfway :
    ∃ fault after,
      outcome (analyze plainSettings newYear) blocked = (.error fault, after)
      ∧ blocked.files.isFile plainSettings.summaryPath = false
      ∧ after.files.isFile plainSettings.summaryPath = true := by
  have hseen : (outcome (analyze plainSettings newYear) blocked).1.toOption.isSome = false
      ∧ (outcome (analyze plainSettings newYear) blocked).2.files.isFile plainSettings.summaryPath
        = true := by decide +kernel
  generalize outcome (analyze plainSettings newYear) blocked = run at hseen ⊢
  obtain ⟨ran, after⟩ := run
  obtain ⟨hran, hfile⟩ := hseen
  cases ran with
  | ok analysis => cases hran
  | error fault => exact ⟨fault, after, rfl, by decide +kernel, hfile⟩

end Run

end FailureTriage
