import FailureTriage.Proofs.Advice.Stored
import FailureTriage.Proofs.Files.Directories
import FailureTriage.Proofs.Files.StoredDocument
import FailureTriage.Proofs.Run.Gate

/-!
# How the second stage ends

Asking for fixes ends in one of seven ways.  Only the last one writes a document: the report of
fixes, to the file that the path of the fixes leads to, which is another file if a link stands
there.

* `Exit`, `exit_suggest`: the seven ways, each with the files and the prompts that it leaves behind.
* `saved_report`: what the last one writes.
* `suggest_careful`: when somebody is asked, and which files are as before.
-/

namespace FailureTriage.Run

variable {settings : Settings} {clock : Clock} {suggester : Suggester} {before : Session}
  {summary : ErrorSummary}

/-- The contexts that the second stage goes by: those that were saved, or else new ones. -/
def contextsFor (settings : Settings) (clock : Clock) (files : FileTree) (summary : ErrorSummary) :
    Except TriageFault (List FailureContext) :=
  if files.isFile settings.contextPath then readDocument files settings.contextPath
  else .ok ((settings.workspace files).reconstructEach clock.instant
    (summary.failures.map FailureSummary.toRecord)).value

/-- How the second stage ends: its result, and the files and the prompts then. -/
inductive Exit (settings : Settings) (clock : Clock) (suggester : Suggester) (before : Session) :
    Except RunFault (Option FixReport) → FileTree → List String → Prop where
  /-- The summary cannot be loaded. -/
  | unread {cause : TriageFault}
      (hread : readDocument (α := ErrorSummary) before.files settings.summaryPath = .error cause) :
      Exit settings clock suggester before (.error (.cannotLoad settings.summaryPath cause))
        before.files before.prompts
  /-- Nothing failed. -/
  | idle {summary : ErrorSummary}
      (hread : readDocument before.files settings.summaryPath = .ok summary)
      (hnone : summary.failing = .ok 0) :
      Exit settings clock suggester before (.ok none) before.files before.prompts
  /-- The failures and the errors cannot be added up. -/
  | uncounted {summary : ErrorSummary} {cause : TriageFault}
      (hread : readDocument before.files settings.summaryPath = .ok summary)
      (hcount : summary.failing = .error cause) :
      Exit settings clock suggester before (.error (.triage cause)) before.files before.prompts
  /-- The saved contexts cannot be loaded. -/
  | undecoded {summary : ErrorSummary} {count : UInt32} {cause : TriageFault}
      (hread : readDocument before.files settings.summaryPath = .ok summary)
      (hcount : summary.failing = .ok count) (hsome : count ≠ 0)
      (hcontexts : contextsFor settings clock before.files summary = .error cause) :
      Exit settings clock suggester before (.error (.cannotLoad settings.contextPath cause))
        before.files before.prompts
  /-- The suggester gives no reply. -/
  | refused {summary : ErrorSummary} {count : UInt32} {contexts : List FailureContext}
      {cause : SuggesterFault}
      (hread : readDocument before.files settings.summaryPath = .ok summary)
      (hcount : summary.failing = .ok count) (hsome : count ≠ 0)
      (hcontexts : contextsFor settings clock before.files summary = .ok contexts)
      (hreply : suggester.reply (Prompt.build summary contexts) = .error cause) :
      Exit settings clock suggester before (.error (.noReply cause)) before.files
        (before.prompts ++ [Prompt.build summary contexts])
  /-- The report cannot be written. -/
  | unsaved {summary : ErrorSummary} {count : UInt32} {contexts : List FailureContext}
      {reply : String} {cause : TriageFault} {after : FileTree}
      (hread : readDocument before.files settings.summaryPath = .ok summary)
      (hcount : summary.failing = .ok count) (hsome : count ≠ 0)
      (hcontexts : contextsFor settings clock before.files summary = .ok contexts)
      (hreply : suggester.reply (Prompt.build summary contexts) = .ok reply)
      (hwritten : writeDocument before.files settings.fixesPath
        (Reply.parse clock.stamp reply summary suggester.model) = (after, .error cause)) :
      Exit settings clock suggester before (.error (.cannotWrite settings.fixesPath cause)) after
        (before.prompts ++ [Prompt.build summary contexts])
  /-- The report is written. -/
  | saved {summary : ErrorSummary} {count : UInt32} {contexts : List FailureContext}
      {reply : String} {after : FileTree}
      (hread : readDocument before.files settings.summaryPath = .ok summary)
      (hcount : summary.failing = .ok count) (hsome : count ≠ 0)
      (hcontexts : contextsFor settings clock before.files summary = .ok contexts)
      (hreply : suggester.reply (Prompt.build summary contexts) = .ok reply)
      (hwritten : writeDocument before.files settings.fixesPath
        (Reply.parse clock.stamp reply summary suggester.model) = (after, .ok ())) :
      Exit settings clock suggester before
        (.ok (some (Reply.parse clock.stamp reply summary suggester.model))) after
        (before.prompts ++ [Prompt.build summary contexts])

/-! ## The contexts -/

/-- The contexts are loaded or made, and nothing but the messages has changed. -/
theorem loadContexts_ok {contexts : List FailureContext} (session : Session)
    (h : contextsFor settings clock session.files summary = .ok contexts) :
    ∃ messages, outcome (loadContexts settings clock summary) session
      = (.ok contexts, { session with messages }) := by
  rw [contextsFor] at h
  rw [loadContexts, outcome_bind (outcome_files session)]
  split at h
  next hfile =>
    rw [if_pos hfile]
    exact ⟨session.messages, outcome_load h⟩
  next hfile =>
    cases h
    rw [if_neg hfile]
    exact ⟨_, rfl⟩

theorem loadContexts_error {cause : TriageFault} (session : Session)
    (h : contextsFor settings clock session.files summary = .error cause) :
    outcome (loadContexts settings clock summary) session
      = (.error (.cannotLoad settings.contextPath cause), session) := by
  rw [contextsFor] at h
  rw [loadContexts, outcome_bind (outcome_files session)]
  split at h
  next hfile =>
    rw [if_pos hfile]
    exact outcome_load_error h
  next => cases h

/-! ## The second stage -/

/-- **The second stage** ends in one of these ways. -/
theorem exit_suggest (settings : Settings) (clock : Clock) (suggester : Suggester)
    (before : Session) :
    Exit settings clock suggester before (outcome (suggest settings clock suggester) before).1
      (outcome (suggest settings clock suggester) before).2.files
      (outcome (suggest settings clock suggester) before).2.prompts := by
  unfold suggest
  cases hread : readDocument (α := ErrorSummary) before.files settings.summaryPath with
  | error cause =>
    rw [outcome_bind_error (outcome_load_error hread)]
    exact .unread hread
  | ok summary =>
    rw [outcome_bind (outcome_load hread)]
    cases hcount : summary.failing with
    | error cause => exact .uncounted hread hcount
    | ok count =>
      rw [outcome_bind (outcome_orFault_ok _ count before)]
      by_cases hnone : count = 0
      · subst hnone
        exact .idle hread hcount
      rw [if_neg hnone, warn, outcome_bind (outcome_say _ before)]
      -- what has been said so far plays no part in what follows
      generalize before.messages ++ Logged.messages _ = spoken
      cases hcontexts : contextsFor settings clock before.files summary with
      | error cause =>
        rw [outcome_bind_error (loadContexts_error { before with messages := spoken } hcontexts)]
        exact .undecoded hread hcount hnone hcontexts
      | ok contexts =>
        obtain ⟨messages, hloaded⟩ := loadContexts_ok { before with messages := spoken } hcontexts
        rw [outcome_bind hloaded]
        have hasked := outcome_ask suggester (Prompt.build summary contexts)
          { before with messages }
        cases hreply : suggester.reply (Prompt.build summary contexts) with
        | error cause =>
          rw [hreply] at hasked
          rw [outcome_bind_error hasked]
          exact .refused hread hcount hnone hcontexts hreply
        | ok reply =>
          rw [hreply] at hasked
          rw [outcome_bind hasked]
          have hsaved := outcome_save settings.fixesPath
            (Reply.parse clock.stamp reply summary suggester.model)
            { before with messages, prompts := before.prompts ++ [Prompt.build summary contexts] }
          rcases hwritten : writeDocument before.files settings.fixesPath
            (Reply.parse clock.stamp reply summary suggester.model) with ⟨after, cause | ⟨⟩⟩
          · rw [hwritten] at hsaved
            rw [outcome_bind_error hsaved]
            exact .unsaved hread hcount hnone hcontexts hreply hwritten
          · rw [hwritten] at hsaved
            rw [outcome_bind hsaved]
            exact .saved hread hcount hnone hcontexts hreply hwritten

/-! ## What the second stage leaves alone -/

/-- The documents are entries of the directory that they are written to. -/
private theorem isEntryName_documents :
    FileTree.IsEntryName "error-summary.json" ∧ FileTree.IsEntryName "suggested-fixes.json" := by
  decide +kernel

/-- What was read was found. -/
theorem find?_of_readDocument {α : Type} [JsonCodec α] {files : FileTree} {path : Path} {value : α}
    (h : readDocument files path = .ok value) :
    ∃ place content, files.find? path = some (place, .file content) := by
  have hread : ∃ content, files.read path = .ok content := by
    cases hcontent : files.read path with
    | ok content => exact ⟨content, rfl⟩
    | error fault =>
        rw [readDocument, FileTree.readText, hcontent] at h
        cases h
  obtain ⟨content, hcontent⟩ := hread
  rw [FileTree.read, FileTree.readFrom] at hcontent
  rw [FileTree.find?, FileTree.findFrom?]
  rcases hreach : files.reachFrom .target files.workingDir path with
    fault | ⟨place, _ | _ | _⟩ | place
  all_goals rw [hreach] at hcontent
  case ok.entry.file found => exact ⟨place, found, rfl⟩
  all_goals cases hcontent

/-- **The report of fixes** that was written is the only file that has changed, and it is read as
    it was written. -/
theorem saved_report {report : FixReport} {files after : FileTree}
    (hread : readDocument files settings.summaryPath = .ok summary)
    (hwritten : writeDocument files settings.fixesPath report = (after, .ok ())) :
    ∃ dir place, after = files.put place (.file (writeJson report).toUTF8)
      ∧ after.LeadsTo settings.outputDir dir
      ∧ (place = dir ++ ["suggested-fixes.json"]
        ∨ after.LinkLeadsTo dir "suggested-fixes.json" place)
      ∧ readDocument after settings.fixesPath = .ok report := by
  obtain ⟨hsummary, hfixes⟩ := isEntryName_documents
  obtain ⟨seat, content, hfound⟩ := find?_of_readDocument hread
  -- the summary is in the directory of the report, so this directory is not made
  have hmade : (makeDocumentDir files settings.fixesPath).1 = files :=
    makeDocumentDir_of_found hfixes hsummary hfound
  have hput := writeDocumentText_eq_ok hwritten
  rw [hmade] at hput
  obtain ⟨place, -, hafter, -, hreach⟩ := FileTree.reach_of_write hput
  obtain ⟨dir, hdir, hplace⟩ := FileTree.exists_dir_of_join hfixes (find?_of_reach hreach)
  refine ⟨dir, place, hafter, hdir, hplace, ?_⟩
  rw [readDocument_eq_ok_iff (readText_of_reach hreach), readJson?_writeJson, decode?_report]

/-- What the second stage does with the files and with the suggester, whatever comes of it: its
    result, and the files and the prompts then. -/
structure Careful (settings : Settings) (clock : Clock) (suggester : Suggester) (before : Session)
    (result : Except RunFault (Option FixReport)) (files : FileTree) (prompts : List String) :
    Prop where
  /-- The suggester is asked at most once, and only if the summary counts a failure. -/
  asked : prompts = before.prompts
    ∨ ∃ (summary : ErrorSummary) (count : UInt32) (prompt : String),
      readDocument before.files settings.summaryPath = .ok summary
      ∧ summary.failing = .ok count ∧ count ≠ 0 ∧ prompts = before.prompts ++ [prompt]
  /-- Without a summary nothing changes. -/
  unread : (∀ summary : ErrorSummary,
    readDocument before.files settings.summaryPath ≠ .ok summary) → files = before.files
  /-- Without a failure nothing changes. -/
  idle : ∀ summary : ErrorSummary,
    readDocument before.files settings.summaryPath = .ok summary → summary.failing = .ok 0 →
      files = before.files
  /-- If the failures and the errors cannot be added up, nothing changes. -/
  uncounted : ∀ (summary : ErrorSummary) (cause : TriageFault),
    readDocument before.files settings.summaryPath = .ok summary →
      summary.failing = .error cause → files = before.files
  /-- If the contexts are there but cannot be read, nothing changes. -/
  undecoded : before.files.isFile settings.contextPath = true →
    (∀ contexts : List FailureContext,
      readDocument before.files settings.contextPath ≠ .ok contexts) → files = before.files
  /-- If the suggester does not reply, nothing changes. -/
  refused : ∀ prompt cause, prompts = before.prompts ++ [prompt] →
    suggester.reply prompt = .error cause → files = before.files
  /-- A report was made of the reply.  It is read at the path of the fixes, and nothing has changed
      but the file that this path leads to. -/
  saved : ∀ report, result = .ok (some report) →
    ∃ (summary : ErrorSummary) (prompt reply : String) (dir place : Location),
      readDocument before.files settings.summaryPath = .ok summary
      ∧ prompts = before.prompts ++ [prompt] ∧ suggester.reply prompt = .ok reply
      ∧ report = Reply.parse clock.stamp reply summary suggester.model
      ∧ files = before.files.put place (.file (writeJson report).toUTF8)
      ∧ files.LeadsTo settings.outputDir dir
      ∧ (place = dir ++ ["suggested-fixes.json"]
        ∨ files.LinkLeadsTo dir "suggested-fixes.json" place)
      ∧ readDocument files settings.fixesPath = .ok report

section
variable {result : Except RunFault (Option FixReport)} {files : FileTree} {prompts : List String}

/-- An end with the files as they were. -/
private theorem careful_of_unchanged
    (hasked : prompts = before.prompts
      ∨ ∃ (summary : ErrorSummary) (count : UInt32) (prompt : String),
        readDocument before.files settings.summaryPath = .ok summary
        ∧ summary.failing = .ok count ∧ count ≠ 0 ∧ prompts = before.prompts ++ [prompt])
    (hnone : ∀ report, result ≠ .ok (some report)) :
    Careful settings clock suggester before result before.files prompts where
  asked := hasked
  unread _ := rfl
  idle _ _ _ := rfl
  uncounted _ _ _ _ := rfl
  undecoded _ _ := rfl
  refused _ _ _ _ := rfl
  saved report hreport := absurd hreport (hnone report)

/-- An end after a reply. -/
private theorem careful_of_reply {contexts : List FailureContext} {reply : String}
    {count : UInt32} (hread : readDocument before.files settings.summaryPath = .ok summary)
    (hcount : summary.failing = .ok count) (hsome : count ≠ 0)
    (hcontexts : contextsFor settings clock before.files summary = .ok contexts)
    (hreply : suggester.reply (Prompt.build summary contexts) = .ok reply)
    (hsaved : ∀ report, result = .ok (some report) →
      report = Reply.parse clock.stamp reply summary suggester.model
      ∧ writeDocument before.files settings.fixesPath report = (files, .ok ())) :
    Careful settings clock suggester before result files
      (before.prompts ++ [Prompt.build summary contexts]) where
  asked := Or.inr ⟨summary, count, _, hread, hcount, hsome, rfl⟩
  unread hnone := absurd hread (hnone summary)
  idle found hfound hnone := by
    obtain rfl := Except.ok.inj (hread.symm.trans hfound)
    exact absurd (Except.ok.inj (hcount.symm.trans hnone)) hsome
  uncounted found cause hfound hnone := by
    obtain rfl := Except.ok.inj (hread.symm.trans hfound)
    cases hcount.symm.trans hnone
  undecoded hfile hnone := by
    rw [contextsFor, if_pos hfile] at hcontexts
    exact absurd hcontexts (hnone contexts)
  refused prompt cause hprompt hcause := by
    obtain rfl := List.singleton_inj.mp (List.append_cancel_left hprompt)
    rw [hreply] at hcause
    cases hcause
  saved report hreport := by
    obtain ⟨hparsed, hwritten⟩ := hsaved report hreport
    obtain ⟨dir, place, hfiles, hdir, hplace, hreads⟩ := saved_report hread hwritten
    exact ⟨summary, _, reply, dir, place, hread, rfl, hreply, hparsed, hfiles, hdir, hplace, hreads⟩

theorem Exit.careful (h : Exit settings clock suggester before result files prompts) :
    Careful settings clock suggester before result files prompts := by
  cases h with
  | unread => exact careful_of_unchanged (Or.inl rfl) nofun
  | idle => exact careful_of_unchanged (Or.inl rfl) nofun
  | undecoded => exact careful_of_unchanged (Or.inl rfl) nofun
  | uncounted => exact careful_of_unchanged (Or.inl rfl) nofun
  | refused hread hcount hsome =>
    exact careful_of_unchanged (Or.inr ⟨_, _, _, hread, hcount, hsome, rfl⟩) nofun
  | unsaved hread hcount hsome hcontexts hreply =>
    exact careful_of_reply hread hcount hsome hcontexts hreply nofun
  | saved hread hcount hsome hcontexts hreply hwritten =>
    refine careful_of_reply hread hcount hsome hcontexts hreply fun report hreport => ?_
    cases hreport
    exact ⟨rfl, hwritten⟩

end

/-- **The second stage** is careful: it asks at most once, and no file has changed where it ends
    before a report is made. -/
theorem suggest_careful (settings : Settings) (clock : Clock) (suggester : Suggester)
    (before : Session) :
    Careful settings clock suggester before (outcome (suggest settings clock suggester) before).1
      (outcome (suggest settings clock suggester) before).2.files
      (outcome (suggest settings clock suggester) before).2.prompts :=
  (exit_suggest settings clock suggester before).careful

/-! ## A report behind a link -/

/-- A session in which the path of the fixes is a link to the summary of a failure. -/
def linked : Session where
  files := { entries := [
    (["output"], .directory),
    (["output", "error-summary.json"],
      .file "[[\"\",\"\",0],[1,1,0,0,0.0,0,0.0],[],[\"\",[]]]".toUTF8),
    (["output", "suggested-fixes.json"], .link ⟨"error-summary.json"⟩)] }

/-- A suggester that always gives the same reply. -/
def plainSuggester : Suggester where
  model := "plain"
  reply _ := .ok ""

/-- Then the report of fixes is written over the summary. -/
theorem suggest_throughLink :
    ∃ report after,
      outcome (suggest plainSettings newYear plainSuggester) linked = (.ok (some report), after)
      ∧ after.files.readText plainSettings.summaryPath
        ≠ linked.files.readText plainSettings.summaryPath := by
  have hseen : (outcome (suggest plainSettings newYear plainSuggester) linked).1.toOption.map
        Option.isSome = some true
      ∧ ((outcome (suggest plainSettings newYear plainSuggester) linked).2.files.readText
          plainSettings.summaryPath).toOption
        ≠ (linked.files.readText plainSettings.summaryPath).toOption := by decide +kernel
  generalize outcome (suggest plainSettings newYear plainSuggester) linked = run at hseen ⊢
  obtain ⟨ran, after⟩ := run
  obtain ⟨hran, hread⟩ := hseen
  obtain ⟨result, rfl, hsome⟩ := exists_ok_of_map hran
  obtain ⟨report, rfl⟩ := Option.isSome_iff_exists.mp hsome
  exact ⟨report, after, rfl, fun hsame => hread (congrArg Except.toOption hsame)⟩

end FailureTriage.Run
