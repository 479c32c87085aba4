import FailureTriage.Proofs.Context.Unnoticed
import FailureTriage.Proofs.Run.Gate

/-!
# Analyses that are repeated

An analysis changes its two documents and no other file.  Run once more on what it has left, it
finds the same, and writes the same documents with new dates, wherever their directory lies.

* `Analysed`: the files after an analysis; `files_of_outcome`: it changes only its documents.
* `Unseen`: when the documents of an analysis are not read by the next one.
* `analyze_again`: both runs.
* `analyze_twice_linked`: documents that are links, and documents that are read.
-/

namespace FailureTriage

/-- What an analysis finds at another time. -/
def Analysis.dated (analysis : Analysis) (clock : Clock) : Analysis where
  summary :=
    { analysis.summary with
      metadata := { analysis.summary.metadata with generatedAt := clock.stamp } }
  contexts := analysis.contexts.map fun context => { context with generatedAt := clock.instant }

namespace Workspace

/-- The time of a context is nothing that the context depends on. -/
theorem reconstruct_at (w : Workspace) (now later : Timestamp) (failure : FailureRecord) :
    (w.reconstruct later failure).value
      = { (w.reconstruct now failure).value with generatedAt := later } := by
  rfl

theorem reconstructAll_at (w : Workspace) (now later : Timestamp) (reports : ReportSet) :
    (w.reconstructAll later reports).value
      = (w.reconstructAll now reports).value.map fun context =>
          { context with generatedAt := later } := by
  rw [reconstructAll, reconstructAll, reconstructEach, reconstructEach, Logged.value_forEach,
    Logged.value_forEach, List.map_map]
  exact List.map_congr_left fun failure _ => reconstruct_at w now later failure

end Workspace

theorem ErrorSummary.build_at (w : Workspace) (now later : String) (reports : ReportSet) :
    (build w later reports).value
      = (build w now reports).value.map fun summary =>
          { summary with metadata := { summary.metadata with generatedAt := later } } := by
  rw [build, build, Logged.value_bind, Logged.value_bind]
  cases (Logged.tryEach (describeSuite w) reports.suites).value <;> rfl

namespace Run

variable {settings : Settings} {clock : Clock} {before after : Session} {analysis : Analysis}
  {dir : Location}

/-- The files after an analysis: its documents hold what was found, and nothing else has changed. -/
structure Analysed (before : FileTree) (dir : Location) (analysis : Analysis) (after : FileTree) :
    Prop where
  summary : after.entryAt? (dir ++ ["error-summary.json"])
    = some (.file (writeJson analysis.summary).toUTF8)
  contexts : after.entryAt? (dir ++ ["failure-context.json"])
    = some (.file (writeJson analysis.contexts).toUTF8)
  rest : ∀ place, (∀ name ∈ documentNames, place ≠ dir ++ [name]) →
    after.entryAt? place = before.entryAt? place

/-- Whether the documents in a directory have names that an analysis does not read, and are not
    read by way of links. -/
structure Unseen (extension : String) (files : FileTree) (dir : Location) : Prop where
  /-- The sources have another extension. -/
  otherExtension : extension ≠ "json"
  /-- The extension is not the end of a path to a document. -/
  noFolder : ∀ name ∈ documentNames, ¬ '/' :: name.toList <:+ extension.toList
  noLink : ∀ folder link, IsRead extension link →
    ∀ name ∈ documentNames, ¬ files.LinkLeadsTo folder link (dir ++ [name])

/-- The files with the documents of an analysis in a directory. -/
def withDocuments (files : FileTree) (dir : Location) (analysis : Analysis) : FileTree :=
  (files.put (dir ++ ["error-summary.json"]) (.file (writeJson analysis.summary).toUTF8)).put
    (dir ++ ["failure-context.json"]) (.file (writeJson analysis.contexts).toUTF8)

theorem analysed_withDocuments (files : FileTree) (dir : Location) (analysis : Analysis) :
    Analysed files dir analysis (withDocuments files dir analysis) where
  summary := by
    rw [withDocuments, FileTree.entryAt?_put (by simp), if_neg (by simp),
      FileTree.entryAt?_put (by simp), if_pos rfl]
  contexts := by rw [withDocuments, FileTree.entryAt?_put (by simp), if_pos rfl]
  rest := by
    intro place hplace
    rw [withDocuments, FileTree.entryAt?_put (by simp),
      if_neg (hplace "failure-context.json" (by decide)), FileTree.entryAt?_put (by simp),
      if_neg (hplace "error-summary.json" (by decide))]

/-- **An analysis writes its documents** in a directory that is there, unless they are links. -/
theorem files_of_outcome (hdir : before.files.LeadsTo settings.outputDir dir)
    (hplain : ∀ name ∈ documentNames, ∀ target,
      before.files.entryAt? (dir ++ [name]) ≠ some (.link target))
    (h : outcome (analyze settings clock) before = (.ok analysis, after)) :
    after.files = withDocuments before.files dir analysis
      ∧ (∀ name ∈ documentNames, before.files.IsFree (dir ++ [name]))
      ∧ ∀ name ∈ documentNames, after.files.Takes settings.outputDir dir name := by
  obtain ⟨_, between, -, -, -, hfirst, hsecond⟩ := analyze_eq_ok h
  have hsummary : "error-summary.json" ∈ documentNames := by decide
  have hcontexts : "failure-context.json" ∈ documentNames := by decide
  have hother : dir ++ ["failure-context.json"] ≠ dir ++ ["error-summary.json"] := by simp
  -- the summary goes to its place
  have htakes := FileTree.takes_of_written (isEntryName_of_document hsummary) hdir
    (hplain _ hsummary) hfirst
  have hfree := htakes.seats.isFree
  have hbetween := congrArg Prod.fst
    (hfirst.symm.trans (htakes.write (isEntryName_of_document hsummary) _))
  obtain rfl : between = _ := hbetween
  -- and then the contexts go to theirs
  have htakes' := FileTree.takes_of_written (isEntryName_of_document hcontexts)
    ((FileTree.leadsTo_put hfree _).mpr hdir)
    (by rw [FileTree.entryAt?_put hfree.ne_nil, if_neg hother]; exact hplain _ hcontexts) hsecond
  have hfree' := htakes'.seats.isFree
  have hafter := congrArg Prod.fst
    (hsecond.symm.trans (htakes'.write (isEntryName_of_document hcontexts) _))
  obtain hafter : after.files = withDocuments before.files dir analysis := hafter
  refine ⟨hafter, ?_, ?_⟩
  · rw [documentNames, List.forall_mem_cons, List.forall_mem_singleton]
    refine ⟨hfree, ?_⟩
    rwa [FileTree.IsFree, FileTree.entryAt?_put hfree.ne_nil, if_neg hother] at hfree'
  · rw [documentNames, List.forall_mem_cons, List.forall_mem_singleton, hafter]
    exact ⟨(htakes.put hfree _).put hfree' _, htakes'.put hfree' _⟩

/-- The documents of an analysis are written in a directory that takes them. -/
theorem write_documents {files : FileTree}
    (htakes : ∀ name ∈ documentNames, files.Takes settings.outputDir dir name)
    (analysis : Analysis) :
    ∃ between, writeDocument files settings.summaryPath analysis.summary = (between, .ok ())
      ∧ writeDocument between settings.contextPath analysis.contexts
        = (withDocuments files dir analysis, .ok ()) := by
  rw [documentNames, List.forall_mem_cons, List.forall_mem_singleton] at htakes
  obtain ⟨hsummary, hcontexts⟩ := htakes
  have hlater := hcontexts.put hsummary.seats.isFree (writeJson analysis.summary).toUTF8
  exact ⟨_, hsummary.write (isEntryName_of_document (by decide)) _,
    hlater.write (isEntryName_of_document (by decide)) _⟩

/-- **What is found** in files that an analysis cannot tell from others differs by its dates. -/
theorem found_alike {files files' : FileTree} {reports : ReportSet}
    (h : files.AlikeFor settings.layout.sourceExtension files')
    (hsummary : (ErrorSummary.build (settings.workspace files) clock.stamp reports).value
      = .ok analysis.summary)
    (hcontexts : analysis.contexts
      = ((settings.workspace files).reconstructAll clock.instant reports).value)
    (later : Clock) :
    (ErrorSummary.build (settings.workspace files') later.stamp reports).value
        = .ok (analysis.dated later).summary
      ∧ (analysis.dated later).contexts
        = ((settings.workspace files').reconstructAll later.instant reports).value := by
  have hworkspace : settings.workspace files'
      = { settings.workspace files with files := files' } := rfl
  have hbuilt := @ErrorSummary.build_alike files' (settings.workspace files) h later.stamp reports
  have hrebuilt := @Workspace.reconstructAll_alike files' (settings.workspace files) h
    later.instant reports
  rw [hworkspace, hbuilt, hrebuilt, ErrorSummary.build_at _ clock.stamp, hsummary,
    Workspace.reconstructAll_at _ clock.instant, ← hcontexts]
  exact ⟨rfl, rfl⟩

/-- **An analysis that is repeated** has changed only its documents, and if these are not read it
    finds the same once more and writes it to the same places, with new dates. -/
theorem analyze_again (hdir : before.files.LeadsTo settings.outputDir dir)
    (hplain : ∀ name ∈ documentNames, ∀ target,
      before.files.entryAt? (dir ++ [name]) ≠ some (.link target))
    (h : outcome (analyze settings clock) before = (.ok analysis, after)) :
    Analysed before.files dir analysis after.files
      ∧ (Unseen settings.layout.sourceExtension after.files dir → ∀ later : Clock,
        ∃ final, outcome (analyze settings later) after = (.ok (analysis.dated later), final)
          ∧ Analysed after.files dir (analysis.dated later) final.files) := by
  obtain ⟨hafter, hfree, htakes⟩ := files_of_outcome hdir hplain h
  constructor
  · rw [hafter]
    exact analysed_withDocuments before.files dir analysis
  · intro hunseen later
    have hsummary : "error-summary.json" ∈ documentNames := by decide
    have hcontexts : "failure-context.json" ∈ documentNames := by decide
    have halike : before.files.AlikeFor settings.layout.sourceExtension after.files :=
      FileTree.alikeFor_put_put hsummary hcontexts
        (fun name hname => not_isRead_of_document hname hunseen.otherExtension
          (hunseen.noFolder name hname))
        (hfree _ hsummary) (hfree _ hcontexts) hafter
        fun folder link hread => ⟨hunseen.noLink folder link hread _ hsummary,
          hunseen.noLink folder link hread _ hcontexts⟩
    obtain ⟨reports, _, hload, hfound, hfound', -⟩ := analyze_eq_ok h
    have hloaded : (ReportSet.load after.files settings.reportsDir).value = .ok reports := by
      rw [ReportSet.load_alike halike, hload]
    obtain ⟨hagain, hagain'⟩ := found_alike halike hfound hfound' later
    obtain ⟨between, hfirst, hsecond⟩ := write_documents htakes (analysis.dated later)
    obtain ⟨messages, hrun⟩ := outcome_analyze hloaded hagain hagain' hfirst hsecond
    exact ⟨_, hrun, analysed_withDocuments after.files dir (analysis.dated later)⟩

/-! ## Files without links -/

/-- **The documents are not read** in files without links, if the extension of the sources is a
    name other than that of the documents. -/
theorem Analysed.unseen {files files' : FileTree} (h : Analysed files dir analysis files')
    (hlinks : ∀ place target, files.entryAt? place ≠ some (.link target))
    {extension : String} (hextension : extension ≠ "json") (hname : '/' ∉ extension.toList) :
    Unseen extension files' dir where
  otherExtension := hextension
  noFolder := fun name _ hend => hname (hend.subset List.mem_cons_self)
  noLink := by
    intro folder link _ name _ hleads
    obtain ⟨target, -, -, hlink, -⟩ := hleads
    by_cases hsummary : folder ++ [link] = dir ++ ["error-summary.json"]
    · rw [hsummary, h.summary] at hlink
      cases hlink
    by_cases hcontexts : folder ++ [link] = dir ++ ["failure-context.json"]
    · rw [hcontexts, h.contexts] at hlink
      cases hlink
    · rw [h.rest _ (List.forall_mem_cons.mpr ⟨hsummary, List.forall_mem_singleton.mpr hcontexts⟩)]
        at hlink
      exact hlinks _ target hlink

/-- Settings with the documents among the reports. -/
def crowdedSettings : Settings :=
  { plainSettings with outputDir := ⟨"reports"⟩ }

/-- An analysis whose documents lie among the reports is repeated. -/
theorem analyze_again_crowded :
    ∃ analysis after,
      outcome (analyze crowdedSettings newYear) (sessionOf stated) = (.ok analysis, after)
      ∧ (sessionOf stated).files.LeadsTo crowdedSettings.outputDir ["reports"]
      ∧ Analysed (sessionOf stated).files ["reports"] analysis after.files
      ∧ Unseen crowdedSettings.layout.sourceExtension after.files ["reports"]
      ∧ ∀ later : Clock, ∃ final,
        outcome (analyze crowdedSettings later) after = (.ok (analysis.dated later), final)
          ∧ Analysed after.files ["reports"] (analysis.dated later) final.files := by
  have hran : (outcome (analyze crowdedSettings newYear) (sessionOf stated)).1.toOption.map
      (fun _ => ()) = some () := by decide +kernel
  obtain ⟨analysis, hrun, -⟩ := exists_ok_of_map hran
  have hdir : (sessionOf stated).files.LeadsTo crowdedSettings.outputDir ["reports"] := by
    rfl
  have hlinks : ∀ place target, (sessionOf stated).files.entryAt? place ≠ some (.link target) := by
    intro place target hentry
    rw [FileTree.entryAt?, sessionOf] at hentry
    dsimp only at hentry
    rw [lookup_cons_eq_ite, lookup_cons_eq_ite] at hentry
    split at hentry
    · cases hentry
    split at hentry
    · cases hentry
    split at hentry
    · cases hentry
    · cases hentry
  obtain ⟨hanalysed, hagain⟩ := analyze_again hdir (fun name _ => hlinks _) (Prod.ext hrun rfl)
  have hunseen : Unseen crowdedSettings.layout.sourceExtension _ _ :=
    hanalysed.unseen hlinks (by decide) (by decide)
  exact ⟨analysis, _, Prod.ext hrun rfl, hdir, hanalysed, hunseen, hagain hunseen⟩

/-! ## Documents that are links, and documents that are read -/

/-- A session with files beside the reports of a build. -/
def builtWith (report : String) (more : List (Location × FileEntry)) : Session where
  files := { entries := [
    (["bank"], .directory), (["bank", "target"], .directory),
    (["bank", "target", "surefire-reports"], .directory), (["output"], .directory),
    (["bank", "target", "surefire-reports", "TEST-A.xml"], .file report.toUTF8)] ++ more }

/-- A report of a suite in which nothing failed. -/
def passing : String :=
  "<testsuite name=\"A\" tests=\"1\"/>"

/-- A report of a suite with one failure. -/
def failing : String :=
  "<testsuite name=\"x.ATest\" tests=\"1\" failures=\"1\">"
    ++ "<testcase name=\"works\" classname=\"x.ATest\">"
    ++ "<failure type=\"T\">lost</failure></testcase></testsuite>"

/-- The standard settings, with another extension of source files. -/
def settingsFor (extension : String) : Settings :=
  let standard := Settings.standard fun _ => none
  { standard with layout := { standard.layout with sourceExtension := extension } }

/-- The path of the summary is a link to some notes. -/
def overwriting : Session :=
  builtWith passing [
    (["notes.txt"], .file "kept\n".toUTF8),
    (["output", "error-summary.json"], .link ⟨"../notes.txt"⟩)]

/-- The log of a report is a link to the contexts. -/
def echoing : Session :=
  builtWith passing [
    (["bank", "target", "surefire-reports", "A.txt"],
      .link ⟨"../../../output/failure-context.json"⟩)]

/-- A directory with the name of a test class. -/
def probing : Session :=
  builtWith failing [
    (["test"], .directory), (["test", "x"], .directory), (["test", "x", "ATest.d"], .directory)]

/-- An extension of source files that is a path to the summary. -/
def strayExtension : String :=
  "d/../../../output/error-summary.json"

/-- An analysis changes a file that its summary is a link to.  And the second one of two differs
    from the first where a link to the contexts has the name of a log, which is then found, and
    where the extension of source files leads to the summary, which is then found as the source of
    a test. -/
theorem analyze_twice_linked :
    (∃ analysis after,
      outcome (analyze (settingsFor "java") newYear) overwriting = (.ok analysis, after)
      ∧ overwriting.files.isFile ⟨"notes.txt"⟩ = true
      ∧ (after.files.read ⟨"notes.txt"⟩).toOption
        ≠ (overwriting.files.read ⟨"notes.txt"⟩).toOption)
    ∧ (∃ analysis between again after,
      outcome (analyze (settingsFor "java") newYear) echoing = (.ok analysis, between)
      ∧ outcome (analyze (settingsFor "java") newYear) between = (.ok again, after)
      ∧ analysis.summary.suites.map (·.logExcerpt) = [none]
      ∧ again.summary.suites.map (·.logExcerpt) = [some "[]"])
    ∧ ∃ analysis between again after,
      outcome (analyze (settingsFor strayExtension) newYear) probing = (.ok analysis, between)
      ∧ outcome (analyze (settingsFor strayExtension) newYear) between = (.ok again, after)
      ∧ analysis.summary.failures.map (·.testSource.path) = [none]
      ∧ again.summary.failures.map (·.testSource.path)
        = [some ⟨"test/x/ATest.d/../../../output/error-summary.json"⟩] := by
  have hover : (outcome (analyze (settingsFor "java") newYear) overwriting).1.toOption.isSome = true
      ∧ (((outcome (analyze (settingsFor "java") newYear) overwriting).2.files.read
          ⟨"notes.txt"⟩).toOption.bind fun content => content.data.toList.head?)
        ≠ ((overwriting.files.read ⟨"notes.txt"⟩).toOption.bind fun content =>
          content.data.toList.head?) := by decide +kernel
  have hecho : (outcome (analyze (settingsFor "java") newYear) echoing).1.toOption.map
        (fun analysis => analysis.summary.suites.map (·.logExcerpt)) = some [none]
      ∧ (outcome (analyze (settingsFor "java") newYear)
        (outcome (analyze (settingsFor "java") newYear) echoing).2).1.toOption.map
          (fun analysis => analysis.summary.suites.map (·.logExcerpt)) = some [some "[]"] := by
    decide +kernel
  -- the source of a test is the first of its candidates that is a file
  have hpath : ∀ (w : Workspace) (failure : FailureRecord),
      (ErrorSummary.describe w failure).value.testSource.path
        = (w.testCandidates failure.testClass).find? w.files.isFile :=
    fun w failure => w.path_locateTest failure.testClass failure.testMethod
  have hprobe : (outcome (analyze (settingsFor strayExtension) newYear) probing).1.toOption.map
        (fun analysis => analysis.summary.failures.map (·.testSource.path)) = some [none]
      ∧ (outcome (analyze (settingsFor strayExtension) newYear)
        (outcome (analyze (settingsFor strayExtension) newYear) probing).2).1.toOption.map
          (fun _ => ()) = some ()
      ∧ (ReportSet.load
        (outcome (analyze (settingsFor strayExtension) newYear) probing).2.files
        (settingsFor strayExtension).reportsDir).value.toOption.map (fun reports =>
          reports.failures.map fun failure =>
            (((settingsFor strayExtension).workspace (outcome
              (analyze (settingsFor strayExtension) newYear) probing).2.files).testCandidates
                failure.testClass).find? (outcome
                  (analyze (settingsFor strayExtension) newYear) probing).2.files.isFile)
        = some [some ⟨"test/x/ATest.d/../../../output/error-summary.json"⟩] := by decide +kernel
  refine ⟨?_, ?_, ?_⟩
  · obtain ⟨hran, hchanged⟩ := hover
    obtain ⟨analysis, hrun⟩ := Option.isSome_iff_exists.mp hran
    exact ⟨analysis, _, Prod.ext (toOption_eq_some_iff.mp hrun) rfl, by decide +kernel,
      fun hsame => hchanged (congrArg (Option.bind · _) hsame)⟩
  · obtain ⟨hfirst, hsecond⟩ := hecho
    obtain ⟨analysis, hrun, hnone⟩ := exists_ok_of_map hfirst
    obtain ⟨again, hrun', hsome⟩ := exists_ok_of_map hsecond
    exact ⟨analysis, _, again, _, Prod.ext hrun rfl, Prod.ext hrun' rfl, hnone, hsome⟩
  · generalize outcome (analyze (settingsFor strayExtension) newYear) probing = run at *
    obtain ⟨ran, between⟩ := run
    obtain ⟨hfirst, hsecond, hcandidate⟩ := hprobe
    obtain ⟨analysis, rfl, hnone⟩ := exists_ok_of_map hfirst
    obtain ⟨again, hrun', -⟩ := exists_ok_of_map hsecond
    refine ⟨analysis, between, again, _, rfl, Prod.ext hrun' rfl, hnone, ?_⟩
    obtain ⟨reports, _, hload, hsummary, -⟩ := analyze_eq_ok (Prod.ext hrun' rfl)
    rw [hload, Except.toOption, Option.map_some] at hcandidate
    rw [ErrorSummary.failures_of_build hsummary, List.map_map, ← Option.some.inj hcandidate]
    exact List.map_congr_left fun failure _ => hpath _ failure

end Run

end FailureTriage
