import FailureTriage.Context.Reconstruction
import FailureTriage.Proofs.Source.Discovery
import FailureTriage.Proofs.Source.Unread
import FailureTriage.Proofs.Suite.Isolation
import FailureTriage.Proofs.Summary.Building
import Mathlib.Data.List.Find

/-!
# What an analysis does not notice

Trees that differ only by files of names that nobody looks for give the same reports, the same
sources, and so the same summary and the same contexts.

* `ReportSet.load_alike`: the reports.
* `Workspace.locateTest_alike`, `Workspace.relatedSearch_alike`: the sources of one failure.
* `ErrorSummary.build_alike`, `Workspace.reconstructAll_alike`: what is made of both.
-/

namespace FailureTriage

variable {extension : String} {tree tree' : FileTree} {path dir : Path} {name : String}

/-! ## Reports -/

namespace FileTree.AlikeFor

variable (h : AlikeFor extension tree tree')
include h

theorem find?_of_isReportName (hname : path.fileName? = some name)
    (hreport : isReportName name = true) : tree'.find? path = tree.find? path := by
  refine h.find?_eq_of_read fun steps last hsteps => .report ?_
  rw [(Path.ends_of_stepsOf hsteps).2] at hname
  rwa [Option.some.inj hname]

/-- The log of a report is found alike. -/
theorem find?_log {log : Path} (hname : path.fileName? = some name)
    (hreport : isReportName name = true) (hlog : suiteLogPath? path = some log) :
    tree'.find? log = tree.find? log := by
  refine h.find?_eq_of_read fun steps last hsteps => .log ?_
  have hlast := (Path.ends_of_stepsOf hsteps).1
  rw [suiteLogPath?, hname] at hlog
  obtain rfl : path.withFileName (suiteLogName name) = log := Option.some.inj hlog
  have hpieces : (path.withFileName (suiteLogName name)).pieces.getLast?
      = (Path.pieces ⟨suiteLogName name⟩).getLast? := by
    rw [Path.withFileName]
    split
    · exact Path.getLast?_pieces_join _ _
    · exact Path.getLast?_pieces_join _ _
  rw [hpieces] at hlast
  exact Path.suffix_of_getLast?_pieces (by decide) (suffix_suiteLogName hreport) hlast

/-- The reports of a directory are the same files. -/
theorem reportFiles_eq (hdir : tree.isDirectory dir = true) :
    reportFiles tree' dir = reportFiles tree dir := by
  obtain ⟨place, hfound⟩ := isDirectory_iff.mp hdir
  have hholds : (fun path => tree'.isFile path && (path.fileName?.map isReportName).getD false)
      = fun path => tree.isFile path && (path.fileName?.map isReportName).getD false := by
    funext path
    cases hname : path.fileName? with
    | none => rw [Option.map_none, Option.getD_none, Bool.and_false, Bool.and_false]
    | some name =>
        rw [Option.map_some, Option.getD_some]
        by_cases hreport : isReportName name = true
        · rw [isFile_congr (h.find?_of_isReportName hname hreport)]
        · rw [Bool.eq_false_of_not_eq_true hreport, Bool.and_false, Bool.and_false]
  have hpaths := h.filter_paths
    (fun path => tree.isFile path && (path.fileName?.map isReportName).getD false) dir
    (fun name hname => by
      have hreport : isReportName name = false :=
        Bool.eq_false_of_not_eq_true fun hreport => h.unread name hname (.report hreport)
      rw [Path.fileName?_join_name (isEntryName_of_document hname), Option.map_some,
        Option.getD_some, hreport, Bool.and_false]) place
  rw [reportFiles, reportFiles, list_eq_ok.mpr ⟨place, hfound, rfl⟩,
    list_eq_ok.mpr ⟨place, (h.directory dir place).mpr hfound, rfl⟩, hholds]
  exact congrArg (fun paths => Except.ok (sortPaths paths)) hpaths

/-- A report gives the same. -/
theorem suitesOrWarning_eq (hfile : tree.isFile path = true) (hname : path.fileName? = some name)
    (hreport : isReportName name = true) :
    suitesOrWarning tree' path = suitesOrWarning tree path := by
  rw [FailureTriage.suitesOrWarning_eq, FailureTriage.suitesOrWarning_eq,
    readReport_congr hfile (h.find?_of_isReportName hname hreport)
      fun _ log hlog => h.find?_log hname hreport hlog]

end FileTree.AlikeFor

/-- A report that is listed is a file with the name of a report. -/
theorem exists_name_of_mem_reportFiles {reports : List Path}
    (hreports : reportFiles tree dir = .ok reports) (hpath : path ∈ reports) :
    tree.isFile path = true ∧ ∃ name, path.fileName? = some name ∧ isReportName name = true := by
  rw [reportFiles] at hreports
  cases hlist : tree.list dir with
  | error fault =>
      rw [hlist] at hreports
      cases hreports
  | ok names =>
      rw [hlist] at hreports
      obtain rfl := Except.ok.inj hreports
      rw [FileTree.mem_sortPaths, List.mem_filter, Bool.and_eq_true] at hpath
      obtain ⟨-, hfile, hname⟩ := hpath
      refine ⟨hfile, ?_⟩
      cases hfound : path.fileName? with
      | none =>
          rw [hfound] at hname
          cases hname
      | some name =>
          rw [hfound] at hname
          exact ⟨name, rfl, hname⟩

/-- Reports that give the same one by one give the same together. -/
theorem ReportSet.takeIn_congr {reports : List Path}
    (h : ∀ path ∈ reports, suitesOrWarning tree' path = suitesOrWarning tree path)
    (set : ReportSet) : takeIn tree' set reports = takeIn tree set reports := by
  induction reports generalizing set with
  | nil => rfl
  | cons path rest ih =>
      rw [takeIn, takeIn, h path List.mem_cons_self]
      refine Logged.bind_congr_value ?_
      cases set.pushAll (suitesOrWarning tree path).value with
      | error fault => rfl
      | ok between => exact ih (fun other hother => h other (List.mem_cons_of_mem path hother)) _

/-- **The reports of a directory** are the same. -/
theorem ReportSet.load_alike (h : tree.AlikeFor extension tree') (dir : Path) :
    load tree' dir = load tree dir := by
  rw [load, load, h.isDirectory]
  cases hdir : tree.isDirectory dir with
  | false => rw [Bool.not_false, if_pos rfl, if_pos rfl]
  | true =>
      rw [h.reportFiles_eq hdir, Bool.not_true, if_neg Bool.false_ne_true,
        if_neg Bool.false_ne_true]
      cases hreports : reportFiles tree dir with
      | error fault => dsimp only
      | ok reports =>
          have hread : ∀ path ∈ reports,
              suitesOrWarning tree' path = suitesOrWarning tree path := by
            intro path hpath
            obtain ⟨hfile, name, hname, hreport⟩ := exists_name_of_mem_reportFiles hreports hpath
            exact h.suitesOrWarning_eq hfile hname hreport
          have htaken := ReportSet.takeIn_congr hread
          cases reports with
          | nil => dsimp only
          | cons first rest =>
              dsimp only
              rw [htaken]

/-! ## The source of a test -/

namespace Workspace

variable {w : Workspace} (h : w.files.AlikeFor w.layout.sourceExtension tree')

/-- The path of a test source is the first of the candidates that is a file. -/
theorem path_locateTest (w : Workspace) (testClass testMethod : String) :
    (w.locateTest testClass testMethod).value.path
      = (w.testCandidates testClass).find? w.files.isFile := by
  rw [locateTest]
  dsimp only
  cases (w.testCandidates testClass).find? w.files.isFile with
  | none => rfl
  | some path =>
      cases hread : w.files.readText path with
      | error fault =>
          dsimp only
          rw [hread]
          rfl
      | ok text =>
          dsimp only
          rw [hread]
          dsimp only
          rw [Logged.value_pure, Window.around]
          split
          · rfl
          · rfl

include h

theorem find?_of_mem_testCandidates {testClass : String}
    (hpath : path ∈ w.testCandidates testClass) : tree'.find? path = w.files.find? path := by
  obtain ⟨root, -, rfl⟩ := List.mem_map.mp hpath
  exact h.find?_join_source _ _

theorem find?_testCandidates (testClass : String) :
    (w.testCandidates testClass).find? tree'.isFile
      = (w.testCandidates testClass).find? w.files.isFile :=
  List.find?_congr fun _ hpath => FileTree.isFile_congr (find?_of_mem_testCandidates h hpath)

/-- **The source of a test** is the same. -/
theorem locateTest_alike (testClass testMethod : String) :
    ({ w with files := tree' } : Workspace).locateTest testClass testMethod
      = w.locateTest testClass testMethod := by
  have hsearched := find?_testCandidates h testClass
  rw [locateTest, locateTest]
  dsimp only
  rw [show ({ w with files := tree' } : Workspace).testCandidates testClass
    = w.testCandidates testClass from rfl, hsearched]
  cases hfound : (w.testCandidates testClass).find? w.files.isFile with
  | none => rfl
  | some path =>
      have hfind := find?_of_mem_testCandidates h (List.mem_of_find?_eq_some hfound)
      dsimp only
      rw [FileTree.readText_congr hfind (List.find?_some hfound)]

/-- The path of a test source leads to the same file. -/
theorem find?_of_path_locateTest {testClass testMethod : String}
    (hpath : (w.locateTest testClass testMethod).value.path = some path) :
    tree'.find? path = w.files.find? path ∧ w.files.isFile path = true := by
  rw [path_locateTest] at hpath
  exact ⟨find?_of_mem_testCandidates h (List.mem_of_find?_eq_some hpath), List.find?_some hpath⟩

/-! ## Related sources -/

theorem sourceRoots_alike :
    ({ w with files := tree' } : Workspace).sourceRoots = w.sourceRoots := by
  have hdirectory : tree'.isDirectory = w.files.isDirectory := funext h.isDirectory
  rw [sourceRoots, sourceRoots, hdirectory]

theorem discovered_alike (patterns : List String) (dependencies : NameSet)
    (packages : List String) :
    ({ w with files := tree' } : Workspace).discovered patterns dependencies.qualified packages
      = w.discovered patterns dependencies.qualified packages := by
  have hnamed : ({ w with files := tree' } : Workspace).namedSources w.sourceRoots patterns
      = w.namedSources w.sourceRoots patterns := by
    refine List.flatMap_congr fun root hroot => ?_
    rw [h.sourceFiles (w.exactRoots.sound root hroot).1]
  have hdependencies :
      ({ w with files := tree' } : Workspace).dependencySources w.sourceRoots dependencies.qualified
        = w.dependencySources w.sourceRoots dependencies.qualified := by
    refine List.flatMap_congr fun name _ => List.filter_congr fun path hpath => ?_
    obtain ⟨root, -, rfl⟩ := List.mem_map.mp hpath
    exact FileTree.isFile_congr (h.find?_join_source _ _)
  have hpackages :
      ({ w with files := tree' } : Workspace).packageSources w.sourceRoots packages
        = w.packageSources w.sourceRoots packages := by
    refine List.flatMap_congr fun package _ => List.flatMap_congr fun root _ => ?_
    exact h.filesIn _
  rw [discovered_eq, discovered_eq, sourceRoots_alike h, hnamed, hdependencies, hpackages]

theorem find?_of_mem_discovered {patterns packages : List String} {dependencies : NameSet}
    (hpath : path ∈ w.discovered patterns dependencies.qualified packages) :
    tree'.find? path = w.files.find? path := by
  rcases mem_discovered.mp hpath with ⟨root, -, -, -, hextension, -⟩
    | ⟨name, -, -, root, -, rfl, -⟩ | ⟨package, -, root, -, -, -, hextension⟩
  · exact h.find?_of_extension hextension
  · rw [← sourceFileOf_eq]
    exact h.find?_join_source root _
  · exact h.find?_of_extension hextension

/-- The files that are kept of those that are discovered are the same. -/
theorem distinctFiles_alike (patterns : List String) (dependencies : NameSet)
    (packages : List String) :
    ({ w with files := tree' } : Workspace).distinctFiles
        (({ w with files := tree' } : Workspace).discovered patterns dependencies.qualified
          packages)
      = w.distinctFiles (w.discovered patterns dependencies.qualified packages) := by
  rw [distinctFiles_eq fun path => isFile_of_mem_discovered,
    distinctFiles_eq fun path => isFile_of_mem_discovered, discovered_alike h]
  refine firstOfEach_congr fun a ha b hb => ?_
  rw [FileTree.locate?, FileTree.locate?, FileTree.locate?, FileTree.locate?,
    find?_of_mem_discovered h ha, find?_of_mem_discovered h hb]

/-- **The related sources of a failure** are the same. -/
theorem relatedSearch_alike (failure : FailureRecord) (testFile : Option Path)
    (htest : ∀ path, testFile = some path →
      tree'.find? path = w.files.find? path ∧ w.files.isFile path = true) :
    ({ w with files := tree' } : Workspace).relatedSearch failure testFile
      = w.relatedSearch failure testFile := by
  have hpaths : ∀ patterns dependencies, _ = _ := fun patterns dependencies =>
    distinctFiles_alike h patterns dependencies (productionPackages failure.testClass)
  simp only [discovered_eq] at hpaths
  cases testFile with
  | none => simp only [relatedSearch, hpaths]
  | some path =>
      obtain ⟨hfind, hfile⟩ := htest path rfl
      have himported : fileDependencies tree' path = fileDependencies w.files path := by
        rw [fileDependencies, fileDependencies, FileTree.readText_congr hfind hfile]
      simp only [relatedSearch, himported, hpaths]

end Workspace

/-! ## Contexts and summaries -/

/-- Sources that are read alike one by one are read alike. -/
theorem SourceReader.readAll_congr {paths : List Path}
    (h : ∀ path ∈ paths, tree'.readText path = tree.readText path) (reader : SourceReader) :
    reader.readAll tree' paths = reader.readAll tree paths := by
  induction paths generalizing reader with
  | nil => rfl
  | cons path rest ih =>
      have hfirst : reader.read tree' path = reader.read tree path := by
        rw [read, read, textOf, textOf, h path List.mem_cons_self]
      rw [readAll, readAll, hfirst]
      refine Logged.bind_congr_value ?_
      dsimp only
      rw [ih fun other hother => h other (List.mem_cons_of_mem path hother)]

namespace Workspace

variable {w : Workspace} (h : w.files.AlikeFor w.layout.sourceExtension tree')
include h

/-- **The context of a failure** is the same. -/
theorem reconstruct_alike (now : Timestamp) (failure : FailureRecord) :
    ({ w with files := tree' } : Workspace).reconstruct now failure
      = w.reconstruct now failure := by
  obtain ⟨test, htest⟩ : ∃ test,
      test = (w.locateTest failure.testClass failure.testMethod).value := ⟨_, rfl⟩
  have hfilter : test.path.filter tree'.isFile = test.path.filter w.files.isFile := by
    cases hpath : test.path with
    | none => rw [Option.filter_none, Option.filter_none]
    | some path =>
        rw [htest] at hpath
        rw [Option.filter_some, Option.filter_some,
          FileTree.isFile_congr (find?_of_path_locateTest h hpath).1]
  have hsearch := relatedSearch_alike h failure (test.path.filter w.files.isFile)
    (fun path hpath => by
      rw [htest] at hpath
      exact find?_of_path_locateTest h (Option.filter_eq_some_iff.mp hpath).1)
  rw [reconstruct, reconstruct, locateTest_alike h]
  refine Logged.bind_congr_value (Logged.bind_congr_value ?_)
  dsimp only
  rw [← htest, hfilter, hsearch]
  -- every source that is read is one that was discovered
  refine Logged.bind_congr_value ?_
  rw [SourceReader.readAll_congr fun path hpath => ?_]
  have hdiscovered := discovered_of_mem_paths hpath
  exact FileTree.readText_congr (find?_of_mem_discovered h hdiscovered)
    (isFile_of_mem_discovered hdiscovered)

/-- **The contexts of all failures** are the same. -/
theorem reconstructAll_alike (now : Timestamp) (reports : ReportSet) :
    ({ w with files := tree' } : Workspace).reconstructAll now reports
      = w.reconstructAll now reports :=
  Logged.forEach_congr fun failure _ => reconstruct_alike h now failure

end Workspace

namespace ErrorSummary

variable {w : Workspace} (h : w.files.AlikeFor w.layout.sourceExtension tree')
include h

theorem describe_alike (failure : FailureRecord) :
    describe { w with files := tree' } failure = describe w failure := by
  rw [describe, describe, Workspace.locateTest_alike h]

/-- **The summary** is the same. -/
theorem build_alike (now : String) (reports : ReportSet) :
    build { w with files := tree' } now reports = build w now reports := by
  have hsuite : ∀ suite, describeSuite { w with files := tree' } suite = describeSuite w suite := by
    intro suite
    rw [describeSuite, describeSuite,
      Logged.forEach_congr fun failure _ => describe_alike h failure]
  rw [build, build, Logged.tryEach_congr fun suite _ => hsuite suite]

end ErrorSummary

end FailureTriage
