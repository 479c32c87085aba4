import FailureTriage.Proofs.Suite.Listing
import FailureTriage.Proofs.Suite.Loading

/-!
# A report that is rejected

A directory gives the suites of the reports that are accepted, in the order of their file names,
and a warning for each of the others, as long as the counts of these suites can be added up.  One
more report that is rejected adds its warning and changes nothing else, unless it is read in the
place of a file that was missing: a link in the directory may lead to it, under the name of a report
or of the log of one.

* `acceptedSuites?`: the suites of a report, if it is accepted.
* `ReportSet.Gathered`: what is loaded from a directory.
* `ReportSet.load_eq_overflow_iff`: when nothing is loaded from a directory with reports.
* `FileTree.AddsReport`: one more report in a directory.
* `ReportSet.load_isolated`: a report that is rejected does not touch the others.
-/

namespace FailureTriage

variable {files added : FileTree} {dir report : Path} {place : Location} {name : String}

/-! ## One report -/

/-- The suites of a report whose bytes are a text that is accepted, each with the properties that
    say something and the excerpt of the log of the report. -/
def acceptedSuites? (files : FileTree) (report : Path) : Option (List TestSuite) := do
  let content ← (files.read report).toOption
  let document ← String.fromUTF8? content
  let suites ← (parseReport report document).toOption
  return suites.map fun suite =>
    { suite with
      properties := TestSuite.keepRelevant suite.properties
      logExcerpt := logExcerpt? files report suiteLogLimit }

/-- **The suites of a report** are read exactly if the report is accepted. -/
theorem readReport_eq_ok_iff_accepted {suites : List TestSuite} :
    readReport files report = .ok suites ↔ acceptedSuites? files report = some suites := by
  simp only [readReport_eq_ok_iff, acceptedSuites?, Option.bind_eq_bind, Option.bind_eq_some_iff,
    toOption_eq_some_iff, Option.pure_def, Option.some.injEq, @eq_comm _ _ suites]
  rfl

theorem acceptedSuites?_eq (files : FileTree) (report : Path) :
    acceptedSuites? files report = (readReport files report).toOption := by
  refine Option.ext fun suites => ?_
  rw [← readReport_eq_ok_iff_accepted, toOption_eq_some_iff]

/-- The excerpt of a log depends on what the path of the log leads to. -/
theorem logExcerpt?_congr (limit : Nat)
    (hlog : ∀ log, suiteLogPath? report = some log → added.find? log = files.find? log) :
    logExcerpt? added report limit = logExcerpt? files report limit := by
  unfold logExcerpt?
  cases hpath : suiteLogPath? report with
  | none => simp only [Option.bind_eq_bind, Option.bind_none]
  | some log =>
      have hfind := hlog log hpath
      simp only [Option.bind_eq_bind, Option.bind_some, FileTree.isFile_congr hfind]
      cases hfile : files.isFile log with
      | false => simp only [Bool.not_false, if_true, Option.bind_none]
      | true => simp only [FileTree.read_congr hfind hfile]

/-- **What is read of a report** depends on what its path leads to, and so does the path of its log
    if the report is accepted. -/
theorem readReport_congr (hfile : files.isFile report = true)
    (hreport : added.find? report = files.find? report)
    (hlog : acceptedSuites? files report ≠ none →
      ∀ log, suiteLogPath? report = some log → added.find? log = files.find? log) :
    readReport added report = readReport files report := by
  have hread := FileTree.read_congr hreport hfile
  obtain ⟨place, content, hfound⟩ := FileTree.isFile_iff.mp hfile
  have hcontent := FileTree.read_of_find? hfound
  rw [readReport_of_read hcontent, readReport_of_read (hread.trans hcontent)]
  cases hbytes : suitesOfBytes report content with
  | error fault => simp only [Except.map]
  | ok suites =>
      have haccepted : acceptedSuites? files report ≠ none := by
        rw [acceptedSuites?_eq, readReport_of_read hcontent, hbytes]
        exact Option.some_ne_none _
      rw [logExcerpt?_congr suiteLogLimit (hlog haccepted)]

/-! ## A directory -/

namespace ReportSet

/-- The messages about something that is left out. -/
def warnings (loaded : Logged (Except TriageFault ReportSet)) : List Message :=
  loaded.messages.filter fun message => message.level = .warning

/-- The names of the reports that are not accepted. -/
def rejectedNames (files : FileTree) (dir : Path) : List String :=
  (reportNames files dir).filter fun name => (acceptedSuites? files (dir.join ⟨name⟩)).isNone

/-- The suites of the reports that are accepted, in the order of the file names. -/
def acceptedIn (files : FileTree) (dir : Path) : List TestSuite :=
  (reportNames files dir).flatMap fun name => (acceptedSuites? files (dir.join ⟨name⟩)).getD []

/-- What a report gives to the suites of its directory. -/
theorem value_suitesOrWarning (files : FileTree) (report : Path) :
    (suitesOrWarning files report).value = (acceptedSuites? files report).getD [] := by
  rw [suitesOrWarning_eq, acceptedSuites?_eq]
  cases readReport files report <;> rfl

/-- The text of the warning about a report, if there is one. -/
def warningText (files : FileTree) (report : Path) : String :=
  match readReport files report with
  | .ok _ => ""
  | .error fault => rejection report fault

/-- What a report gives to the messages about its directory. -/
theorem messages_suitesOrWarning (files : FileTree) (report : Path) :
    (suitesOrWarning files report).messages
      = if (acceptedSuites? files report).isNone then [⟨.warning, warningText files report⟩]
        else [] := by
  rw [suitesOrWarning_eq, acceptedSuites?_eq, warningText]
  cases readReport files report <;> rfl

/-- A warning about a report names it. -/
theorem infix_warningText (h : acceptedSuites? files report = none) :
    report.text.toList <:+: (warningText files report).toList := by
  rw [acceptedSuites?_eq] at h
  rw [warningText]
  cases hread : readReport files report with
  | ok suites =>
      rw [hread] at h
      cases h
  | error fault => exact infix_rejection hread

/-- What is loaded from a directory that has reports. -/
structure Gathered (files : FileTree) (dir : Path) (set : ReportSet) (warned : List Message) :
    Prop where
  /-- Every report can be read: whether it is accepted depends on its bytes. -/
  readable : ∀ name ∈ reportNames files dir, ∃ content,
    files.read (dir.join ⟨name⟩) = .ok content
  /-- The suites are those of the reports that are accepted, in the order of the file names. -/
  suites : set.suites = (reportNames files dir).flatMap fun name =>
    (acceptedSuites? files (dir.join ⟨name⟩)).getD []
  totalTests : set.totalTests.toNat = (set.suites.map fun suite => suite.tests.toNat).sum
  totalFailures : set.totalFailures.toNat
    = (set.suites.map fun suite => suite.failures.toNat).sum
  totalErrors : set.totalErrors.toNat = (set.suites.map fun suite => suite.errors.toNat).sum
  totalSkipped : set.totalSkipped.toNat = (set.suites.map fun suite => suite.skipped.toNat).sum
  /-- There is one warning for each of the other reports, and no other. -/
  oneWarning : warned = (rejectedNames files dir).map fun name =>
    ⟨.warning, warningText files (dir.join ⟨name⟩)⟩
  /-- A warning names its report. -/
  named : ∀ name ∈ rejectedNames files dir,
    (dir.join ⟨name⟩).text.toList <:+: (warningText files (dir.join ⟨name⟩)).toList

/-- The warnings about reports are those about the reports that are not accepted. -/
theorem flatMap_messages (names : List String) :
    (names.flatMap fun name => (suitesOrWarning files (dir.join ⟨name⟩)).messages)
      = (names.filter fun name => (acceptedSuites? files (dir.join ⟨name⟩)).isNone).map fun name =>
          ⟨.warning, warningText files (dir.join ⟨name⟩)⟩ := by
  induction names with
  | nil => rfl
  | cons name names ih =>
      rw [List.flatMap_cons, ih, messages_suitesOrWarning, List.filter_cons]
      split
      · rfl
      · rfl

/-- What a directory gives, report by report. -/
theorem load_names (hdir : files.find? dir = some (place, .directory))
    (hproper : files.ProperAt place) (hsome : reportNames files dir ≠ []) :
    (load files dir).value = ({ reportsDir := dir } : ReportSet).pushAll (acceptedIn files dir)
      ∧ (∀ set, (load files dir).value = .ok set →
        warnings (load files dir) = (reportNames files dir).flatMap fun name =>
          (suitesOrWarning files (dir.join ⟨name⟩)).messages) := by
  have hdirectory : files.isDirectory dir = true := by rw [FileTree.isDirectory, hdir]
  obtain ⟨hvalue, hmessages⟩ :=
    load_eq hdirectory (reportFiles_eq hdir hproper) (by simpa using hsome)
  constructor
  · rw [hvalue, ofReports, List.flatMap_map, acceptedIn]
    simp only [value_suitesOrWarning]
  · intro set hset
    rw [warnings, hmessages set (hvalue ▸ hset), List.flatMap_map, List.filter_cons,
      flatMap_messages]
    -- the first message says how many reports there are; the others are warnings
    rw [if_neg (by simp), List.filter_eq_self]
    intro message hmessage
    obtain ⟨name, -, rfl⟩ := List.mem_map.mp hmessage
    rfl

/-- **A directory with reports** gives nothing exactly if the counts of its suites cannot be added
    up. -/
theorem load_eq_overflow_iff (hproper : files.Proper) (hsome : reportNames files dir ≠ []) :
    (load files dir).value = .error .overflow ↔ ¬ CountsFit (acceptedIn files dir) := by
  obtain ⟨place, hdir⟩ := exists_of_reportNames hsome
  rw [(load_names hdir (hproper.properAt place) hsome).1, (totalled_nil dir).pushAll_eq_error_iff,
    and_iff_right rfl]
  exact Iff.rfl

/-- **A directory with reports** is loaded otherwise, and what is loaded is what its reports
    give. -/
theorem exists_gathered (hproper : files.Proper) (hsome : reportNames files dir ≠ [])
    (hfit : CountsFit (acceptedIn files dir)) :
    ∃ set, (load files dir).value = .ok set
      ∧ Gathered files dir set (warnings (load files dir)) := by
  obtain ⟨place, hdir⟩ := exists_of_reportNames hsome
  obtain ⟨hvalue, hwarned⟩ := load_names hdir (hproper.properAt place) hsome
  obtain ⟨set, hset⟩ := (totalled_nil dir).exists_pushAll hfit
  have htotalled := (totalled_nil dir).pushAll hset
  exact ⟨set, hvalue.trans hset, {
    readable := fun name hname => by
      obtain ⟨found, content, hfound⟩ :=
        FileTree.isFile_iff.mp ((mem_reportNames hdir).mp hname).2.2
      exact ⟨content, FileTree.read_of_find? hfound⟩
    suites := suites_pushAll hset
    totalTests := htotalled.tests
    totalFailures := htotalled.failures
    totalErrors := htotalled.errors
    totalSkipped := htotalled.skipped
    oneWarning := by rw [hwarned set (hvalue.trans hset), flatMap_messages, rejectedNames]
    named := fun name hname =>
      infix_warningText (Option.isNone_iff_eq_none.mp (List.mem_filter.mp hname).2) }⟩

end ReportSet

/-! ## One more report -/

/-- A tree that is another one with one more report in a directory. -/
structure FileTree.AddsReport (files added : FileTree) (dir : Path) (place : Location)
    (name : String) : Prop where
  folder : files.find? dir = some (place, .directory)
  /-- Nothing was there before. -/
  vacant : files.entryAt? (place ++ [name]) = none
  put : ∃ content, added = files.put (place ++ [name]) (.file content)
  entryName : FileTree.IsEntryName name
  reportName : isReportName name = true
  /-- The path to the report is short enough to lead to it. -/
  isFile : added.isFile (dir.join ⟨name⟩) = true

/-- Whether a file that is added to a directory is read there under another name: a link leads to
    it that has the name of a report, or of the log of a report that is accepted. -/
def ReadThroughLink (files added : FileTree) (dir : Path) (place : Location) (name : String) :
    Prop :=
  ∃ link, added.LinkLeadsTo place link (place ++ [name])
    ∧ (isReportName link = true ∨ ∃ report ∈ reportNames files dir,
        acceptedSuites? files (dir.join ⟨report⟩) ≠ none ∧ link = suiteLogName report)

namespace FileTree.AddsReport

variable (h : files.AddsReport added dir place name)
include h

theorem notEmpty : dir.isEmpty = false :=
  isEmpty_of_find? h.folder

/-- The directory is where it was. -/
theorem folder_added : added.find? dir = some (place, .directory) := by
  obtain ⟨content, rfl⟩ := h.put
  exact find?_of_keeps (keeps_put h.vacant _) h.folder

theorem namesAt_eq : added.namesAt place = files.namesAt place ++ [name] := by
  obtain ⟨content, rfl⟩ := h.put
  exact namesAt_put h.vacant _

theorem properAt (hproper : files.ProperAt place) : added.ProperAt place := by
  rw [ProperAt, h.namesAt_eq]
  exact List.forall_mem_append.mpr ⟨hproper, by simpa using h.entryName⟩

/-- A path to another entry of the directory leads where it led, if that is no link to the new
    report. -/
theorem find?_eq {path : Path} {other : String} (hinto : GoesInto path dir other)
    (hother : other ≠ name) (hlink : ¬ added.LinkLeadsTo place other (place ++ [name])) :
    added.find? path = files.find? path := by
  have hfolder := h.folder_added
  obtain ⟨content, rfl⟩ := h.put
  refine find?_put h.vacant fun hlocated => hlink ?_
  obtain ⟨⟨found, entry⟩, hfound, rfl⟩ := Option.map_eq_some_iff.mp hlocated
  exact linkLeadsTo_of_into hinto hfolder hfound hother

/-- Another name in the directory. -/
theorem ne_of_mem {other : String} (hother : other ∈ files.namesAt place) : other ≠ name := by
  rintro rfl
  exact not_mem_namesAt h.vacant hother

/-- **The new report** is one more among the reports. -/
theorem exists_reportNames (hproper : files.ProperAt place)
    (hlinks : ¬ ReadThroughLink files added dir place name) :
    ∃ before after, reportNames added dir = before ++ name :: after
      ∧ reportNames files dir = before ++ after := by
  have hfilter : (files.namesAt place).filter (fun other =>
        isReportName other && added.isFile (dir.join ⟨other⟩))
      = (files.namesAt place).filter fun other =>
        isReportName other && files.isFile (dir.join ⟨other⟩) := by
    refine List.filter_congr fun other hother => ?_
    by_cases hreport : isReportName other = true
    · have hsame := h.find?_eq (goesInto_join h.notEmpty (hproper other hother))
        (h.ne_of_mem hother) fun hlink => hlinks ⟨other, hlink, Or.inl hreport⟩
      simp only [isFile_congr hsame]
    · rw [Bool.not_eq_true] at hreport
      simp only [hreport, Bool.false_and]
  have hnew : [name].filter (fun other => isReportName other && added.isFile (dir.join ⟨other⟩))
      = [name] := by
    simp only [List.filter_cons, h.reportName, h.isFile, Bool.and_self, if_true, List.filter_nil]
  rw [reportNames_eq h.folder_added, reportNames_eq h.folder,
    h.namesAt_eq, List.filter_append, hfilter, hnew]
  exact sortNames_concat _ name

/-- **Another report** gives what it gave. -/
theorem readReport_eq (hproper : files.ProperAt place)
    (hlinks : ¬ ReadThroughLink files added dir place name) {other : String}
    (hother : other ∈ reportNames files dir) :
    readReport added (dir.join ⟨other⟩) = readReport files (dir.join ⟨other⟩) := by
  obtain ⟨hmem, hreport, hfile⟩ := (mem_reportNames h.folder).mp hother
  have hname := hproper other hmem
  refine readReport_congr hfile ?_ fun haccepted log hlog => ?_
  · exact h.find?_eq (goesInto_join h.notEmpty hname) (h.ne_of_mem hmem)
      fun hlink => hlinks ⟨other, hlink, Or.inl hreport⟩
  · rw [suiteLogPath?_join h.notEmpty hname] at hlog
    obtain rfl := Option.some.inj hlog
    refine h.find?_eq (goesInto_withFileName h.notEmpty hname
      (isEntryName_suiteLogName hname hreport)) ?_
      fun hlink => hlinks ⟨_, hlink, Or.inr ⟨other, hother, haccepted, rfl⟩⟩
    -- the new file is a report, and a log is none
    rintro rfl
    have hlogName := isReportName_suiteLogName hreport
    rw [h.reportName] at hlogName
    cases hlogName

end FileTree.AddsReport

/-! ## The others -/

/-- What the items of a list give, of which one is put between others. -/
private theorem flatMap_insert {α β : Type} {f g : α → List β} {before after : List α} {a : α}
    (h : ∀ x ∈ before ++ after, f x = g x) :
    (before ++ a :: after).flatMap f = before.flatMap g ++ f a ++ after.flatMap g := by
  rw [List.flatMap_append, List.flatMap_cons, List.append_assoc,
    List.flatMap_congr fun x hx => h x (List.mem_append_left after hx),
    List.flatMap_congr fun x hx => h x (List.mem_append_right before hx)]

/-- **A report that is rejected** does not touch the others: a directory with reports is loaded if
    the counts can be added up, with the suites of the reports that are accepted, their totals, and
    a warning for each of the others; and one more report that is rejected adds its warning and
    nothing else, unless a link in the directory leads to it in the place of a report or of a
    log. -/
theorem ReportSet.load_isolated (hproper : files.Proper) (hsome : reportNames files dir ≠ [])
    (hfit : CountsFit (acceptedIn files dir)) :
    (∃ set, (load files dir).value = .ok set
      ∧ Gathered files dir set (warnings (load files dir)))
    ∧ ∀ (added : FileTree) (place : Location) (name : String),
        files.AddsReport added dir place name →
        acceptedSuites? added (dir.join ⟨name⟩) = none →
        ¬ ReadThroughLink files added dir place name →
        (load added dir).value = (load files dir).value
          ∧ ∃ before warning after, warnings (load files dir) = before ++ after
            ∧ warnings (load added dir) = before ++ warning :: after
            ∧ (dir.join ⟨name⟩).text.toList <:+: warning.text.toList := by
  obtain ⟨set, hset, hgathered⟩ := exists_gathered hproper hsome hfit
  refine ⟨⟨set, hset, hgathered⟩, fun added place name h hrejected hlinks => ?_⟩
  have hat := hproper.properAt place
  obtain ⟨before, after, hadded, hfiles⟩ := h.exists_reportNames hat hlinks
  obtain ⟨hvalue, hwarned⟩ := load_names h.folder hat hsome
  obtain ⟨hvalue', hwarned'⟩ := load_names h.folder_added (h.properAt hat) (by simp [hadded])
  have hsame : ∀ other ∈ before ++ after, suitesOrWarning added (dir.join ⟨other⟩)
      = suitesOrWarning files (dir.join ⟨other⟩) := by
    intro other hother
    rw [suitesOrWarning_eq, suitesOrWarning_eq, h.readReport_eq hat hlinks (hfiles ▸ hother)]
  have haccepted : acceptedIn added dir = acceptedIn files dir := by
    rw [acceptedIn, acceptedIn, hadded, hfiles, flatMap_insert fun other hother => ?_, hrejected,
      Option.getD_none, List.append_nil, ← List.flatMap_append]
    rw [← value_suitesOrWarning, ← value_suitesOrWarning, hsame other hother]
  have hunchanged : (load added dir).value = (load files dir).value := by
    rw [hvalue, hvalue', haccepted]
  have hwarning : (suitesOrWarning added (dir.join ⟨name⟩)).messages
      = [⟨.warning, warningText added (dir.join ⟨name⟩)⟩] := by
    rw [messages_suitesOrWarning, hrejected]
    rfl
  have hnew := hwarned' set (hunchanged.trans hset)
  have hold := hwarned set hset
  rw [hadded, flatMap_insert fun other hother => congrArg Logged.messages (hsame other hother),
    hwarning, List.append_assoc] at hnew
  rw [hfiles, List.flatMap_append] at hold
  exact ⟨hunchanged, _, _, _, hold, hnew, infix_warningText hrejected⟩

/-- The directory `reports` with a report that is accepted, and more. -/
def reportsWith (more : List (Location × FileEntry)) : FileTree where
  entries := [
    (["reports"], .directory),
    (["reports", "TEST-A.xml"], .file "<testsuite name=\"A\" tests=\"1\"/>".toUTF8)] ++ more

/-- A report that ends inside its second suite. -/
def partWay : List (Location × FileEntry) :=
  [(["reports", "TEST-B.xml"],
    .file "<testsuites><testsuite name=\"B\" tests=\"5\"/><testsuite".toUTF8)]

/-- Of a report that is rejected part-way not even the suite is taken that it had closed. -/
theorem ReportSet.load_isolated_partWay :
    acceptedSuites? (reportsWith partWay) (Path.join ⟨"reports"⟩ ⟨"TEST-B.xml"⟩) = none
    ∧ (load (reportsWith partWay) ⟨"reports"⟩).value = (load (reportsWith []) ⟨"reports"⟩).value
    ∧ (∃ set, (load (reportsWith []) ⟨"reports"⟩).value = .ok set
      ∧ Gathered (reportsWith []) ⟨"reports"⟩ set [])
    ∧ ∃ warning, warnings (load (reportsWith partWay) ⟨"reports"⟩) = [warning]
      ∧ (Path.join ⟨"reports"⟩ ⟨"TEST-B.xml"⟩).text.toList <:+: warning.text.toList := by
  have hproper : (reportsWith []).Proper := by decide +kernel
  have hnames : reportNames (reportsWith []) ⟨"reports"⟩ = ["TEST-A.xml"] := by decide +kernel
  have hrejected : acceptedSuites? (reportsWith partWay) (Path.join ⟨"reports"⟩ ⟨"TEST-B.xml"⟩)
      = none := by
    rw [← Option.isNone_iff_eq_none]
    decide +kernel
  have hadds : (reportsWith []).AddsReport (reportsWith partWay) ⟨"reports"⟩ ["reports"]
      "TEST-B.xml" :=
    { folder := rfl
      vacant := rfl
      put := ⟨_, rfl⟩
      entryName := by decide
      reportName := by decide
      isFile := by decide +kernel }
  have hlinks : ¬ ReadThroughLink (reportsWith []) (reportsWith partWay) ⟨"reports"⟩ ["reports"]
      "TEST-B.xml" := by
    rintro ⟨link, ⟨target, -, -, hentry, -⟩, -⟩
    rw [FileTree.entryAt?, if_neg (by simp), List.lookup_eq_some_iff] at hentry
    obtain ⟨before, after, hentries, -⟩ := hentry
    have hmem : (["reports"] ++ [link], FileEntry.link target) ∈ (reportsWith partWay).entries :=
      hentries ▸ List.mem_append_right before List.mem_cons_self
    simp [reportsWith, partWay] at hmem
  obtain ⟨⟨set, hset, hgathered⟩, hisolated⟩ :=
    load_isolated hproper (hnames ▸ List.cons_ne_nil _ _) (by decide +kernel)
  obtain ⟨hvalue, before, warning, after, hbefore, hafter, hnamed⟩ :=
    hisolated _ _ _ hadds hrejected hlinks
  have hnone : warnings (load (reportsWith []) ⟨"reports"⟩) = [] := by
    have hempty : rejectedNames (reportsWith []) ⟨"reports"⟩ = [] := by decide +kernel
    rw [hgathered.oneWarning, hempty]
    rfl
  rw [hnone] at hgathered hbefore
  obtain ⟨rfl, rfl⟩ := List.append_eq_nil_iff.mp hbefore.symm
  exact ⟨hrejected, hvalue, ⟨set, hset, hgathered⟩, warning, hafter, hnamed⟩

/-- A link in the place of a log, to a report that is missing. -/
def linked : FileTree :=
  reportsWith [(["reports", "A.txt"], .link ⟨"TEST-B.xml"⟩)]

/-- The tree with the report, which is rejected. -/
def linkedAdded : FileTree :=
  linked.put ["reports", "TEST-B.xml"] (.file "<testsuite".toUTF8)

private theorem linked_addsReport :
    linked.AddsReport linkedAdded ⟨"reports"⟩ ["reports"] "TEST-B.xml" where
  folder := rfl
  vacant := rfl
  put := ⟨_, rfl⟩
  entryName := by decide
  reportName := by decide
  isFile := by decide +kernel

/-- The excerpts of the logs of the suites of a directory, if those of the accepted reports are
    known. -/
private theorem map_logExcerpt_of_gathered {set : ReportSet} {warned : List Message}
    (h : ReportSet.Gathered files dir set warned) :
    set.suites.map (·.logExcerpt) = (reportNames files dir).flatMap fun name =>
      ((acceptedSuites? files (dir.join ⟨name⟩)).map (·.map (·.logExcerpt))).getD [] := by
  rw [h.suites, List.map_flatMap]
  refine List.flatMap_congr fun name _ => ?_
  cases acceptedSuites? files (dir.join ⟨name⟩) <;> rfl

/-- A report that is rejected is still read as the log of another one, through a link: it changes
    a suite. -/
theorem ReportSet.load_readThroughLink :
    ∃ before after,
      linked.Proper
      ∧ linked.AddsReport linkedAdded ⟨"reports"⟩ ["reports"] "TEST-B.xml"
      ∧ acceptedSuites? linkedAdded (Path.join ⟨"reports"⟩ ⟨"TEST-B.xml"⟩) = none
      ∧ (load linked ⟨"reports"⟩).value = .ok before
      ∧ (load linkedAdded ⟨"reports"⟩).value = .ok after
      ∧ before.suites.map (·.logExcerpt) = [none]
      ∧ after.suites.map (·.logExcerpt) = [some "<testsuite"] := by
  have hproper : linked.Proper := by decide +kernel
  have hproper' : linkedAdded.Proper := by decide +kernel
  have hnames : reportNames linked ⟨"reports"⟩ = ["TEST-A.xml"] := by decide +kernel
  have hnames' : reportNames linkedAdded ⟨"reports"⟩ = ["TEST-A.xml", "TEST-B.xml"] := by
    have hlisted : (linkedAdded.namesAt ["reports"]).filter (fun name =>
        isReportName name && linkedAdded.isFile (Path.join ⟨"reports"⟩ ⟨name⟩))
          = ["TEST-A.xml", "TEST-B.xml"] := by decide +kernel
    rw [reportNames_eq linked_addsReport.folder_added, hlisted, sortNames]
    exact List.mergeSort_of_pairwise (by decide +kernel)
  have hrejected : acceptedSuites? linkedAdded (Path.join ⟨"reports"⟩ ⟨"TEST-B.xml"⟩) = none := by
    rw [← Option.isNone_iff_eq_none]
    decide +kernel
  have hlog : (acceptedSuites? linked (Path.join ⟨"reports"⟩ ⟨"TEST-A.xml"⟩)).map
      (·.map (·.logExcerpt)) = some [none] := by decide +kernel
  have hlog' : (acceptedSuites? linkedAdded (Path.join ⟨"reports"⟩ ⟨"TEST-A.xml"⟩)).map
      (·.map (·.logExcerpt)) = some [some "<testsuite"] := by decide +kernel
  obtain ⟨before, hbefore, hgathered⟩ := exists_gathered hproper (hnames ▸ List.cons_ne_nil _ _)
    (by decide +kernel)
  obtain ⟨after, hafter, hgathered'⟩ := exists_gathered hproper' (hnames' ▸ List.cons_ne_nil _ _)
    (by rw [acceptedIn, hnames']; decide +kernel)
  refine ⟨before, after, hproper, linked_addsReport, hrejected, hbefore, hafter, ?_, ?_⟩
  · rw [map_logExcerpt_of_gathered hgathered, hnames, List.flatMap_singleton, hlog]
    rfl
  · rw [map_logExcerpt_of_gathered hgathered', hnames', List.flatMap_cons, List.flatMap_singleton,
      hlog', hrejected]
    rfl

end FailureTriage
