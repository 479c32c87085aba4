import FailureTriage.Proofs.Suite.Listing
import FailureTriage.Proofs.Text.Replacing

/-!
# The log of a suite by the name of the suite

A report is named after its suite, and the log of a suite is looked for under the name that is left
of the name of the report when `TEST-` is taken away and `.xml` is replaced, wherever they stand.
So it is looked for under the name of the suite only where neither stands in that name.

* `suiteLogName_report`: the name of the log, by the name of the suite.
* `Path.components_withFileName`: the path of another file of the same directory.
* `suiteLogPath?_reportPath`: which log is looked for, and which suites share one.
-/

namespace FailureTriage

/-! ## Paths to files of a directory -/

namespace Path

variable {dir : Path} {name other : String}

/-- A path that is seen from the empty one stays. -/
theorem join_of_isEmpty {first second : Path} (h : first.isEmpty = true) :
    first.join second = second := by
  rw [join, h, Bool.or_true, if_pos rfl]

/-- A name by itself is one component. -/
theorem located_name (hname : FileTree.IsEntryName name) :
    Path.located ⟨name⟩ = [(0, .name name)] := by
  have hpieces : Path.pieces ⟨name⟩ = [name.toList] := Text.splitOn_of_not_mem hname.2.2.2
  obtain ⟨c, text, htext⟩ := List.exists_cons_of_ne_nil fun h =>
    hname.1 (String.toList_eq_nil_iff.mp h)
  rw [located, ← pieces, hpieces, List.zipIdx_singleton, List.filterMap_cons]
  dsimp only
  rw [component?_name hname, htext]
  rfl

/-- The components of a path to an entry, also from the empty path. -/
theorem components_join_entry (dir : Path) (hname : FileTree.IsEntryName name) :
    (dir.join ⟨name⟩).components = dir.components ++ [.name name] := by
  cases hdir : dir.isEmpty with
  | false => exact components_join_name hdir hname
  | true =>
      obtain ⟨text⟩ := dir
      obtain rfl : text = "" := String.isEmpty_iff.mp hdir
      rw [join_of_isEmpty hdir, components, located_name hname]
      rfl

/-- What stands behind the first piece does not matter for it. -/
theorem leader_congr {rest rest' : List (List Char)} (hrest : rest ≠ []) (hrest' : rest' ≠ [])
    (piece : List Char) : leader piece rest = leader piece rest' := by
  simp only [leader, ne_eq, hrest, hrest', not_false_eq_true, and_true]

/-- **Another file of the same directory** has the path of the directory and its own name. -/
theorem components_withFileName (dir : Path) (hname : FileTree.IsEntryName name)
    (hother : FileTree.IsEntryName other) :
    ((dir.join ⟨name⟩).withFileName other).components = dir.components ++ [.name other] := by
  have hfileName : (dir.join ⟨name⟩).fileName? = some name := by
    rw [fileName?, components_join_entry dir hname, List.getLast?_concat]
  cases hdir : dir.isEmpty with
  | true =>
      have hparent : (dir.join ⟨name⟩).parent? = some ⟨""⟩ := by
        rw [join_of_isEmpty hdir, parent?, located_name hname]
        rfl
      obtain ⟨text⟩ := dir
      obtain rfl : text = "" := String.isEmpty_iff.mp hdir
      rw [withFileName, hfileName, hparent]
      exact components_join_entry _ hother
  | false =>
      obtain ⟨front, hne, -, hpath⟩ := pieces_join_name hdir hname.2.2.2
      obtain ⟨first, more, rfl⟩ := List.exists_cons_of_ne_nil hne
      obtain ⟨kept, skipped, parent, rfl, hskipped, hparent, hjoined⟩ := exists_parent hpath hname
      rw [List.cons_append] at hpath
      -- the directory spells what both paths start with
      have hbefore := components_join_entry dir hname
      rw [components_of_pieces hpath, List.filterMap_append, List.filterMap_append,
        List.filterMap_eq_nil_iff.mpr hskipped, List.append_nil,
        List.filterMap_cons_some (component?_name hname 1), List.filterMap_nil,
        ← List.append_assoc] at hbefore
      have hleader : leader first (kept ++ [other.toList])
          = leader first (kept ++ skipped ++ [name.toList]) :=
        leader_congr (by simp) (by simp) first
      rw [withFileName, hfileName, hparent]
      dsimp only
      rw [components_of_pieces (hjoined other hother.2.2.2), List.filterMap_append,
        List.filterMap_cons_some (component?_name hother 1), List.filterMap_nil,
        ← List.append_assoc, hleader, List.append_cancel_right hbefore]

end Path

/-! ## Names -/

/-- The path of the report of a suite in a directory. -/
def reportPath (dir : Path) (suite : String) : Path :=
  dir.join ⟨"TEST-" ++ suite ++ ".xml"⟩

/-- The path of the log of a suite in a directory, if it is named after the suite. -/
def plainLogPath (dir : Path) (suite : String) : Path :=
  dir.join ⟨suite ++ ".txt"⟩

/-- Whether a name has no part in it that is taken for the start or the end of the name of a
    report. -/
def IsPlainName (suite : String) : Prop :=
  ¬ "TEST-".toList <:+: suite.toList ∧ ¬ ".xml".toList <:+: suite.toList

instance (suite : String) : Decidable (IsPlainName suite) :=
  inferInstanceAs (Decidable (_ ∧ _))

variable {suite other : String}

/-- **A plain name** is left as it is, and no other name is. -/
theorem suiteLogName_eq_self_iff : suiteLogName suite = suite ↔ IsPlainName suite := by
  have hstart : Text.replace "TEST-".toList [] suite.toList = suite.toList
      ↔ ¬ "TEST-".toList <:+: suite.toList :=
    Text.replace_eq_self_iff (by decide) (by decide) (by decide)
  have hend : ∀ text, Text.replace ".xml".toList ".txt".toList text = text
      ↔ ¬ ".xml".toList <:+: text := fun text =>
    Text.replace_eq_self_iff (by decide) (by decide) (by decide)
  rw [← String.toList_inj, toList_suiteLogName]
  refine ⟨fun h => ?_, fun h => by rw [hstart.mpr h.1, (hend _).mpr h.2]⟩
  -- a name that loses something stays shorter
  have hkept : ¬ "TEST-".toList <:+: suite.toList := by
    intro hoccurs
    have hshort := @Text.length_replace_lt "TEST-".toList [] suite.toList (by decide) hoccurs
    have hle := @Text.length_replace_le ".xml".toList ".txt".toList (by decide) (by decide)
      (Text.replace "TEST-".toList [] suite.toList)
    rw [h] at hle
    exact absurd hshort (Nat.not_lt.mpr hle)
  rw [hstart.mpr hkept] at h
  exact ⟨hkept, (hend _).mp h⟩

/-- The name of the log that is looked for. -/
theorem suiteLogName_report (suite : String) :
    suiteLogName ("TEST-" ++ suite ++ ".xml") = suiteLogName suite ++ ".txt" := by
  have hall : (".xml".toList.all fun c => !"TEST-".toList.contains c) = true := by decide
  have hapart : ∀ c ∈ ".xml".toList, c ∉ "TEST-".toList := fun c hc => by
    simpa using List.all_eq_true.mp hall c hc
  have hdot : '.' ∉ "xml".toList := by decide
  have hstart : Text.replace "TEST-".toList [] ("TEST-".toList ++ suite.toList)
      = Text.replace "TEST-".toList [] suite.toList :=
    Text.replace_fragment_append (by decide) [] suite.toList
  have hend := Text.replace_append_cons hdot ".txt".toList
    (Text.replace "TEST-".toList [] suite.toList) "xml".toList
  rw [← String.toList_inj, toList_suiteLogName, String.toList_append, String.toList_append,
    Text.replace_append_of_disjoint (by decide) hapart, hstart, String.toList_append,
    toList_suiteLogName]
  exact hend

/-- A text with an ending is the name of an entry. -/
theorem isEntryName_append {stem ending : String} (hstem : '/' ∉ stem.toList)
    (hending : '/' ∉ ending.toList) (hlong : 2 < ending.toList.length) :
    FileTree.IsEntryName (stem ++ ending) := by
  have hne : ∀ short : String, short.toList.length ≤ 2 → stem ++ ending ≠ short := by
    rintro _ hshort rfl
    rw [String.toList_append, List.length_append] at hshort
    omega
  refine ⟨hne _ (by decide), hne _ (by decide), hne _ (by decide), ?_⟩
  rw [String.toList_append, List.mem_append, not_or]
  exact ⟨hstem, hending⟩

theorem not_mem_suiteLogName (hsuite : '/' ∉ suite.toList) : '/' ∉ (suiteLogName suite).toList := by
  intro hmem
  rw [toList_suiteLogName] at hmem
  rcases Text.mem_of_mem_replace (by decide) hmem with hmem | hmem
  · exact absurd hmem (by decide)
  rcases Text.mem_of_mem_replace (by decide) hmem with hmem | hmem
  · cases hmem
  · exact hsuite hmem

theorem isEntryName_report (hsuite : '/' ∉ suite.toList) :
    FileTree.IsEntryName ("TEST-" ++ suite ++ ".xml") := by
  refine isEntryName_append ?_ (by decide) (by decide)
  rw [String.toList_append, List.mem_append, not_or]
  exact ⟨by decide, hsuite⟩

theorem isEntryName_log (hsuite : '/' ∉ suite.toList) :
    FileTree.IsEntryName (suiteLogName suite ++ ".txt") :=
  isEntryName_append (not_mem_suiteLogName hsuite) (by decide) (by decide)

/-! ## Logs -/

/-- An excerpt is made exactly of the file that the path of a log leads to. -/
theorem logExcerpt?_eq_some_iff {files : FileTree} {report log : Path} {limit : Nat}
    {excerpt : String} (hlog : suiteLogPath? report = some log) :
    logExcerpt? files report limit = some excerpt
      ↔ ∃ place content, files.find? log = some (place, .file content)
        ∧ excerpt = String.ofList (Text.excerpt limit (Utf8.decodeLossy content).toList) := by
  unfold logExcerpt?
  rw [hlog, Option.bind_eq_bind, Option.bind_some]
  cases hfile : files.isFile log with
  | false =>
      refine iff_of_false nofun ?_
      rintro ⟨place, content, hfound, -⟩
      rw [FileTree.isFile_iff.mpr ⟨place, content, hfound⟩] at hfile
      cases hfile
  | true =>
      obtain ⟨place, content, hfound⟩ := FileTree.isFile_iff.mp hfile
      rw [FileTree.read_of_find? hfound]
      refine ⟨fun h => ⟨place, content, hfound, (Option.some.inj h).symm⟩, ?_⟩
      rintro ⟨place', content', hfound', rfl⟩
      rw [hfound] at hfound'
      obtain ⟨-, hcontent⟩ := Prod.mk.inj (Option.some.inj hfound')
      rw [FileEntry.file.inj hcontent]
      rfl

/-- **The log of a suite**: the path that the name of its report gives lies in the directory of the
    report. -/
theorem exists_suiteLogPath? (dir : Path) (hsuite : '/' ∉ suite.toList) :
    ∃ log, suiteLogPath? (reportPath dir suite) = some log
      ∧ log = (reportPath dir suite).withFileName (suiteLogName suite ++ ".txt")
      ∧ log.components = dir.components ++ [.name (suiteLogName suite ++ ".txt")] := by
  have hreport := isEntryName_report hsuite
  have hfileName : (reportPath dir suite).fileName? = some ("TEST-" ++ suite ++ ".xml") := by
    rw [reportPath, Path.fileName?, Path.components_join_entry dir hreport, List.getLast?_concat]
  refine ⟨_, ?_, rfl, Path.components_withFileName dir hreport (isEntryName_log hsuite)⟩
  rw [suiteLogPath?, hfileName, ← suiteLogName_report]
  rfl

/-- **Which log is looked for.**  For a report `TEST-s.xml` it lies in the directory of the report,
    and it is `s.txt` exactly if neither `TEST-` nor `.xml` stands in `s`.  Two reports look for one
    log exactly if they lie in one directory and the same is left of the names of their suites,
    which never happens to two different plain names.  An excerpt is read of that log of the
    directory of the report, or through a link of its name. -/
theorem suiteLogPath?_reportPath (dir : Path) (hsuite : '/' ∉ suite.toList) :
    ∃ log, suiteLogPath? (reportPath dir suite) = some log
      ∧ log.components = (plainLogPath dir (suiteLogName suite)).components
      ∧ (log.components = (plainLogPath dir suite).components ↔ IsPlainName suite)
      ∧ (∀ (otherDir : Path) (other : String), '/' ∉ other.toList →
        ∃ otherLog, suiteLogPath? (reportPath otherDir other) = some otherLog
          ∧ (otherLog.components = log.components
            ↔ otherDir.components = dir.components ∧ suiteLogName other = suiteLogName suite)
          ∧ (IsPlainName suite → IsPlainName other →
            otherLog.components = log.components → other = suite))
      ∧ ∀ (files : FileTree) (place : Location) (limit : Nat) (excerpt : String),
        files.find? dir = some (place, .directory) →
        (logExcerpt? files (reportPath dir suite) limit = some excerpt
          ↔ ∃ found content, files.find? log = some (found, .file content)
            ∧ (found = place ++ [suiteLogName suite ++ ".txt"]
              ∨ files.LinkLeadsTo place (suiteLogName suite ++ ".txt") found)
            ∧ excerpt
              = String.ofList (Text.excerpt limit (Utf8.decodeLossy content).toList)) := by
  obtain ⟨log, hlog, hpath, hcomponents⟩ := exists_suiteLogPath? dir hsuite
  have hplain : ∀ {stem : String}, '/' ∉ stem.toList →
      (plainLogPath dir stem).components = dir.components ++ [.name (stem ++ ".txt")] :=
    fun hstem => Path.components_join_entry dir (isEntryName_append hstem (by decide) (by decide))
  have hname : ∀ {before before' : List PathComponent} {stem stem' : String},
      before ++ [.name (stem ++ ".txt")] = before' ++ [.name (stem' ++ ".txt")]
        ↔ before = before' ∧ stem = stem' := by
    intro before before' stem stem'
    refine ⟨fun h => ?_, by rintro ⟨rfl, rfl⟩; rfl⟩
    obtain ⟨hbefore, hlast⟩ := List.append_inj' h rfl
    refine ⟨hbefore, String.toList_inj.mp ?_⟩
    have htext := congrArg String.toList (PathComponent.name.inj (List.head_eq_of_cons_eq hlast))
    rw [String.toList_append, String.toList_append] at htext
    exact List.append_cancel_right htext
  refine ⟨log, hlog, ?_, ?_, fun otherDir other hother => ?_,
    fun files place limit excerpt hdir => ?_⟩
  · rw [hcomponents, hplain (not_mem_suiteLogName hsuite)]
  · rw [hcomponents, hplain hsuite, hname, and_iff_right rfl, suiteLogName_eq_self_iff]
  · obtain ⟨otherLog, hotherLog, -, hotherComponents⟩ := exists_suiteLogPath? otherDir hother
    have hshared : otherLog.components = log.components
        ↔ otherDir.components = dir.components ∧ suiteLogName other = suiteLogName suite := by
      rw [hotherComponents, hcomponents, hname]
    refine ⟨otherLog, hotherLog, hshared, fun hsuitePlain hotherPlain h => ?_⟩
    rw [← suiteLogName_eq_self_iff.mpr hsuitePlain, ← suiteLogName_eq_self_iff.mpr hotherPlain]
    exact (hshared.mp h).2
  · rw [logExcerpt?_eq_some_iff hlog]
    refine exists_congr fun found => exists_congr fun content => and_congr_right fun hfound => ?_
    have hinto := FileTree.goesInto_withFileName (FileTree.isEmpty_of_find? hdir)
      (isEntryName_report hsuite) (isEntryName_log hsuite)
    rw [← reportPath, ← hpath] at hinto
    exact (and_iff_right (FileTree.place_of_into hinto hdir hfound)).symm

/-- A directory with the logs of two suites. -/
def reportsWithLogs : FileTree where
  entries := [
    (["reports"], .directory),
    (["reports", "com.bank.AccountTest.txt"], .file "Tests run: 2".toUTF8),
    (["reports", "com.bank.txt.ParserTest.txt"], .file "Tests run: 7".toUTF8)]

/-- The log of a suite whose name is plain is its own. -/
theorem suiteLogPath?_plain :
    '/' ∉ "com.bank.AccountTest".toList ∧ IsPlainName "com.bank.AccountTest"
    ∧ suiteLogName "com.bank.txt.ParserTest" ≠ suiteLogName "com.bank.AccountTest"
    ∧ ∃ log, suiteLogPath? (reportPath ⟨"reports"⟩ "com.bank.AccountTest") = some log
      ∧ log.components = (plainLogPath ⟨"reports"⟩ "com.bank.AccountTest").components
      ∧ (∃ otherLog,
        suiteLogPath? (reportPath ⟨"reports"⟩ "com.bank.txt.ParserTest") = some otherLog
          ∧ otherLog.components ≠ log.components)
      ∧ logExcerpt? reportsWithLogs (reportPath ⟨"reports"⟩ "com.bank.AccountTest") suiteLogLimit
        = some "Tests run: 2" := by
  have hsuite : '/' ∉ "com.bank.AccountTest".toList := by decide
  have hplain : IsPlainName "com.bank.AccountTest" := by decide
  have hstems : suiteLogName "com.bank.txt.ParserTest" ≠ suiteLogName "com.bank.AccountTest" := by
    decide +kernel
  obtain ⟨log, hlog, -, hown, hothers, hexcerpt⟩ := suiteLogPath?_reportPath ⟨"reports"⟩ hsuite
  obtain ⟨otherLog, hotherLog, hshared, -⟩ :=
    hothers ⟨"reports"⟩ "com.bank.txt.ParserTest" (by decide)
  have hpath : suiteLogPath? (reportPath ⟨"reports"⟩ "com.bank.AccountTest")
      = some ⟨"reports/com.bank.AccountTest.txt"⟩ := by decide +kernel
  obtain rfl : log = ⟨"reports/com.bank.AccountTest.txt"⟩ := Option.some.inj (hlog.symm.trans hpath)
  refine ⟨hsuite, hplain, hstems, _, hlog, hown.mpr hplain,
    ⟨otherLog, hotherLog, fun h => hstems (hshared.mp h).2⟩, ?_⟩
  refine (hexcerpt reportsWithLogs ["reports"] suiteLogLimit "Tests run: 2" rfl).mpr ?_
  exact ⟨["reports", "com.bank.AccountTest.txt"], "Tests run: 2".toUTF8, rfl,
    Or.inl (by decide +kernel), by decide +kernel⟩

/-- A package `xml` in the name of a suite is renamed too: the suite is given the log of another
    one. -/
theorem suiteLogPath?_shared :
    suiteLogPath? (reportPath ⟨"reports"⟩ "com.bank.xml.ParserTest")
        = some ⟨"reports/com.bank.txt.ParserTest.txt"⟩
    ∧ Path.components ⟨"reports/com.bank.txt.ParserTest.txt"⟩
        ≠ (plainLogPath ⟨"reports"⟩ "com.bank.xml.ParserTest").components
    ∧ suiteLogPath? (reportPath ⟨"reports"⟩ "com.bank.txt.ParserTest")
        = some ⟨"reports/com.bank.txt.ParserTest.txt"⟩
    ∧ logExcerpt? reportsWithLogs (reportPath ⟨"reports"⟩ "com.bank.xml.ParserTest") suiteLogLimit
        = some "Tests run: 7" := by
  decide +kernel

end FailureTriage
