import FailureTriage.Proofs.Files.Listing
import FailureTriage.Proofs.Files.Siblings
import FailureTriage.Proofs.Paths.Order
import FailureTriage.Proofs.Text.Replacing
import FailureTriage.Suite.Directory

/-!
# The reports of a directory by their names

The reports of a directory are listed by their paths.  These are made from the path of the
directory, so the names of the files say the same, in the same order.

* `reportNames`, `reportFiles_eq`: the names, and the paths made from them.
* `sortNames_concat`: where one more name goes.
* `suiteLogPath?_join`, `isReportName_suiteLogName`: the log of a report lies next to it and is no
  report.
-/

namespace FailureTriage

/-- Names in increasing order. -/
def sortNames (names : List String) : List String :=
  names.mergeSort fun s t => decide (s ≤ t)

/-- The file names of the reports directly in a directory, in increasing order. -/
def reportNames (files : FileTree) (dir : Path) : List String :=
  match files.list dir with
  | .ok names =>
    sortNames (names.filter fun name => isReportName name && files.isFile (dir.join ⟨name⟩))
  | .error _ => []

/-! ## Sorted names -/

theorem pairwise_sortNames (names : List String) : (sortNames names).Pairwise (· ≤ ·) := by
  have htotal : ∀ s t : String, (decide (s ≤ t) || decide (t ≤ s)) = true := fun s t => by
    rw [Bool.or_eq_true, decide_eq_true_iff, decide_eq_true_iff]
    exact String.le_total s t
  have htrans : ∀ s t u : String, decide (s ≤ t) = true → decide (t ≤ u) = true →
      decide (s ≤ u) = true := fun s t u hst htu =>
    decide_eq_true (String.le_trans (of_decide_eq_true hst) (of_decide_eq_true htu))
  have hsorted := List.pairwise_mergeSort htrans htotal names
  exact hsorted.imp of_decide_eq_true

/-- **One more name** is put between the others. -/
theorem sortNames_concat (names : List String) (name : String) :
    ∃ before after, sortNames (names ++ [name]) = before ++ name :: after
      ∧ sortNames names = before ++ after := by
  have hall := List.mergeSort_perm (names ++ [name]) fun s t => decide (s ≤ t)
  obtain ⟨before, after, hsplit⟩ := List.append_of_mem
    (hall.mem_iff.mpr (List.mem_append_right names List.mem_cons_self))
  refine ⟨before, after, hsplit, ?_⟩
  have hsorted := pairwise_sortNames (names ++ [name])
  rw [sortNames, hsplit] at hsorted
  rw [hsplit] at hall
  have hperm : (sortNames names).Perm (before ++ after) := by
    have hcons : (name :: (before ++ after)).Perm (name :: names) :=
      (List.perm_middle.symm.trans hall).trans (List.perm_append_singleton name names)
    exact (List.mergeSort_perm names _).trans hcons.cons_inv.symm
  refine hperm.eq_of_pairwise (fun s t _ _ => String.le_antisymm) (pairwise_sortNames names) ?_
  exact hsorted.sublist (List.Sublist.append_left (List.sublist_cons_self name after) before)

variable {files : FileTree} {dir : Path} {place : Location} {name : String}

/-! ## Names and paths -/

/-- A path that leads somewhere has characters. -/
theorem FileTree.isEmpty_of_find? {found : Location × FileEntry}
    (h : files.find? dir = some found) : dir.isEmpty = false :=
  (find?_eq_some_iff.mp h).1.nonempty

/-- Whether the entries of a directory have names that a path can say. -/
def FileTree.ProperAt (files : FileTree) (place : Location) : Prop :=
  ∀ name ∈ files.namesAt place, IsEntryName name

theorem FileTree.Proper.properAt (h : files.Proper) (place : Location) : files.ProperAt place := by
  intro name hname
  obtain ⟨entry, hmem⟩ := mem_namesAt.mp hname
  exact h _ hmem name (by simp)

/-- The names of the reports of a directory are names in it. -/
theorem reportNames_eq (hdir : files.find? dir = some (place, .directory)) :
    reportNames files dir = sortNames ((files.namesAt place).filter fun name =>
      isReportName name && files.isFile (dir.join ⟨name⟩)) := by
  rw [reportNames, FileTree.list_eq_ok.mpr ⟨place, hdir, rfl⟩]

theorem mem_reportNames (hdir : files.find? dir = some (place, .directory)) :
    name ∈ reportNames files dir
      ↔ name ∈ files.namesAt place ∧ isReportName name = true
        ∧ files.isFile (dir.join ⟨name⟩) = true := by
  rw [reportNames_eq hdir, sortNames, List.mem_mergeSort, List.mem_filter, Bool.and_eq_true]

/-- A directory with reports is there. -/
theorem exists_of_reportNames (h : reportNames files dir ≠ []) :
    ∃ place, files.find? dir = some (place, .directory) := by
  rw [reportNames] at h
  split at h
  · rename_i hlist
    obtain ⟨place, hdir, -⟩ := FileTree.list_eq_ok.mp hlist
    exact ⟨place, hdir⟩
  · exact absurd rfl h

/-- **The reports of a directory** are listed in the order of their names. -/
theorem reportFiles_eq (hdir : files.find? dir = some (place, .directory))
    (hproper : files.ProperAt place) :
    reportFiles files dir = .ok ((reportNames files dir).map fun name => dir.join ⟨name⟩) := by
  have hfull := FileTree.isEmpty_of_find? hdir
  have hcomponents : ∀ name ∈ files.namesAt place,
      (dir.join ⟨name⟩).components = dir.components ++ [.name name] :=
    fun name hname => Path.components_join_name hfull (hproper name hname)
  have hfilter : ((files.namesAt place).map fun name => dir.join ⟨name⟩).filter
        (fun path => files.isFile path && (path.fileName?.map isReportName).getD false)
      = ((files.namesAt place).filter fun name =>
          isReportName name && files.isFile (dir.join ⟨name⟩)).map fun name => dir.join ⟨name⟩ := by
    rw [List.filter_map]
    refine congrArg _ (List.filter_congr fun name hname => ?_)
    rw [Function.comp_apply, Path.fileName?_join hfull (hproper name hname), Bool.and_comm]
    rfl
  rw [reportFiles, FileTree.list_eq_ok.mpr ⟨place, hdir, rfl⟩, reportNames_eq hdir]
  show Except.ok (FileTree.sortPaths _) = _
  rw [hfilter, FileTree.sortPaths, sortNames]
  refine congrArg Except.ok (List.map_mergeSort fun s hs t ht => ?_).symm
  rw [Bool.eq_iff_iff, decide_eq_true_iff, Path.atMost_iff_le
    (hcomponents s (List.mem_filter.mp hs).1) (hcomponents t (List.mem_filter.mp ht).1)]

/-! ## Logs -/

theorem toList_suiteLogName (name : String) :
    (suiteLogName name).toList = Text.replace ".xml".toList ".txt".toList
      (Text.replace "TEST-".toList [] name.toList) :=
  String.toList_ofList

/-- **The log of a report** lies next to it. -/
theorem suiteLogPath?_join (hdir : dir.isEmpty = false) (hname : FileTree.IsEntryName name) :
    suiteLogPath? (dir.join ⟨name⟩)
      = some ((dir.join ⟨name⟩).withFileName (suiteLogName name)) := by
  rw [suiteLogPath?, Path.fileName?_join hdir hname]
  rfl

/-- The name of a log has its own ending. -/
theorem suffix_suiteLogName (hreport : isReportName name = true) :
    ".txt".toList <:+ (suiteLogName name).toList := by
  obtain ⟨stem, hstem⟩ : ".xml".toList <:+ name.toList :=
    List.isSuffixOf_iff_suffix.mp (Bool.and_eq_true_iff.mp hreport).2
  -- the ending is not touched when the start is taken away, and then it is replaced
  have hall : (".xml".toList.all fun c => !"TEST-".toList.contains c) = true := by decide
  have hapart : ∀ c ∈ ".xml".toList, c ∉ "TEST-".toList := fun c hc => by
    simpa using List.all_eq_true.mp hall c hc
  have hplain := @Text.replace_append_of_disjoint "TEST-".toList ".xml".toList (by decide) hapart
    [] stem
  have hdot : '.' ∉ "xml".toList := by decide
  refine ⟨Text.replace ".xml".toList ".txt".toList (Text.replace "TEST-".toList [] stem), ?_⟩
  rw [toList_suiteLogName, ← hstem, hplain]
  exact (Text.replace_append_cons hdot ".txt".toList _ "xml".toList).symm

/-- The log of a report is no report. -/
theorem isReportName_suiteLogName (hreport : isReportName name = true) :
    isReportName (suiteLogName name) = false := by
  have hend := suffix_suiteLogName hreport
  rw [isReportName, Bool.and_eq_false_iff, ← Bool.not_eq_true, ← Bool.not_eq_true]
  refine Or.inr fun hxml => ?_
  rcases List.suffix_or_suffix_of_suffix hend (List.isSuffixOf_iff_suffix.mp hxml) with h | h
  · exact absurd h (by decide)
  · exact absurd h (by decide)

theorem isEntryName_suiteLogName (hname : FileTree.IsEntryName name)
    (hreport : isReportName name = true) : FileTree.IsEntryName (suiteLogName name) := by
  have hshort : ∀ other : String, ¬ ".txt".toList <:+ other.toList → suiteLogName name ≠ other := by
    rintro _ hother rfl
    exact hother (suffix_suiteLogName hreport)
  refine ⟨hshort _ (by decide), hshort _ (by decide), hshort _ (by decide), fun hmem => ?_⟩
  rw [toList_suiteLogName] at hmem
  rcases Text.mem_of_mem_replace (by decide) hmem with hmem | hmem
  · exact absurd hmem (by decide)
  rcases Text.mem_of_mem_replace (by decide) hmem with hmem | hmem
  · cases hmem
  · exact hname.2.2.2 hmem

end FailureTriage
