import FailureTriage.Proofs.Files.Listing
import FailureTriage.Proofs.Files.Overwriting
import FailureTriage.Proofs.Paths.Endings
import FailureTriage.Suite.Directory
import Mathlib.Data.List.Infix

/-!
# Names that nobody looks for

An analysis asks the files for reports, logs, sources and rules, each by the last name of a path,
and for directories.  Files of other names may lie anywhere.

* `documentNames`, `IsRead`: the names that an analysis writes, and those that it reads.
* `FileTree.AlikeFor`: two trees that it cannot tell apart; `FileTree.alikeFor_put_put`: the trees
  before and after its documents are put somewhere.
* `FileTree.AlikeFor.ruleBook`, `FileTree.AlikeFor.sourceFiles`, `FileTree.AlikeFor.filesIn`: what
  is left out, and what is found.
-/

namespace FailureTriage

/-- The names of the documents that an analysis writes. -/
def documentNames : List String := ["error-summary.json", "failure-context.json"]

/-- The names of the files that an analysis reads, by the extension of its sources. -/
inductive IsRead (extension : String) (name : String) : Prop where
  | report (h : isReportName name = true)
  /-- The log of a report. -/
  | log (h : ".txt".toList <:+ name.toList)
  /-- The last name of a path that ends with the extension. -/
  | source (stem : List Char)
      (h : (Text.splitOn '/' (stem ++ '.' :: extension.toList)).getLast? = some name.toList)
  /-- The rules about what is left out. -/
  | rule (h : name ∈ [".ignore", ".gitignore", ".git", ".jj", "commondir", "exclude"])

theorem isEntryName_of_document {name : String} (h : name ∈ documentNames) :
    FileTree.IsEntryName name := by
  revert name
  decide +kernel

/-- The only dot in the name of a document is that of its extension. -/
theorem eq_json_of_suffix {name : String} {extension : List Char} (hname : name ∈ documentNames)
    (h : '.' :: extension <:+ name.toList) : extension = "json".toList := by
  have htails : ∀ name ∈ documentNames, ∀ tail ∈ name.toList.tails,
      tail.head? = some '.' → tail = '.' :: "json".toList := by
    decide +kernel
  exact (List.cons.inj (htails name hname _ ((List.mem_tails _ _).mpr h) rfl)).2

/-- **No document is read**, unless the extension says so. -/
theorem not_isRead_of_document {extension name : String} (hname : name ∈ documentNames)
    (hextension : extension ≠ "json") (hfolder : ¬ '/' :: name.toList <:+ extension.toList) :
    ¬ IsRead extension name := by
  have hplain : ∀ name ∈ documentNames, isReportName name = false
      ∧ ¬ ".txt".toList <:+ name.toList
      ∧ name ∉ [".ignore", ".gitignore", ".git", ".jj", "commondir", "exclude"] := by
    decide +kernel
  obtain ⟨hreport, hlog, hrule⟩ := hplain name hname
  have hdot : ¬ '.' :: extension.toList <:+ name.toList :=
    fun h => hextension (String.toList_inj.mp (eq_json_of_suffix hname h))
  intro hread
  cases hread with
  | report h =>
      rw [hreport] at h
      cases h
  | log h => exact hlog h
  | rule h => exact hrule h
  | source stem h =>
      have hend : '.' :: extension.toList <:+ stem ++ '.' :: extension.toList :=
        List.suffix_append _ _
      rcases Text.suffix_of_getLast?_splitOn h with hall | hlast
      · exact hdot (hall ▸ hend)
      -- the extension has more of the path than its last name, or less
      · rcases List.suffix_or_suffix_of_suffix hlast hend with hmore | hless
        · rcases List.suffix_cons_iff.mp hmore with heq | hmore
          · exact absurd (List.cons.inj heq).1 (by decide)
          · exact hfolder hmore
        · rcases List.suffix_cons_iff.mp hless with heq | hless
          · exact absurd (List.cons.inj heq).1 (by decide)
          · exact hdot hless

namespace FileTree

/-- Whether an analysis cannot tell two trees apart. -/
structure AlikeFor (extension : String) (tree tree' : FileTree) : Prop where
  workingDir : tree'.workingDir = tree.workingDir
  /-- Its documents have names that it does not read. -/
  unread : ∀ name ∈ documentNames, ¬ IsRead extension name
  /-- The same paths lead to directories. -/
  directory : ∀ path place,
    tree'.find? path = some (place, .directory) ↔ tree.find? path = some (place, .directory)
  /-- Paths that end with a name that is read lead to the same. -/
  found : ∀ dir path,
    (∀ steps name, stepsOf path = steps ++ [.into name] → IsRead extension name) →
      tree'.findFrom? dir path = tree.findFrom? dir path
  /-- The entries are the same, without those that are named like the documents. -/
  entries : ∀ {β : Type} (read : Location × FileEntry → Option β),
    (∀ folder name entry, name ∈ documentNames → read (folder ++ [name], entry) = none) →
      tree'.entries.filterMap read = tree.entries.filterMap read

variable {extension : String} {tree tree' : FileTree}

/-- **Two documents that are put somewhere** are not noticed, unless a link that is read leads to
    one of them. -/
theorem alikeFor_put_put {first second : Location} {name other : String} {text more : ByteArray}
    (hname : name ∈ documentNames) (hother : other ∈ documentNames)
    (hunread : ∀ name ∈ documentNames, ¬ IsRead extension name)
    (hfirst : tree.IsFree (first ++ [name])) (hsecond : tree.IsFree (second ++ [other]))
    (htree : tree' = (tree.put (first ++ [name]) (.file text)).put (second ++ [other]) (.file more))
    (hlinks : ∀ folder link, IsRead extension link →
      ¬ tree'.LinkLeadsTo folder link (first ++ [name])
        ∧ ¬ tree'.LinkLeadsTo folder link (second ++ [other])) :
    AlikeFor extension tree tree' := by
  have hlater := hsecond.put hfirst text
  -- a path that ends with a name that is read leads to none of the documents
  have hnot : ∀ dir path,
      (∀ steps name, stepsOf path = steps ++ [.into name] → IsRead extension name) →
      ∀ content, tree'.findFrom? dir path ≠ some (first ++ [name], .file content)
        ∧ tree'.findFrom? dir path ≠ some (second ++ [other], .file content) := by
    intro dir path hread content
    constructor
    · intro hfound
      obtain ⟨steps, last, folder, hsteps, hplace | hlink⟩ := exists_into_of_file hfound
      · obtain rfl := List.head_eq_of_cons_eq (List.append_inj_right' hplace rfl)
        exact hunread name hname (hread steps name hsteps)
      · exact (hlinks folder last (hread steps last hsteps)).1 hlink
    · intro hfound
      obtain ⟨steps, last, folder, hsteps, hplace | hlink⟩ := exists_into_of_file hfound
      · obtain rfl := List.head_eq_of_cons_eq (List.append_inj_right' hplace rfl)
        exact hunread other hother (hread steps other hsteps)
      · exact (hlinks folder last (hread steps last hsteps)).2 hlink
  subst htree
  exact {
    workingDir := by rw [workingDir_put, workingDir_put]
    unread := hunread
    directory := by
      intro path place
      rw [find?, find?, workingDir_put, workingDir_put, findFrom?_put_eq_directory hlater,
        findFrom?_put_eq_directory hfirst]
    found := by
      intro dir path hread
      have hsecond' := findFrom?_put hlater fun content => (hnot dir path hread content).2
      rw [hsecond']
      refine findFrom?_put hfirst fun content => ?_
      rw [← hsecond']
      exact (hnot dir path hread content).1
    entries := by
      intro β read hread
      rw [filterMap_entries_put fun entry => hread second other entry hother,
        filterMap_entries_put fun entry => hread first name entry hname] }

/-- A path at which rules are looked for ends with a name that is read. -/
theorem isRead_of_isRulePath {path : Path} (hpath : DirectoryRules.IsRulePath path)
    {steps : List PathStep} {name : String} (hsteps : stepsOf path = steps ++ [.into name]) :
    IsRead extension name := by
  have hlast := (Path.ends_of_stepsOf hsteps).1
  have hends : ∃ last ∈ [".ignore", ".gitignore", ".git", ".jj", "commondir", "exclude"],
      path.pieces.getLast? = some last.toList := by
    cases hpath with
    | ignore => exact ⟨".ignore", by decide, by decide +kernel⟩
    | shared => exact ⟨".gitignore", by decide, by decide +kernel⟩
    | repository => exact ⟨".git", by decide, by decide +kernel⟩
    | other => exact ⟨".jj", by decide, by decide +kernel⟩
    | common data =>
        rw [Path.getLast?_pieces_join]
        exact ⟨"commondir", by decide, by decide +kernel⟩
    | excluded data =>
        rw [Path.getLast?_pieces_join]
        exact ⟨"exclude", by decide, by decide +kernel⟩
  obtain ⟨last, hmem, hpieces⟩ := hends
  rw [hlast] at hpieces
  obtain rfl := String.toList_inj.mp (Option.some.inj hpieces)
  exact .rule hmem

namespace AlikeFor

variable (h : AlikeFor extension tree tree')
include h

theorem isDirectory (path : Path) : tree'.isDirectory path = tree.isDirectory path := by
  rw [Bool.eq_iff_iff, isDirectory_iff, isDirectory_iff]
  exact exists_congr fun place => h.directory path place

/-- A path that ends like a source leads to the same. -/
theorem find?_eq_of_read {path : Path}
    (hread : ∀ steps name, stepsOf path = steps ++ [.into name] → IsRead extension name) :
    tree'.find? path = tree.find? path := by
  rw [find?, find?, h.workingDir]
  exact h.found _ path hread

/-- The file of a class is found alike, wherever it is looked for. -/
theorem find?_join_source (root : Path) (stem : String) :
    tree'.find? (root.join ⟨s!"{stem}.{extension}"⟩)
      = tree.find? (root.join ⟨s!"{stem}.{extension}"⟩) := by
  refine h.find?_eq_of_read fun steps name hsteps => ?_
  have hlast := (Path.ends_of_stepsOf hsteps).1
  rw [Path.getLast?_pieces_join] at hlast
  refine .source stem.toList ?_
  rw [← hlast, Path.pieces]
  simp [toString, String.toList_append]

/-- A path with the extension leads to the same. -/
theorem find?_of_extension {path : Path} (hextension : path.extension? = some extension) :
    tree'.find? path = tree.find? path := by
  refine h.find?_eq_of_read fun steps name hsteps => ?_
  obtain ⟨hlast, hname⟩ := Path.ends_of_stepsOf hsteps
  obtain ⟨other, stem, hother, htext⟩ := Path.exists_stem_of_extension? hextension
  obtain rfl : name = other := Option.some.inj (hname.symm.trans hother)
  have hslash : '/' ∉ name.toList := Text.not_mem_of_mem_splitOn (List.mem_of_getLast? hlast)
  refine .source stem ?_
  rw [← htext, Text.splitOn_of_not_mem hslash]
  rfl

/-- The same paths lead to sources. -/
theorem isSource : tree'.isSource extension = tree.isSource extension := by
  funext path
  rw [FileTree.isSource, FileTree.isSource]
  by_cases hextension : path.extension? = some extension
  · rw [isFile_congr (h.find?_of_extension hextension)]
  · rw [beq_eq_false_iff_ne.mpr hextension, Bool.and_false, Bool.and_false]

/-- A document is no source. -/
theorem isSource_document {name : String} (hname : name ∈ documentNames) (root : Path) :
    tree.isSource extension (root.join ⟨name⟩) = false := by
  rw [FileTree.isSource, Bool.and_eq_false_iff, beq_eq_false_iff_ne]
  refine Or.inr fun hextension => h.unread name hname ?_
  obtain ⟨other, stem, hother, htext⟩ := Path.exists_stem_of_extension? hextension
  rw [Path.fileName?_join_name (isEntryName_of_document hname)] at hother
  obtain rfl := Option.some.inj hother
  refine .source stem ?_
  rw [← htext, Text.splitOn_of_not_mem (isEntryName_of_document hname).2.2.2]
  rfl

/-! ## Directories and rules -/

/-- The same rules say what is left out. -/
theorem ruleBook : RuleBook.ofTree tree' = RuleBook.ofTree tree := by
  have hplaces : ∀ tree : FileTree, (tree.entries.map (·.1)).filter
        (fun place => RuleBook.ruleNames.any fun name => place.getLast? = some name)
      = tree.entries.filterMap fun entry => Option.guard (fun place : Location =>
          RuleBook.ruleNames.any fun name => place.getLast? = some name) entry.1 := by
    intro tree
    rw [← List.filterMap_eq_filter, List.filterMap_map]
    rfl
  have hrules : ∀ name ∈ documentNames,
      (RuleBook.ruleNames.any fun rule => some name = some rule) = false := by
    decide +kernel
  have hsame : DirectoryRules.ofTree tree' = DirectoryRules.ofTree tree := by
    funext dir
    refine DirectoryRules.ofTree_congr h.workingDir (fun start path hpath => ?_) dir
    exact h.found start path fun steps name hsteps => isRead_of_isRulePath hpath hsteps
  rw [RuleBook.ofTree, RuleBook.ofTree, hplaces, hplaces, hsame, h.entries]
  intro folder name entry hname
  rw [Option.guard_eq_none_iff, List.getLast?_concat, hrules name hname]

/-! ## Walks and lists -/

/-- The entries of a directory that are asked for are the same, if no document is asked for. -/
theorem filter_paths (holds : Path → Bool) (dir : Path)
    (hdocument : ∀ name ∈ documentNames, holds (dir.join ⟨name⟩) = false) (place : Location) :
    ((tree'.namesAt place).map fun name => dir.join ⟨name⟩).filter holds
      = ((tree.namesAt place).map fun name => dir.join ⟨name⟩).filter holds := by
  rw [namesAt, namesAt, List.map_filterMap, List.filter_filterMap, List.map_filterMap,
    List.filter_filterMap]
  refine h.entries _ fun folder name entry hname => ?_
  refine Option.eq_none_iff_forall_ne_some.mpr fun path hpath => ?_
  obtain ⟨hnamed, hholds⟩ := Option.filter_eq_some_iff.mp hpath
  obtain ⟨other, hother, rfl⟩ := Option.map_eq_some_iff.mp hnamed
  obtain ⟨-, rfl⟩ := List.append_singleton_inj.mp (nameIn?_eq_some.mp hother)
  rw [hdocument name hname] at hholds
  cases hholds

/-- **The sources directly in a directory** are the same. -/
theorem filesIn (dir : Path) : tree'.filesIn dir extension = tree.filesIn dir extension := by
  rw [FileTree.filesIn, FileTree.filesIn]
  cases hlist : tree.list dir with
  | ok names =>
      obtain ⟨place, hdir, rfl⟩ := list_eq_ok.mp hlist
      rw [list_eq_ok.mpr ⟨place, (h.directory dir place).mpr hdir, rfl⟩]
      dsimp only
      rw [h.isSource, h.filter_paths _ dir fun name hname => h.isSource_document hname dir]
  | error fault =>
      cases hlist' : tree'.list dir with
      | error fault' => rfl
      | ok names =>
          obtain ⟨place, hdir, -⟩ := list_eq_ok.mp hlist'
          rw [list_eq_ok.mpr ⟨place, (h.directory dir place).mp hdir, rfl⟩] at hlist
          cases hlist

/-- **The sources below a directory** are the same. -/
theorem sourceFiles {root : Path} (hroot : tree.isDirectory root = true) :
    tree'.sourceFiles root extension = tree.sourceFiles root extension := by
  obtain ⟨dir, hdir⟩ := isDirectory_iff.mp hroot
  rw [FileTree.sourceFiles, FileTree.sourceFiles, h.isSource, walk, walk]
  split
  · rfl
  rw [(h.directory root dir).mpr hdir, hdir, h.ruleBook]
  dsimp only
  rw [List.filter_filterMap, List.filter_filterMap]
  refine congrArg sortPaths (h.entries _ fun folder name entry hname => ?_)
  refine Option.eq_none_iff_forall_ne_some.mpr fun path hpath => ?_
  obtain ⟨hspelled, hsource⟩ := Option.filter_eq_some_iff.mp hpath
  obtain ⟨names, hbelow, hspelled⟩ := Option.bind_eq_some_iff.mp hspelled
  obtain ⟨hplace, hne⟩ := below?_eq_some_iff.mp hbelow
  split at hspelled
  · -- the walk spells the name of the document last
    obtain ⟨front, last, hnames⟩ := (List.eq_nil_or_concat names).resolve_left hne
    rw [List.concat_eq_append] at hnames
    rw [hnames, ← List.append_assoc] at hplace
    obtain ⟨-, rfl⟩ := List.append_singleton_inj.mp hplace
    rw [← Option.some.inj hspelled, hnames, WalkRoot.pathTo, List.foldl_concat,
      h.isSource_document hname] at hsource
    cases hsource
  · cases hspelled

end AlikeFor

end FileTree

end FailureTriage
