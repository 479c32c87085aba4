import FailureTriage.Proofs.Files.Descent
import FailureTriage.Proofs.Names.Tables
import FailureTriage.Proofs.Source.Places

/-!
# What the search for related sources finds

The three ways to find a source, said without the loops that take them, and the order in which
these discover the files.

* `Workspace.IsNamed`, `Workspace.IsDependency`, `Workspace.IsInPackage`: the three ways.
* `Workspace.discovered`: the order of the discoveries.
* `RelatedSearch.Derived`: what a search goes by, for a failure and the source of its test.
* `RelatedSearch.Exact`: what the search promises.
* `relatedSearch_exact`: the search keeps its promise.
-/

namespace FailureTriage

namespace FileTree

/-- A path made from the path of a directory and the name of an entry directly in it. -/
def LiesIn (tree : FileTree) (dir path : Path) : Prop :=
  ∃ place name, tree.find? dir = some (place, .directory)
    ∧ (∃ entry, (place ++ [name], entry) ∈ tree.entries) ∧ path = dir.join ⟨name⟩

variable {tree : FileTree} {dir path : Path} {extension : String}

theorem isSource_iff : tree.isSource extension path = true
    ↔ tree.isFile path = true ∧ path.extension? = some extension := by
  rw [isSource, Bool.and_eq_true, beq_iff_eq]

/-- The sources below a directory are what a walk finds. -/
theorem mem_sourceFiles (hdir : tree.isDirectory dir = true) :
    path ∈ tree.sourceFiles dir extension ↔ tree.WalksTo dir path
      ∧ tree.isFile path = true ∧ path.extension? = some extension := by
  rw [sourceFiles, mem_sortPaths, List.mem_filter, mem_walk_iff hdir, isSource_iff]

/-- A file lies at a location. -/
theorem locate?_of_isFile (h : tree.isFile path = true) :
    ∃ place, tree.locate? path = some place := by
  rw [isFile] at h
  rw [locate?]
  cases hfind : tree.find? path with
  | none =>
      rw [hfind] at h
      cases h
  | some found => exact ⟨found.1, rfl⟩

/-- The files directly in a directory are those sources whose paths are made from its own. -/
theorem mem_filesIn :
    path ∈ tree.filesIn dir extension
      ↔ tree.LiesIn dir path ∧ tree.isFile path = true ∧ path.extension? = some extension := by
  rw [filesIn, ← isSource_iff]
  cases hlist : tree.list dir with
  | error fault =>
      constructor
      · rintro ⟨⟩
      · rintro ⟨⟨place, name, hdir, -, -⟩, -⟩
        rw [list_eq_ok.mpr ⟨place, hdir, rfl⟩] at hlist
        cases hlist
  | ok names =>
      obtain ⟨place, hdir, rfl⟩ := list_eq_ok.mp hlist
      dsimp only
      rw [mem_sortPaths, List.mem_filter, List.mem_map]
      constructor
      · rintro ⟨⟨name, hname, rfl⟩, hsource⟩
        exact ⟨⟨place, name, hdir, mem_namesAt.mp hname, rfl⟩, hsource⟩
      · rintro ⟨⟨other, name, hother, hentry, rfl⟩, hsource⟩
        rw [hdir] at hother
        obtain ⟨rfl, -⟩ := Prod.mk.inj (Option.some.inj hother)
        exact ⟨⟨name, mem_namesAt.mpr hentry, rfl⟩, hsource⟩

end FileTree

namespace Workspace

variable {w : Workspace} {path : Path}

/-! ## The three ways to find a source -/

/-- A source below a source root whose name holds one of the patterns. -/
def IsNamed (w : Workspace) (patterns : List String) (path : Path) : Prop :=
  ∃ root ∈ w.sourceRoots, w.files.WalksTo root path
    ∧ w.files.isFile path = true ∧ path.extension? = some w.layout.sourceExtension
    ∧ ∃ name, path.fileName? = some name ∧ ∃ pattern ∈ patterns, pattern.toList <:+: name.toList

/-- The source of a dependency with a package, in a source root. -/
def IsDependency (w : Workspace) (dependencies : NameSet) (path : Path) : Prop :=
  ∃ name ∈ dependencies.names, '.' ∈ name.toList
    ∧ ∃ root ∈ w.sourceRoots, path = root.join ⟨withSlashes name ++ "." ++ w.layout.sourceExtension⟩
      ∧ w.files.isFile path = true

/-- A source that lies directly in one of the packages, in a source root. -/
def IsInPackage (w : Workspace) (packages : List String) (path : Path) : Prop :=
  ∃ package ∈ packages, ∃ root ∈ w.sourceRoots,
    w.files.LiesIn (root.join ⟨withSlashes package⟩) path
      ∧ w.files.isFile path = true ∧ path.extension? = some w.layout.sourceExtension

/-- The sources in the order in which they are discovered, as often as that happens: root by root
    those whose names hold one of the patterns, name by name and root by root those of dotted
    names, and package by package and root by root those in the packages. -/
def discovered (w : Workspace) (patterns dotted packages : List String) : List Path :=
  (w.sourceRoots.flatMap fun root =>
    (w.files.sourceFiles root w.layout.sourceExtension).filter fun path =>
      path.fileName?.any fun name => patterns.any fun pattern => pattern.toList <:+: name.toList)
  ++ (dotted.flatMap fun name =>
    (w.sourceRoots.map fun root =>
      root.join ⟨withSlashes name ++ "." ++ w.layout.sourceExtension⟩).filter w.files.isFile)
  ++ packages.flatMap fun package => w.sourceRoots.flatMap fun root =>
    w.files.filesIn (root.join ⟨withSlashes package⟩) w.layout.sourceExtension

theorem nameHoldsAny_eq (patterns : List String) :
    nameHoldsAny patterns = fun path => path.fileName?.any fun name =>
      patterns.any fun pattern => pattern.toList <:+: name.toList := by
  funext path
  have hholds : ∀ pattern name : String, Text.contains pattern.toList name.toList
      = decide (pattern.toList <:+: name.toList) := by
    intro pattern name
    rw [Bool.eq_iff_iff, Text.contains_iff_infix, decide_eq_true_eq]
  rw [nameHoldsAny]
  cases path.fileName? with
  | none => rfl
  | some name => simp only [hholds, Option.any_some]

/-- The sources are discovered one way after the other. -/
theorem discovered_eq (w : Workspace) (patterns : List String) (dependencies : NameSet)
    (packages : List String) :
    w.discovered patterns dependencies.qualified packages
      = w.namedSources w.sourceRoots patterns
        ++ w.dependencySources w.sourceRoots dependencies.qualified
        ++ w.packageSources w.sourceRoots packages := by
  simp only [discovered, namedSources, dependencySources, packageSources, sourceFileOf_eq,
    relativePath_eq, nameHoldsAny_eq]

variable {patterns packages : List String} {dependencies : NameSet}

theorem mem_discovered : path ∈ w.discovered patterns dependencies.qualified packages
    ↔ w.IsNamed patterns path ∨ w.IsDependency dependencies path
      ∨ w.IsInPackage packages path := by
  have hnamed : ∀ path : Path, (path.fileName?.any fun name => patterns.any fun pattern =>
        pattern.toList <:+: name.toList) = true
      ↔ ∃ name, path.fileName? = some name
        ∧ ∃ pattern ∈ patterns, pattern.toList <:+: name.toList := by
    intro path
    simp only [Option.any_eq_true, List.any_eq_true, decide_eq_true_eq]
  have hdependency : ∀ name : String, name ∈ dependencies.qualified
      ↔ name ∈ dependencies.names ∧ '.' ∈ name.toList := by
    intro name
    rw [NameSet.qualified, List.mem_filter, List.contains_iff_mem]
  rw [discovered, List.mem_append, List.mem_append, or_assoc]
  refine or_congr ?_ (or_congr ?_ ?_)
  · simp only [List.mem_flatMap, List.mem_filter, hnamed, IsNamed]
    refine exists_congr fun root => and_congr_right fun hroot => ?_
    rw [FileTree.mem_sourceFiles (w.exactRoots.sound root hroot).1, and_assoc, and_assoc]
  · simp only [List.mem_flatMap, List.mem_filter, List.mem_map, hdependency, IsDependency]
    constructor
    · rintro ⟨name, ⟨hname, hdot⟩, ⟨root, hroot, rfl⟩, hfile⟩
      exact ⟨name, hname, hdot, root, hroot, rfl, hfile⟩
    · rintro ⟨name, hname, hdot, root, hroot, rfl, hfile⟩
      exact ⟨name, ⟨hname, hdot⟩, ⟨root, hroot, rfl⟩, hfile⟩
  · simp only [List.mem_flatMap, FileTree.mem_filesIn, IsInPackage]

/-- Only files are discovered. -/
theorem isFile_of_mem_discovered
    (h : path ∈ w.discovered patterns dependencies.qualified packages) :
    w.files.isFile path = true := by
  rcases mem_discovered.mp h with ⟨root, -, -, hfile, -⟩ | ⟨name, -, -, root, -, -, hfile⟩
    | ⟨package, -, root, -, -, hfile, -⟩
  · exact hfile
  · exact hfile
  · exact hfile

/-! ## Each file once -/

/-- The files that are kept are those whose place no earlier path leads to. -/
theorem distinctFiles_eq {paths : List Path} (h : ∀ path ∈ paths, w.files.isFile path = true) :
    w.distinctFiles paths = firstOfEach w.files.locate? paths := by
  have hany : ∀ (found : List Path) (path : Path), found.any (w.sameFile path) = true
      ↔ w.identity path ∈ found.map w.identity := by
    intro found path
    simp only [List.any_eq_true, sameFile, beq_iff_eq, List.mem_map]
    exact exists_congr fun other => and_congr_right fun _ => eq_comm
  have hkept : w.distinctFiles paths = firstOfEach w.identity paths :=
    foldl_eq_firstOfEach (fun found path hseen => if_pos ((hany found path).mpr hseen))
      (fun found path hnew => if_neg fun h => hnew ((hany found path).mp h)) paths
  rw [hkept]
  -- files have the same identity if they are at the same place
  refine firstOfEach_congr fun a ha b hb => ?_
  obtain ⟨placeA, hA⟩ := FileTree.locate?_of_isFile (h a ha)
  obtain ⟨placeB, hB⟩ := FileTree.locate?_of_isFile (h b hb)
  rw [identity, identity, hA, hB]
  have hname : Function.Injective PathComponent.name := fun _ _ => PathComponent.name.inj
  constructor
  · intro heq
    rw [hname.list_map (List.cons.inj heq).2]
  · intro heq
    rw [Option.some.inj heq]

/-! ## Patterns -/

/-- The patterns in the order of their proposal, without the empty one. -/
private theorem foldl_addPattern (proposed : List String) :
    proposed.foldl addPattern [] = firstOfEach id (proposed.filter fun p => p ≠ "") := by
  -- the empty pattern is never added, so it may be left out beforehand
  have hstep : addPattern = fun found p =>
      if decide (p ≠ "") = true then (if p ∈ found then found else found ++ [p]) else found := by
    funext found p
    by_cases hp : p = "" <;> simp [addPattern, hp]
  rw [hstep, ← List.foldl_filter]
  refine foldl_eq_firstOfEach (fun found p hseen => if_pos ?_) (fun found p hnew => if_neg ?_) _
  · rwa [List.map_id] at hseen
  · rwa [List.map_id] at hnew

/-- No pattern is looked for twice. -/
theorem nodup_searchPatterns (layout : SourceLayout) (baseName : String) (classes : StackClasses)
    (dependencies : NameSet) : (searchPatterns layout baseName classes dependencies).Nodup := by
  rw [searchPatterns, foldl_addPattern]
  exact nodup_firstOfEach_id _

/-- A pattern is the base name, the name of a companion or the simple name of a type. -/
theorem mem_searchPatterns {layout : SourceLayout} {baseName : String} {classes : StackClasses}
    {dependencies : NameSet} {pattern : String} :
    pattern ∈ searchPatterns layout baseName classes dependencies
      ↔ pattern ≠ ""
        ∧ (baseName ≠ "" ∧ (pattern = baseName
              ∨ ∃ suffix ∈ layout.companionSuffixes, pattern = baseName ++ suffix)
            ∨ pattern ∈ classes.simple ∨ pattern ∈ dependencies.simpleNames.names) := by
  rw [searchPatterns, foldl_addPattern, mem_firstOfEach_id, List.mem_filter, List.mem_append,
    List.mem_append, decide_eq_true_eq, and_comm, or_assoc]
  refine and_congr_right fun _ => or_congr_left ?_
  by_cases hbase : baseName = ""
  · simp [hbase]
  · simp [hbase, eq_comm]

/-- What the files are discovered by, and the files that are listed. -/
theorem value_relatedSearch (w : Workspace) (failure : FailureRecord) (testFile : Option Path) :
    let found := (w.relatedSearch failure testFile).value
    found.patterns = searchPatterns w.layout found.baseName found.stackClasses found.dependencies
      ∧ found.paths = firstOfEach w.files.locate? (w.discovered found.patterns
        found.dependencies.qualified (productionPackages failure.testClass)) := by
  intro found
  have hpatterns : found.patterns
      = searchPatterns w.layout found.baseName found.stackClasses found.dependencies := by
    cases testFile <;> rfl
  have hlisted : found.paths = w.distinctFiles (w.namedSources w.sourceRoots found.patterns
      ++ w.dependencySources w.sourceRoots found.dependencies.qualified
      ++ w.packageSources w.sourceRoots (productionPackages failure.testClass)) := by
    cases testFile <;> rfl
  refine ⟨hpatterns, ?_⟩
  rw [hlisted, ← discovered_eq]
  exact distinctFiles_eq fun path => isFile_of_mem_discovered

/-- The names of dependencies without their packages are their last segments. -/
theorem mem_simpleNames_iff {dependencies : NameSet} {pattern : String} :
    pattern ∈ dependencies.simpleNames.names
      ↔ ∃ name ∈ dependencies.names, IsLastSegment name.toList pattern.toList := by
  simp only [NameSet.simpleNames, NameSet.mem_ofList, List.mem_map, isLastSegment_iff,
    ← String.toList_inj, String.toList_ofList]

/-- The dependencies of a file are those of its text. -/
theorem mem_fileDependencies {files : FileTree} {name : String} :
    name ∈ (fileDependencies files path).value.names
      ↔ ∃ text, files.readText path = .ok text ∧ name ∈ (dependenciesOf text).names := by
  rw [fileDependencies]
  cases files.readText path with
  | ok text => simp only [Logged.value_pure, Except.ok.injEq, exists_eq_left']
  | error fault => simp

/-- The dependencies that the search finds are those of the test's source, and the classes. -/
theorem mem_dependencies_relatedSearch {failure : FailureRecord} {testFile : Option Path}
    {name : String} :
    let found := (w.relatedSearch failure testFile).value
    name ∈ found.dependencies.names
      ↔ (∃ path text, testFile = some path ∧ w.files.readText path = .ok text
          ∧ name ∈ (dependenciesOf text).names)
        ∨ name ∈ found.stackClasses.simple ∨ name ∈ found.stackClasses.qualified := by
  intro found
  obtain ⟨imported, himported, hfound⟩ : ∃ imported : NameSet,
      (name ∈ imported.names ↔ ∃ path text, testFile = some path
        ∧ w.files.readText path = .ok text ∧ name ∈ (dependenciesOf text).names)
      ∧ found.dependencies = (imported.insertAll found.stackClasses.simple).insertAll
        found.stackClasses.qualified := by
    cases testFile with
    | none => exact ⟨∅, by simp, rfl⟩
    | some path =>
        refine ⟨(fileDependencies w.files path).value, ?_, rfl⟩
        simp only [mem_fileDependencies, Option.some.injEq, exists_and_left, exists_eq_left']
  rw [hfound, NameSet.mem_insertAll, NameSet.mem_insertAll, himported, or_assoc]

/-- What is listed was discovered. -/
theorem discovered_of_mem_paths {failure : FailureRecord} {testFile : Option Path}
    (h : path ∈ (w.relatedSearch failure testFile).value.paths) :
    path ∈ w.discovered (w.relatedSearch failure testFile).value.patterns
      (w.relatedSearch failure testFile).value.dependencies.qualified
      (productionPackages failure.testClass) := by
  rw [(value_relatedSearch w failure testFile).2] at h
  exact (firstOfEach_sublist _).subset h

/-- What is discovered is listed, under one of its spellings. -/
theorem exists_listed {failure : FailureRecord} {testFile : Option Path}
    (h : path ∈ w.discovered (w.relatedSearch failure testFile).value.patterns
      (w.relatedSearch failure testFile).value.dependencies.qualified
      (productionPackages failure.testClass)) :
    ∃ listed ∈ (w.relatedSearch failure testFile).value.paths,
      w.files.locate? listed = w.files.locate? path := by
  rw [(value_relatedSearch w failure testFile).2]
  exact List.mem_map.mp (mem_keys_firstOfEach.mpr (List.mem_map_of_mem h))

end Workspace

/-! ## The search -/

/-- What the search for the related sources of a failure goes by. -/
structure RelatedSearch.Derived (w : Workspace) (failure : FailureRecord)
    (testFile : Option Path) (found : RelatedSearch) : Prop where
  /-- The classes are those of the failure's stack trace. -/
  stackClasses : found.stackClasses.Collected w.layout (StackFrame.parseAll failure.stackTrace)
  /-- The base name is the one of the test class, without its test suffix. -/
  baseName : ∃ simple, IsLastSegment failure.testClass.toList simple
    ∧ w.layout.StripsTo simple found.baseName.toList
  /-- The dependencies are those of the test's source, if that can be read, and the classes. -/
  dependencies : ∀ name, name ∈ found.dependencies.names
    ↔ (∃ path text, testFile = some path ∧ w.files.readText path = .ok text
        ∧ name ∈ (dependenciesOf text).names)
      ∨ name ∈ found.stackClasses.simple ∨ name ∈ found.stackClasses.qualified
  /-- The patterns are the base name, the names of its companions, and the names of the classes
      and the dependencies without their packages. -/
  patterns : ∀ pattern, pattern ∈ found.patterns ↔ pattern ≠ ""
    ∧ (found.baseName ≠ "" ∧ (pattern = found.baseName
          ∨ ∃ suffix ∈ w.layout.companionSuffixes, pattern = found.baseName ++ suffix)
        ∨ pattern ∈ found.stackClasses.simple
        ∨ ∃ name ∈ found.dependencies.names, IsLastSegment name.toList pattern.toList)
  noEmptyPattern : "" ∉ found.patterns
  patternsDistinct : found.patterns.Nodup

/-- What the search for related sources promises, given the packages beside the test class. -/
structure RelatedSearch.Exact (w : Workspace) (packages : List String) (found : RelatedSearch) :
    Prop where
  /-- Every path leads to a file. -/
  isFile : ∀ path ∈ found.paths, w.files.isFile path = true
  /-- No two paths lead to the same file. -/
  distinct : (found.paths.map w.files.locate?).Nodup
  /-- Nothing else is listed. -/
  sound : ∀ path ∈ found.paths, w.IsNamed found.patterns path
    ∨ w.IsDependency found.dependencies path ∨ w.IsInPackage packages path
  /-- No file is left out. -/
  complete : ∀ path, w.IsNamed found.patterns path ∨ w.IsDependency found.dependencies path
    ∨ w.IsInPackage packages path →
      ∃ listed ∈ found.paths, w.files.locate? listed = w.files.locate? path
  /-- The files stand in the order of their discovery, each as it was spelled first; the dotted
      dependencies that are gone through are in increasing order. -/
  order : ∃ dotted : List String, dotted.Pairwise (· < ·)
    ∧ (∀ name, name ∈ dotted ↔ name ∈ found.dependencies.names ∧ '.' ∈ name.toList)
    ∧ found.paths = firstOfEach w.files.locate? (w.discovered found.patterns dotted packages)
  walkOrder : ∀ root, (w.files.sourceFiles root w.layout.sourceExtension).Pairwise
    fun a b => a.atMost b = true
  packageOrder : ∀ dir, (w.files.filesIn dir w.layout.sourceExtension).Pairwise
    fun a b => a.atMost b = true

namespace Workspace

variable (w : Workspace) (failure : FailureRecord) (testFile : Option Path)

/-- What a search goes by comes from the failure and the source of the test. -/
theorem relatedSearch_derived :
    (w.relatedSearch failure testFile).value.Derived w failure testFile := by
  obtain ⟨found, hfound⟩ : ∃ found, found = (w.relatedSearch failure testFile).value := ⟨_, rfl⟩
  have hclasses : found.stackClasses
      = StackClasses.ofFrames w.layout.hasTestSuffix (StackFrame.parseAll failure.stackTrace) := by
    rw [← StackClasses.ofTrace_eq, hfound]
    cases testFile <;> rfl
  have hbase : found.baseName = w.layout.stripTestSuffix failure.simpleClassName := by
    rw [hfound]
    cases testFile <;> rfl
  have hpatterns : found.patterns
      = searchPatterns w.layout found.baseName found.stackClasses found.dependencies := by
    rw [hfound]
    exact (value_relatedSearch w failure testFile).1
  rw [← hfound]
  exact {
    stackClasses := by
      rw [hclasses]
      exact StackClasses.collected_ofFrames w.layout _
    baseName := by
      refine ⟨failure.simpleClassName.toList, ?_, ?_⟩
      · rw [isLastSegment_iff, FailureRecord.simpleClassName, String.toList_ofList]
      · rw [hbase]
        exact w.layout.stripTestSuffix_stripsTo _
    dependencies := fun name => hfound ▸ mem_dependencies_relatedSearch
    patterns := by
      intro pattern
      rw [hpatterns, mem_searchPatterns, mem_simpleNames_iff]
    noEmptyPattern := by
      rw [hpatterns, mem_searchPatterns]
      exact fun h => h.1 rfl
    patternsDistinct := by
      rw [hpatterns]
      exact nodup_searchPatterns _ _ _ _ }

/-- **The search finds the related sources**, all of them and each once, in the order in which
    they are discovered, below the source roots there are.  What it goes by comes from the
    failure, and the packages it looks into are those beside the test class. -/
theorem relatedSearch_exact :
    (w.relatedSearch failure testFile).value.Derived w failure testFile ∧ w.ExactRoots
      ∧ ∃ packages, PackagesBeside failure.testClass packages
        ∧ (w.relatedSearch failure testFile).value.Exact w packages := by
  refine ⟨w.relatedSearch_derived failure testFile, w.exactRoots,
    productionPackages failure.testClass, packagesBeside_iff.mpr rfl, ?_⟩
  have hpaths := (value_relatedSearch w failure testFile).2
  exact {
    isFile := fun path hpath => isFile_of_mem_discovered (discovered_of_mem_paths hpath)
    distinct := by
      rw [hpaths]
      exact nodup_keys_firstOfEach _
    sound := fun path hpath => mem_discovered.mp (discovered_of_mem_paths hpath)
    complete := fun path hway => exists_listed (mem_discovered.mpr hway)
    order := by
      refine ⟨(w.relatedSearch failure testFile).value.dependencies.qualified,
        (NameSet.increasing _).filter _, ?_, hpaths⟩
      intro name
      rw [NameSet.qualified, List.mem_filter, List.contains_iff_mem]
    walkOrder := fun root => FileTree.pairwise_sourceFiles root _
    packageOrder := fun dir => FileTree.pairwise_filesIn dir _ }

end Workspace

end FailureTriage
