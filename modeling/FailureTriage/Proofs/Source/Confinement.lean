import FailureTriage.Proofs.Files.Descent
import FailureTriage.Proofs.Source.Discovery

/-!
# Where related sources lie

The names in a stack trace, a test source and a report become paths that are seen from the source
roots.  A name that starts with a dot becomes an absolute path, which forgets the root.

* `Rooted`: the names whose paths are absolute.
* `isBelow_dependency`, `isBelow_package`: other names lead to sources below a root.
* `mem_discovered_of_rooted`: a rooted name leads wherever its path does.
* `relatedSearch_below`: which related sources there are that lie below no root.
-/

namespace FailureTriage.Workspace

variable {w : Workspace} {root path : Path} {name : String}

/-- A name whose path starts at the top directory. -/
def Rooted (name : String) : Prop :=
  name.toList.head? = some '.' ∨ name.toList.head? = some '/'

instance : Decidable (Rooted name) :=
  inferInstanceAs (Decidable (_ ∨ _))

/-! ## Names as paths -/

theorem dot_not_mem_relativePath (name : String) : '.' ∉ (relativePath name).toList := by
  rw [relativePath, String.toList_ofList, List.mem_map]
  rintro ⟨c, -, hc⟩
  split at hc
  · exact absurd hc (by decide)
  · rename_i hne
    exact hne hc

theorem relativePath_ne_nil (hne : name ≠ "") : (relativePath name).toList ≠ [] := by
  rw [relativePath, String.toList_ofList, ne_eq, List.map_eq_nil_iff, String.toList_eq_nil_iff]
  exact hne

/-- The source of a class is named after it. -/
theorem toList_sourceFileOf (layout : SourceLayout) (name : String) :
    (sourceFileOf layout name).text.toList
      = (relativePath name).toList ++ '.' :: layout.sourceExtension.toList := by
  have htext : (sourceFileOf layout name).text
      = relativePath name ++ "." ++ layout.sourceExtension := rfl
  rw [htext, String.toList_append, String.toList_append, List.append_assoc]
  rfl

/-- Exactly the rooted names become absolute paths. -/
private theorem head_relativePath (name : String) :
    ((relativePath name).toList.head? == some '/') = true ↔ Rooted name := by
  rw [relativePath, String.toList_ofList, List.head?_map, beq_iff_eq, Rooted]
  cases name.toList.head? with
  | none => simp
  | some c =>
      by_cases hdot : c = '.'
      · simp [hdot]
      · simp [hdot]

theorem isAbsolute_relativePath :
    Path.isAbsolute ⟨relativePath name⟩ = true ↔ Rooted name :=
  head_relativePath name

theorem isAbsolute_sourceFileOf {layout : SourceLayout} (hne : name ≠ "") :
    (sourceFileOf layout name).isAbsolute = true ↔ Rooted name := by
  rw [Path.isAbsolute, toList_sourceFileOf, List.head?_append_of_ne_nil _ (relativePath_ne_nil hne)]
  exact head_relativePath name

/-- The pieces of a name that has no dots left go down. -/
private theorem goesDown_of_no_dot {piece : List Char} (h : '.' ∉ piece) : Path.GoesDown piece := by
  constructor
  · rintro rfl
    exact h List.mem_cons_self
  · rintro rfl
    exact h List.mem_cons_self

/-! ## Below a root -/

/-- A source root has a name. -/
theorem isEmpty_of_mem_sourceRoots (h : root ∈ w.sourceRoots) : root.isEmpty = false := by
  have hdir := (w.exactRoots.sound root h).1
  cases hempty : root.isEmpty with
  | false => rfl
  | true =>
      rw [Path.isEmpty, String.isEmpty_iff] at hempty
      obtain ⟨text⟩ := root
      obtain rfl := hempty
      cases hdir

/-- **The source of a class** whose name is not rooted lies below the root that it is seen from,
    if the extension is no path of its own. -/
theorem isBelow_dependency (hroot : root.isEmpty = false) (hne : name ≠ "") (hname : ¬ Rooted name)
    (hextension : '/' ∉ w.layout.sourceExtension.toList)
    (hfile : w.files.isFile (root.join (sourceFileOf w.layout name)) = true) :
    (root.join (sourceFileOf w.layout name)).IsBelow root := by
  have hrelative : (sourceFileOf w.layout name).isAbsolute = false := by
    rw [← Bool.not_eq_true, isAbsolute_sourceFileOf hne]
    exact hname
  have hlast : '/' ∉ '.' :: w.layout.sourceExtension.toList := by
    intro hmem
    rcases List.mem_cons.mp hmem with heq | hmem
    · exact absurd heq (by decide)
    · exact hextension hmem
  obtain ⟨parts, last, hpath, hwhole⟩ :=
    Text.splitOn_append_of_not_mem hlast (relativePath name).toList
  rw [← toList_sourceFileOf] at hwhole
  obtain ⟨piece, rest, hjoined, -⟩ := Path.pieces_join hroot hrelative
  refine Path.isBelow_join hroot hrelative ?_ fun part hpart => ?_
  · rw [Path.isEmpty, ← Bool.not_eq_true, String.isEmpty_iff, ← String.toList_eq_nil_iff,
      toList_sourceFileOf]
    exact List.append_ne_nil_of_right_ne_nil _ (List.cons_ne_nil _ _)
  · rw [Path.pieces, hwhole] at hpart
    rcases List.mem_append.mp hpart with hpart | hpart
    · -- the packages hold no dots
      refine goesDown_of_no_dot fun hdot => dot_not_mem_relativePath name ?_
      exact Text.mem_of_mem_splitOn (hpath ▸ List.mem_append_left _ hpart) hdot
    · -- and the last piece is that of a file
      rw [List.mem_singleton.mp hpart]
      have hpieces : (root.join (sourceFileOf w.layout name)).pieces
          = piece :: (rest ++ parts) ++ [last ++ '.' :: w.layout.sourceExtension.toList] := by
        rw [hjoined, Path.pieces, hwhole, List.cons_append, List.append_assoc]
      exact FileTree.goesDown_of_isFile hfile hpieces

/-- **A source in a package** whose name is not rooted lies below the root that the package is seen
    from. -/
theorem isBelow_package (hproper : w.files.Proper) (hroot : root.isEmpty = false)
    (hne : name ≠ "") (hname : ¬ Rooted name)
    (h : w.files.LiesIn (root.join ⟨relativePath name⟩) path) :
    path.IsBelow root := by
  obtain ⟨place, file, -, ⟨entry, hentry⟩, rfl⟩ := h
  have hrelative : Path.isAbsolute ⟨relativePath name⟩ = false := by
    rw [← Bool.not_eq_true, isAbsolute_relativePath]
    exact hname
  have hdir : (root.join ⟨relativePath name⟩).IsBelow root := by
    refine Path.isBelow_join hroot hrelative ?_ fun piece hpiece => ?_
    · rw [Path.isEmpty, ← Bool.not_eq_true, String.isEmpty_iff, ← String.toList_eq_nil_iff]
      exact relativePath_ne_nil hne
    · refine goesDown_of_no_dot fun hdot => ?_
      exact dot_not_mem_relativePath name (Text.mem_of_mem_splitOn hpiece hdot)
  have hfile : FileTree.IsEntryName file := hproper _ hentry file (by simp)
  exact (FileTree.isBelow_name (Path.isEmpty_join hroot) hfile).trans hdir

/-- No package that a test class may test is without a name. -/
theorem ne_empty_of_mem_productionPackages {testClass package : String}
    (h : package ∈ productionPackages testClass) : package ≠ "" := by
  rw [productionPackages] at h
  split at h
  · cases h
  · rw [List.mem_eraseDups, List.mem_filter] at h
    exact of_decide_eq_true h.2

/-! ## The search -/

/-- The name of a dependency that is looked for is not empty. -/
private theorem ne_empty_of_dot (hdot : '.' ∈ name.toList) : name ≠ "" := by
  rintro rfl
  cases hdot

/-- **The source of a dependency** lies below a source root, unless the name of the dependency is
    rooted or the extension is a path of its own. -/
theorem below_of_isDependency {dependencies : NameSet}
    (h : w.IsDependency dependencies path) :
    (∃ root ∈ w.sourceRoots, path.IsBelow root)
      ∨ (∃ name ∈ dependencies.names, Rooted name ∧ path = sourceFileOf w.layout name)
      ∨ '/' ∈ w.layout.sourceExtension.toList := by
  obtain ⟨name, hname, hdot, root, hroot, rfl, hfile⟩ := h
  rw [← sourceFileOf_eq] at hfile ⊢
  by_cases hrooted : Rooted name
  · refine Or.inr (Or.inl ⟨name, hname, hrooted, Path.join_of_isAbsolute ?_⟩)
    exact (isAbsolute_sourceFileOf (ne_empty_of_dot hdot)).mpr hrooted
  by_cases hextension : '/' ∈ w.layout.sourceExtension.toList
  · exact Or.inr (Or.inr hextension)
  · exact Or.inl ⟨root, hroot, isBelow_dependency (isEmpty_of_mem_sourceRoots hroot)
      (ne_empty_of_dot hdot) hrooted hextension hfile⟩

/-- **The source of a dependency with a rooted name** is discovered wherever it lies. -/
theorem mem_discovered_of_rooted {patterns packages : List String} {dependencies : NameSet}
    (hname : name ∈ dependencies.names) (hrooted : Rooted name) (hdot : '.' ∈ name.toList)
    (hroots : w.sourceRoots ≠ []) (hfile : w.files.isFile (sourceFileOf w.layout name) = true) :
    sourceFileOf w.layout name ∈ w.discovered patterns dependencies.qualified packages := by
  obtain ⟨root, hroot⟩ := List.exists_mem_of_ne_nil _ hroots
  have hjoin := @Path.join_of_isAbsolute root (sourceFileOf w.layout name)
    ((isAbsolute_sourceFileOf (ne_empty_of_dot hdot)).mpr hrooted)
  refine mem_discovered.mpr (Or.inr (Or.inl ⟨name, hname, hdot, root, hroot, ?_, hfile⟩))
  rw [← sourceFileOf_eq, hjoin]

/-- **A related source** lies below a source root, unless the name that it was found by is rooted,
    or the extension is a path of its own.  Of a dependency with a rooted name the file is listed
    wherever it lies. -/
theorem relatedSearch_below (hproper : w.files.Proper) (failure : FailureRecord)
    (testFile : Option Path) :
    let found := (w.relatedSearch failure testFile).value
    (∀ path ∈ found.paths,
      (∃ root ∈ w.sourceRoots, path.IsBelow root)
      ∨ (∃ name ∈ found.dependencies.names, Rooted name ∧ path = sourceFileOf w.layout name)
      ∨ (∃ package ∈ productionPackages failure.testClass, Rooted package
          ∧ w.files.LiesIn ⟨relativePath package⟩ path)
      ∨ ('/' ∈ w.layout.sourceExtension.toList ∧ w.IsDependency found.dependencies path))
    ∧ ∀ name ∈ found.dependencies.names, Rooted name → '.' ∈ name.toList → w.sourceRoots ≠ [] →
        w.files.isFile (sourceFileOf w.layout name) = true →
          ∃ path ∈ found.paths,
            w.files.locate? path = w.files.locate? (sourceFileOf w.layout name) := by
  intro found
  refine ⟨fun path hpath => ?_, fun name hname hrooted hdot hroots hfile => ?_⟩
  · rcases mem_discovered.mp (discovered_of_mem_paths hpath) with
      ⟨root, hroot, hwalk, -⟩ | hdependency | ⟨package, hpackage, root, hroot, hlies, -⟩
    · exact Or.inl ⟨root, hroot, hwalk.isBelow hproper (isEmpty_of_mem_sourceRoots hroot)⟩
    · rcases below_of_isDependency hdependency with hbelow | hrooted | hextension
      · exact Or.inl hbelow
      · exact Or.inr (Or.inl hrooted)
      · exact Or.inr (Or.inr (Or.inr ⟨hextension, hdependency⟩))
    · rw [← relativePath_eq] at hlies
      by_cases hrooted : Rooted package
      · rw [Path.join_of_isAbsolute (isAbsolute_relativePath.mpr hrooted)] at hlies
        exact Or.inr (Or.inr (Or.inl ⟨package, hpackage, hrooted, hlies⟩))
      · exact Or.inl ⟨root, hroot, isBelow_package hproper (isEmpty_of_mem_sourceRoots hroot)
          (ne_empty_of_mem_productionPackages hpackage) hrooted hlies⟩
  · exact exists_listed (mem_discovered_of_rooted hname hrooted hdot hroots hfile)

/-- A project with one source root, and two files that lie outside of it. -/
def withSecrets (extension : String) : Workspace where
  files := {
    entries := [
      (["etc"], .directory), (["etc", "Secret.java"], .file "class Secret { }".toUTF8),
      (["project"], .directory), (["project", "Secret.java"], .file "class Secret { }".toUTF8),
      (["project", "java"], .directory), (["project", "java", "x"], .directory),
      (["project", "java", "x", "A.java"], .file "class A { }".toUTF8),
      (["project", "java", "x", "A.d"], .directory)]
    workingDir := ["project"] }
  layout := { sourceExtension := extension }
  window := {}

/-- A failure with a stack trace. -/
def tracedTo (stackTrace : String) : FailureRecord where
  testClass := "BTest"
  testMethod := "works"
  kind := .failure
  failureType := "T"
  message := ""
  stackTrace := stackTrace
  duration := 0.0
  systemOut := ""
  systemErr := ""
  rawText := ""

/-- A name from a stack trace that is not rooted leads to a source below the root. -/
theorem relatedSearch_below_plainName :
    (withSecrets "java").files.Proper
      ∧ ((withSecrets "java").relatedSearch (tracedTo "at x.A.load(A.java:1)") none).value.paths
        = [⟨"java/x/A.java"⟩]
      ∧ ∃ root ∈ (withSecrets "java").sourceRoots, Path.IsBelow ⟨"java/x/A.java"⟩ root := by
  have hproper : (withSecrets "java").files.Proper := by decide +kernel
  have hpaths : ((withSecrets "java").relatedSearch (tracedTo "at x.A.load(A.java:1)")
      none).value.paths = [⟨"java/x/A.java"⟩] := by decide +kernel
  have hplain : ∀ name ∈ ((withSecrets "java").relatedSearch (tracedTo "at x.A.load(A.java:1)")
      none).value.dependencies.names, ¬ Rooted name := by decide +kernel
  refine ⟨hproper, hpaths, ?_⟩
  obtain ⟨hbelow, -⟩ := relatedSearch_below hproper (tracedTo "at x.A.load(A.java:1)") none
  rcases hbelow ⟨"java/x/A.java"⟩ (hpaths ▸ List.mem_singleton_self _) with
    hroot | ⟨name, hname, hrooted, -⟩ | ⟨package, hpackage, -⟩ | ⟨hextension, -⟩
  · exact hroot
  · exact absurd hrooted (hplain name hname)
  · cases hpackage
  · exact absurd hextension (by decide)

/-- A name from a stack trace that starts with a dot leads to a file outside of the only source
    root, and so does an extension with a way up in it. -/
theorem relatedSearch_outside :
    (withSecrets "java").sourceRoots = [⟨"java"⟩]
      ∧ (⟨"/etc/Secret.java"⟩ ∈ ((withSecrets "java").relatedSearch
          (tracedTo "at .etc.Secret.load(Secret.java:1)") none).value.paths
        ∧ ¬ Path.IsBelow ⟨"/etc/Secret.java"⟩ ⟨"java"⟩)
      ∧ (withSecrets "d/../../../Secret.java").sourceRoots = [⟨"java"⟩]
      ∧ ⟨"java/x/A.d/../../../Secret.java"⟩ ∈ ((withSecrets "d/../../../Secret.java").relatedSearch
          (tracedTo "at x.A.load(A.java:1)") none).value.paths
      ∧ ¬ Path.IsBelow ⟨"java/x/A.d/../../../Secret.java"⟩ ⟨"java"⟩ := by
  have hroot : Path.components ⟨"java"⟩ = [.name "java"] := by decide +kernel
  refine ⟨by decide +kernel, ⟨by decide +kernel, ?_⟩, by decide +kernel, by decide +kernel, ?_⟩
  · rintro ⟨names, -, hnames⟩
    have habsolute : Path.components ⟨"/etc/Secret.java"⟩
        = [.root, .name "etc", .name "Secret.java"] := by decide +kernel
    rw [hroot, habsolute] at hnames
    exact nomatch (List.cons.inj hnames).1
  · rintro ⟨names, -, hnames⟩
    have hup : PathComponent.up ∈ Path.components ⟨"java/x/A.d/../../../Secret.java"⟩ := by
      decide +kernel
    rw [hnames, hroot] at hup
    simp at hup

end FailureTriage.Workspace
