import FailureTriage.Proofs.Lists.FirstOfEach
import FailureTriage.Proofs.Paths.Order
import FailureTriage.Proofs.StackTrace.Classes
import FailureTriage.Proofs.Text.Cutting
import FailureTriage.Proofs.Text.Replacing
import FailureTriage.Source.Related

/-!
# Where sources are looked for

The places and the names that a search for sources goes by, said by what they are made of: source
roots by prefixes and suffixes, paths by names with dots, packages by what is replaced in the one
of the test class, and the base name by the suffix that is taken off the name of the test class.

* `withSlashes`, `sourceFileOf_eq`: the path that a dotted name stands for.
* `Workspace.ExactRoots`, `Workspace.exactRoots`: the source roots.
* `PackagesBeside`, `packagesBeside_iff`: the packages of a test class.
* `SourceLayout.StripsTo`, `SourceLayout.stripTestSuffix_stripsTo`: the name without its test
  suffix.
-/

namespace FailureTriage

/-! ## Names with dots -/

/-- A dotted name as the relative path that it stands for. -/
def withSlashes (name : String) : String :=
  String.ofList (Text.replace ['.'] ['/'] name.toList)

theorem relativePath_eq (name : String) : Workspace.relativePath name = withSlashes name := by
  rw [withSlashes, Text.replace_singleton]
  rfl

/-- The source of a class is spelled like its name. -/
theorem sourceFileOf_eq (layout : SourceLayout) (name : String) :
    Workspace.sourceFileOf layout name = ⟨withSlashes name ++ "." ++ layout.sourceExtension⟩ := by
  rw [← relativePath_eq]
  rfl

/-- The segment of a dotted name that no dot follows. -/
def IsLastSegment (name segment : List Char) : Prop :=
  '.' ∉ segment ∧ ∃ package, name = package ++ segment
    ∧ (package = [] ∨ package.getLast? = some '.')

theorem isLastSegment_iff {name segment : List Char} :
    IsLastSegment name segment ↔ Text.afterLast '.' name = segment :=
  Text.afterLast_eq_iff.symm

/-! ## Source roots -/

namespace Workspace

variable {w : Workspace}

/-- A source root is kept if it is a directory and no earlier one has its components. -/
theorem sourceRoots_eq :
    w.sourceRoots
      = firstOfEach Path.components ((rootCandidates w.layout).filter w.files.isDirectory) := by
  have hany : ∀ (found : List Path) (path : Path), found.any path.same = true
      ↔ path.components ∈ found.map Path.components := by
    intro found path
    simp only [List.any_eq_true, Path.same, beq_iff_eq, List.mem_map]
    exact exists_congr fun other => and_congr_right fun _ => eq_comm
  exact foldl_eq_firstOfEach (fun found path hseen => if_pos ((hany found path).mpr hseen))
    (fun found path hnew => if_neg fun h => hnew ((hany found path).mp h)) _

end Workspace

namespace SourceLayout

variable {layout : SourceLayout}

/-- Where a prefix and a suffix place a source root: the suffix seen from the prefix, and that from
    the base directory, where neither is spelled out that stands for the current directory. -/
def rootPlace (layout : SourceLayout) (start stop : String) : Path :=
  let relative := if start = "." ∨ start = "" then ⟨stop⟩ else Path.join ⟨start⟩ ⟨stop⟩
  if layout.baseDir.text = "" ∨ layout.baseDir.components = [.here] then relative
  else layout.baseDir.join relative

/-- The places of source roots, the prefixes one after the other and each with all suffixes. -/
def rootPlaces (layout : SourceLayout) : List Path :=
  (layout.sourceRootPrefixes.product layout.sourceRootSuffixes).map fun place =>
    layout.rootPlace place.1 place.2

theorem mem_rootPlaces {path : Path} : path ∈ layout.rootPlaces
    ↔ ∃ start ∈ layout.sourceRootPrefixes, ∃ stop ∈ layout.sourceRootSuffixes,
      path = layout.rootPlace start stop := by
  rw [rootPlaces, List.mem_map]
  constructor
  · rintro ⟨⟨start, stop⟩, hplace, rfl⟩
    obtain ⟨hstart, hstop⟩ := List.pair_mem_product.mp hplace
    exact ⟨start, hstart, stop, hstop, rfl⟩
  · rintro ⟨start, hstart, stop, hstop, rfl⟩
    exact ⟨(start, stop), List.pair_mem_product.mpr ⟨hstart, hstop⟩, rfl⟩

/-- The candidates for source roots are at these places. -/
theorem rootCandidates_eq : Workspace.rootCandidates layout = layout.rootPlaces := by
  have hresolve : ∀ path : Path, layout.resolve path
      = if layout.baseDir.text = "" ∨ layout.baseDir.components = [.here] then path
        else layout.baseDir.join path := by
    intro path
    have hhere : Path.components ⟨"."⟩ = [.here] := by decide +kernel
    simp only [resolve, Path.isEmpty, Path.same, hhere, Bool.or_eq_true, String.isEmpty_iff,
      beq_iff_eq]
  have hplace : ∀ start stop : String, layout.resolve
        (if start = "." || start = "" then ⟨stop⟩ else Path.join ⟨start⟩ ⟨stop⟩)
      = layout.rootPlace start stop := by
    intro start stop
    simp only [hresolve, rootPlace, Bool.or_eq_true, decide_eq_true_eq]
  simp only [Workspace.rootCandidates, rootPlaces, hplace, List.product, List.map_flatMap,
    List.map_map, Function.comp_def]

end SourceLayout

/-- What the list of source roots promises. -/
structure Workspace.ExactRoots (w : Workspace) : Prop where
  /-- Every root is the place of a prefix and a suffix, and a directory. -/
  sound : ∀ root ∈ w.sourceRoots, w.files.isDirectory root = true
    ∧ ∃ start ∈ w.layout.sourceRootPrefixes, ∃ stop ∈ w.layout.sourceRootSuffixes,
      root = w.layout.rootPlace start stop
  /-- No directory at such a place is left out. -/
  complete : ∀ start ∈ w.layout.sourceRootPrefixes, ∀ stop ∈ w.layout.sourceRootSuffixes,
    w.files.isDirectory (w.layout.rootPlace start stop) = true →
      ∃ root ∈ w.sourceRoots, root.components = (w.layout.rootPlace start stop).components
  /-- No two roots have the same components. -/
  distinct : (w.sourceRoots.map Path.components).Nodup
  /-- The roots stand in the order of the places, each as it was spelled first. -/
  order : w.sourceRoots
    = firstOfEach Path.components (w.layout.rootPlaces.filter w.files.isDirectory)

theorem Workspace.exactRoots (w : Workspace) : w.ExactRoots := by
  have horder : w.sourceRoots
      = firstOfEach Path.components (w.layout.rootPlaces.filter w.files.isDirectory) := by
    rw [sourceRoots_eq, SourceLayout.rootCandidates_eq]
  refine { sound := fun root hroot => ?_, complete := ?_, distinct := ?_, order := horder }
  · rw [horder] at hroot
    obtain ⟨hplace, hdir⟩ := List.mem_filter.mp ((firstOfEach_sublist _).subset hroot)
    exact ⟨hdir, SourceLayout.mem_rootPlaces.mp hplace⟩
  · intro start hstart stop hstop hdir
    have hplace := SourceLayout.mem_rootPlaces.mpr ⟨start, hstart, stop, hstop, rfl⟩
    have hkey := List.mem_map_of_mem (f := Path.components)
      (List.mem_filter.mpr ⟨hplace, hdir⟩)
    rw [horder]
    exact List.mem_map.mp (mem_keys_firstOfEach.mpr hkey)
  · rw [horder]
    exact nodup_keys_firstOfEach _

/-! ## Packages -/

/-- What is replaced in the package of a test class, guess by guess, and in each guess one after
    the other. -/
def packageSwaps : List (List (String × String)) := [
  [(".test.junit.", "."), (".test.", ".")],
  [(".test.junit.search", ".service")],
  [(".test.junit", ".service")],
  [(".test", "")]]

/-- A package with the first texts replaced by the second ones. -/
def swapAll (package : List Char) (swaps : List (String × String)) : String :=
  String.ofList (swaps.foldl (fun text swap => Text.replace swap.1.toList swap.2.toList text)
    package)

/-- Whether packages are the guesses for a test class, without the empty one and each once: none if
    the class is in no package. -/
def PackagesBeside (testClass : String) (packages : List String) : Prop :=
  ('.' ∉ testClass.toList ∧ packages = [])
    ∨ ∃ own simple, testClass.toList = own ++ '.' :: simple ∧ '.' ∉ simple
      ∧ packages = firstOfEach id ((packageSwaps.map (swapAll own)).filter fun p => p ≠ "")

/-- The packages that are searched are the guesses. -/
theorem packagesBeside_iff {testClass : String} {packages : List String} :
    PackagesBeside testClass packages ↔ packages = productionPackages testClass := by
  rw [PackagesBeside, productionPackages]
  cases hown : Text.beforeLast? '.' testClass.toList with
  | none =>
      have hdot := Text.beforeLast?_eq_none_iff.mp hown
      rw [or_iff_left, and_iff_right hdot]
      rintro ⟨own, simple, hclass, -⟩
      exact hdot (hclass ▸ List.mem_append_right own List.mem_cons_self)
  | some own =>
      -- the package of the test class is all that the guesses depend on
      have hpackage : ∀ other, (∃ simple, testClass.toList = other ++ '.' :: simple ∧ '.' ∉ simple)
          ↔ own = other := by
        intro other
        rw [← Text.beforeLast?_eq_some_iff, hown, Option.some.injEq]
      obtain ⟨simple, hclass, -⟩ := (hpackage own).mpr rfl
      have hdot : '.' ∈ testClass.toList :=
        hclass ▸ List.mem_append_right own List.mem_cons_self
      rw [or_iff_right (fun h => h.1 hdot)]
      simp only [← and_assoc, exists_and_right, hpackage, exists_eq_left']
      rw [firstOfEach_id]
      rfl

/-! ## Names of test classes -/

/-- Whether a name without its test suffix is a base: the suffix is the first of the suffixes that
    the name ends in, and a name that ends in none of them stays. -/
def SourceLayout.StripsTo (layout : SourceLayout) (name base : List Char) : Prop :=
  (¬ layout.NamesTest name ∧ base = name)
    ∨ ∃ before suffix after, layout.testSuffixes = before ++ suffix :: after
      ∧ name = base ++ suffix.toList ∧ ∀ earlier ∈ before, ¬ earlier.toList <:+ name

/-- The name without its test suffix. -/
theorem SourceLayout.stripTestSuffix_stripsTo (layout : SourceLayout) (name : String) :
    layout.StripsTo name.toList (layout.stripTestSuffix name).toList := by
  rw [stripTestSuffix]
  cases hfound : layout.testSuffixes.findSome? fun suffix =>
      Text.dropFragmentEnd? suffix.toList name.toList with
  | none =>
      refine Or.inl ⟨?_, rfl⟩
      rintro ⟨suffix, hsuffix, hends⟩
      have hnone := List.findSome?_eq_none_iff.mp hfound suffix hsuffix
      exact Text.dropFragmentEnd?_eq_none.mp hnone hends
  | some base =>
      obtain ⟨before, suffix, after, hsplit, hdrop, hbefore⟩ :=
        List.findSome?_eq_some_iff.mp hfound
      refine Or.inr ⟨before, suffix, after, hsplit, ?_, fun earlier hearlier => ?_⟩
      · rw [Option.map_some, Option.getD_some, String.toList_ofList]
        exact Text.dropFragmentEnd?_eq_some.mp hdrop
      · exact Text.dropFragmentEnd?_eq_none.mp (hbefore earlier hearlier)

end FailureTriage
