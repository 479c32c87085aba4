import FailureTriage.Files.Ignore

/-!
# Looking for source files

The files with an extension below a directory, or directly in it, in the order of their paths.

* `FileTree.sourceFiles` goes down from a root and leaves out what is hidden or ignored; links
  below the root are not followed.
* `FileTree.filesIn` takes the files directly in a directory, whatever the ignore files say.
-/

namespace FailureTriage.FileTree

/-- Whether a path leads to a file and has an extension. -/
def isSource (tree : FileTree) (extension : String) (path : Path) : Bool :=
  tree.isFile path && path.extension? == some extension

/-- Paths in increasing order. -/
def sortPaths (paths : List Path) : List Path :=
  paths.mergeSort Path.atMost

/-- What leads from a directory to a location below it. -/
private def below? (dir place : Location) : Option Location :=
  if place.length > dir.length && dir.isPrefixOf place then some (place.drop dir.length) else none

/-- The names that lead to a location below a directory come after the location of the directory. -/
theorem below?_eq_some_iff {dir place names : Location} :
    below? dir place = some names ↔ place = dir ++ names ∧ names ≠ [] := by
  rw [below?]
  constructor
  · intro h
    split at h
    · rename_i hlong
      obtain ⟨hlength, hprefix⟩ := (Bool.and_eq_true _ _).mp hlong
      obtain ⟨more, rfl⟩ := List.isPrefixOf_iff_prefix.mp hprefix
      rw [List.drop_left] at h
      obtain rfl := Option.some.inj h
      refine ⟨rfl, ?_⟩
      rintro rfl
      exact absurd (of_decide_eq_true hlength) (by simp)
    · cases h
  · rintro ⟨rfl, hne⟩
    have hlength : dir.length < (dir ++ names).length := by
      rw [List.length_append]
      exact Nat.lt_add_of_pos_right (List.length_pos_iff.mpr hne)
    rw [if_pos, List.drop_left]
    rw [Bool.and_eq_true, decide_eq_true_eq, List.isPrefixOf_iff_prefix]
    exact ⟨hlength, List.prefix_append dir names⟩

/--
Whether an entry below the root of a walk is reached: nothing on the way to it, from the root on,
is left out.
-/
def reaches (book : RuleBook) (root : WalkRoot) (names : Location) (entry : FileEntry) : Bool :=
  (List.range names.length).all fun depth =>
    let onTheWay := depth + 1 < names.length
    !book.skips root (names.take (depth + 1)) (onTheWay || entry.isDirectory)

/-- The paths of all entries that are reached from a root. -/
def walk (tree : FileTree) (root : Path) : List Path :=
  if root.same ⟨"-"⟩ then []
  else match tree.find? root with
    | some (dir, .directory) =>
      let book := RuleBook.ofTree tree
      let start : WalkRoot := ⟨root, dir⟩
      tree.entries.filterMap fun (place, entry) => do
        let names ← below? dir place
        if reaches book start names entry then some (start.pathTo names) else none
    | some _ => [root]
    | none => []

/-- The source files below a root, in the order of their paths. -/
def sourceFiles (tree : FileTree) (root : Path) (extension : String) : List Path :=
  sortPaths ((tree.walk root).filter (tree.isSource extension))

/-- The source files directly in a directory, in the order of their paths. -/
def filesIn (tree : FileTree) (dir : Path) (extension : String) : List Path :=
  match tree.list dir with
  | .ok names =>
    sortPaths ((names.map fun name => dir.join ⟨name⟩).filter (tree.isSource extension))
  | .error _ => []

end FailureTriage.FileTree
