import FailureTriage.Files.Walk
import FailureTriage.Proofs.Files.Listing
import FailureTriage.Proofs.Files.Steps
import FailureTriage.Proofs.Paths.Joining

/-!
# Paths into a directory

What is reached from a directory by the names of entries lies below it, and a path to a file does
not end with a step that stays or goes up.

* `Proper`: a tree whose entries have names that a path can say.
* `WalksTo`, `mem_walk_iff`: what a walk finds, and that it goes down from its root.
* `goesDown_of_isFile`: what a path to a file ends with.
-/

namespace FailureTriage.FileTree

variable {tree : FileTree} {root path : Path} {name : String} {dir : Location}

/-- A name that an entry may have. -/
def IsEntryName (name : String) : Prop :=
  name ≠ "" ∧ name ≠ "." ∧ name ≠ ".." ∧ '/' ∉ name.toList

/-- A tree whose entries have names that a path can say. -/
def Proper (tree : FileTree) : Prop :=
  ∀ e ∈ tree.entries, ∀ name ∈ e.1, IsEntryName name

instance : Decidable (IsEntryName name) :=
  inferInstanceAs (Decidable (_ ∧ _ ∧ _ ∧ _))

instance : Decidable tree.Proper :=
  inferInstanceAs (Decidable (∀ e ∈ tree.entries, ∀ name ∈ e.1, IsEntryName name))

/-- An entry of a directory is below the directory. -/
theorem isBelow_name (hroot : root.isEmpty = false) (hname : IsEntryName name) :
    (root.join ⟨name⟩).IsBelow root := by
  obtain ⟨hne, hhere, hup, hseparator⟩ := hname
  have hpieces : Path.pieces ⟨name⟩ = [name.toList] := Text.splitOn_of_not_mem hseparator
  refine Path.isBelow_join hroot ?_ ?_ ?_
  · rw [Path.isAbsolute, beq_eq_false_iff_ne]
    exact fun h => hseparator (List.mem_of_head? h)
  · rwa [Path.isEmpty, ← Bool.not_eq_true, String.isEmpty_iff]
  · intro piece hpiece
    rw [hpieces] at hpiece
    rw [List.mem_singleton.mp hpiece]
    exact ⟨fun h => hhere (String.toList_inj.mp h), fun h => hup (String.toList_inj.mp h)⟩

/-- What a walk spells is below its root. -/
theorem isBelow_pathTo (hroot : root.isEmpty = false) {names : Location} (hne : names ≠ [])
    (hnames : ∀ name ∈ names, IsEntryName name) :
    (WalkRoot.pathTo ⟨root, dir⟩ names).IsBelow root := by
  rw [WalkRoot.pathTo]
  dsimp only
  induction names generalizing root with
  | nil => exact absurd rfl hne
  | cons name names ih =>
      have hfirst := isBelow_name hroot (hnames name List.mem_cons_self)
      rw [List.foldl_cons]
      cases names with
      | nil => exact hfirst
      | cons second names =>
          have hlater := @ih (root.join ⟨name⟩) (Path.isEmpty_join hroot) (List.cons_ne_nil _ _)
            fun name hname => hnames name (List.mem_cons_of_mem _ hname)
          exact hlater.trans hfirst

/-- Whether a path is one of an entry below a directory, spelled as the names that lead there from
    the directory, where neither that entry is left out nor a directory on the way to it. -/
def WalksTo (tree : FileTree) (root path : Path) : Prop :=
  root.components ≠ [.name "-"] ∧ ∃ dir names entry,
    tree.find? root = some (dir, .directory) ∧ names ≠ [] ∧ (dir ++ names, entry) ∈ tree.entries
    ∧ path = names.foldl (fun path name => path.join ⟨name⟩) root
    ∧ ∀ depth < names.length, (RuleBook.ofTree tree).skips ⟨root, dir⟩ (names.take (depth + 1))
        (depth + 1 < names.length || entry.isDirectory) = false

/-- Nothing on the way to an entry is left out. -/
theorem reaches_iff {book : RuleBook} {start : WalkRoot} {names : Location} {entry : FileEntry} :
    reaches book start names entry = true
      ↔ ∀ depth < names.length, book.skips start (names.take (depth + 1))
        (depth + 1 < names.length || entry.isDirectory) = false := by
  simp only [reaches, List.all_eq_true, List.mem_range, Bool.not_eq_true']

/-- What a walk finds below its root. -/
theorem mem_walk_iff (hdir : tree.isDirectory root = true) :
    path ∈ tree.walk root ↔ tree.WalksTo root path := by
  obtain ⟨dir, hfind⟩ := isDirectory_iff.mp hdir
  have hdash : root.same ⟨"-"⟩ = true ↔ root.components = [.name "-"] := by
    have hname : Path.components ⟨"-"⟩ = [.name "-"] := by decide +kernel
    rw [Path.same, beq_iff_eq, hname]
  rw [walk, WalksTo, hfind]
  by_cases hstdin : root.same ⟨"-"⟩ = true
  · rw [if_pos hstdin]
    exact ⟨fun h => absurd h List.not_mem_nil, fun h => absurd (hdash.mp hstdin) h.1⟩
  rw [if_neg hstdin, and_iff_right (fun h => hstdin (hdash.mpr h))]
  dsimp only
  rw [List.mem_filterMap]
  constructor
  · rintro ⟨⟨place, entry⟩, hentry, hspelled⟩
    obtain ⟨names, hbelow, hspelled⟩ := Option.bind_eq_some_iff.mp hspelled
    obtain ⟨rfl, hne⟩ := below?_eq_some_iff.mp hbelow
    split at hspelled
    · rename_i hreach
      exact ⟨dir, names, entry, rfl, hne, hentry, (Option.some.inj hspelled).symm,
        reaches_iff.mp hreach⟩
    · cases hspelled
  · rintro ⟨place, names, entry, hplace, hne, hentry, rfl, hreach⟩
    obtain ⟨rfl, -⟩ := Prod.mk.inj (Option.some.inj hplace)
    refine ⟨(dir ++ names, entry), hentry, Option.bind_eq_some_iff.mpr ⟨names, ?_, ?_⟩⟩
    · exact below?_eq_some_iff.mpr ⟨rfl, hne⟩
    · rw [if_pos (reaches_iff.mpr hreach)]
      rfl

/-- **A walk goes down** from its root. -/
theorem WalksTo.isBelow (h : tree.WalksTo root path) (hproper : tree.Proper)
    (hroot : root.isEmpty = false) : path.IsBelow root := by
  obtain ⟨-, dir, names, entry, -, hne, hentry, rfl, -⟩ := h
  have hbelow : (WalkRoot.pathTo ⟨root, dir⟩ names).IsBelow root :=
    isBelow_pathTo hroot hne fun name hname =>
      hproper _ hentry name (List.mem_append_right dir hname)
  exact hbelow

/-! ## The last step of a path -/

/-- **A path to a file** does not end with a piece that stays or goes up. -/
theorem goesDown_of_isFile (h : tree.isFile path = true) {parts : List (List Char)}
    {last : List Char} (hpieces : path.pieces = parts ++ [last]) : Path.GoesDown last := by
  have hnot : ∀ step, stepOf? last = some step → (∀ name, step ≠ .into name) → False := by
    intro step hstep hlast
    -- a separator at the end is one more step that stays
    obtain ⟨steps, final, hsteps, hfinal⟩ : ∃ steps final, stepsOf path = steps ++ [final]
        ∧ ∀ name, final ≠ .into name := by
      have hpiece : (Text.splitOn '/' path.text.toList).filterMap stepOf?
          = parts.filterMap stepOf? ++ [step] := by
        rw [show Text.splitOn '/' path.text.toList = parts ++ [last] from hpieces,
          List.filterMap_append, List.filterMap_cons, hstep]
        rfl
      rw [stepsOf, hpiece]
      split
      · exact ⟨_, .inside, rfl, by simp⟩
      · exact ⟨_, step, List.append_nil _, hlast⟩
    rw [isFile] at h
    split at h
    · rename_i hfind
      obtain ⟨-, hleads⟩ := find?_eq_some_iff.mp hfind
      rw [Way.ofPath, hsteps] at hleads
      obtain ⟨place, hspot⟩ := hleads.directory_of_last hfinal
      cases hspot
    · cases h
  constructor
  · rintro rfl
    exact hnot .stay rfl (by simp)
  · rintro rfl
    exact hnot .up rfl (by simp)

end FailureTriage.FileTree
