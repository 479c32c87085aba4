import FailureTriage.Proofs.Files.Growth

/-!
# What lies directly in a directory

The names that a directory lists are those of its entries, and a file that is put into the
directory is one more of them.

* `list_eq_ok`, `mem_namesAt`: which names are listed.
* `namesAt_put`: the names after a file was put into the directory.
* `read_of_find?`, `isFile_congr`: what is known of a file from what its path leads to.
-/

namespace FailureTriage.FileTree

variable {tree tree' : FileTree} {dir path : Path}

/-! ## Names -/

theorem nameIn?_eq_some {place dir : Location} {name : String} :
    nameIn? dir place = some name ↔ place = dir ++ [name] := by
  rw [nameIn?]
  constructor
  · intro h
    split at h
    · rename_i hdir
      obtain ⟨front, rfl⟩ := List.getLast?_eq_some_iff.mp h
      rw [← hdir, List.dropLast_concat]
    · cases h
  · rintro rfl
    rw [List.dropLast_concat, if_pos rfl, List.getLast?_concat]

theorem mem_namesAt {place : Location} {name : String} :
    name ∈ tree.namesAt place ↔ ∃ entry, (place ++ [name], entry) ∈ tree.entries := by
  rw [namesAt, List.mem_filterMap]
  constructor
  · rintro ⟨⟨found, entry⟩, hmem, hname⟩
    exact ⟨entry, nameIn?_eq_some.mp hname ▸ hmem⟩
  · rintro ⟨entry, hmem⟩
    exact ⟨_, hmem, nameIn?_eq_some.mpr rfl⟩

/-- The names in a directory are listed exactly if the path leads to one. -/
theorem list_eq_ok {names : List String} :
    tree.list dir = .ok names
      ↔ ∃ place, tree.find? dir = some (place, .directory) ∧ names = tree.namesAt place := by
  rw [list, find?, findFrom?, reach]
  rcases tree.reachFrom .target tree.workingDir dir with
    fault | ⟨place, content | target | _⟩ | ⟨place⟩
  case ok.entry.directory =>
    constructor
    · exact fun h => ⟨place, rfl, (Except.ok.inj h).symm⟩
    · rintro ⟨other, hplace, hnames⟩
      rw [hnames, (Prod.mk.inj (Option.some.inj hplace)).1]
      rfl
  -- nothing but a directory has entries
  all_goals
    constructor
    · rintro ⟨⟩
    · rintro ⟨other, hplace, -⟩
      cases hplace

/-- Nothing has the name of an entry that is not there. -/
theorem not_mem_namesAt {place : Location} {name : String}
    (h : tree.entryAt? (place ++ [name]) = none) : name ∉ tree.namesAt place := by
  rw [mem_namesAt]
  rintro ⟨entry, hmem⟩
  rw [entryAt?, if_neg (by simp), List.lookup_eq_none_iff] at h
  simpa using h _ hmem

/-- **A new entry** is listed after the others. -/
theorem namesAt_put {place : Location} {name : String}
    (hvacant : tree.entryAt? (place ++ [name]) = none) (entry : FileEntry) :
    (tree.put (place ++ [name]) entry).namesAt place = tree.namesAt place ++ [name] := by
  have hnone : ¬ tree.entries.any (·.1 == place ++ [name]) = true := by
    rw [entryAt?, if_neg (by simp), List.lookup_eq_none_iff] at hvacant
    rw [List.any_eq_true]
    rintro ⟨found, hmem, hplace⟩
    simpa [beq_iff_eq.mp hplace] using hvacant found hmem
  rw [put, if_neg hnone, namesAt, List.filterMap_append, ← namesAt, List.filterMap_cons,
    nameIn?_eq_some.mpr rfl]
  rfl

/-! ## Files -/

/-- A file that is found can be read. -/
theorem read_of_find? {place : Location} {content : ByteArray}
    (h : tree.find? path = some (place, .file content)) : tree.read path = .ok content := by
  rw [find?, findFrom?] at h
  rw [read, readFrom]
  split at h
  · rename_i hreach
    cases h
    rw [hreach]
    rfl
  · cases h

theorem isFile_iff :
    tree.isFile path = true ↔ ∃ place content, tree.find? path = some (place, .file content) := by
  rw [isFile]
  constructor
  · intro h
    split at h
    · exact ⟨_, _, ‹_›⟩
    · cases h
  · rintro ⟨place, content, h⟩
    rw [h]

theorem isDirectory_iff :
    tree.isDirectory path = true ↔ ∃ place, tree.find? path = some (place, .directory) := by
  rw [isDirectory]
  constructor
  · intro h
    split at h
    · exact ⟨_, ‹_›⟩
    · cases h
  · rintro ⟨place, h⟩
    rw [h]

/-- Whether there is a file depends on what the path leads to. -/
theorem isFile_congr (h : tree'.find? path = tree.find? path) :
    tree'.isFile path = tree.isFile path := by
  rw [isFile, isFile, h]

/-- What is read of a file depends on what the path leads to. -/
theorem read_congr (h : tree'.find? path = tree.find? path) (hfile : tree.isFile path = true) :
    tree'.read path = tree.read path := by
  obtain ⟨place, content, hfound⟩ := isFile_iff.mp hfile
  rw [read_of_find? hfound, read_of_find? (h.trans hfound)]

theorem readText_congr (h : tree'.find? path = tree.find? path) (hfile : tree.isFile path = true) :
    tree'.readText path = tree.readText path := by
  rw [readText, readText, read_congr h hfile]

end FailureTriage.FileTree
