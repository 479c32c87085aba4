import FailureTriage.Proofs.Files.Directories
import FailureTriage.Proofs.Files.Listing
import FailureTriage.Proofs.Files.StoredDocument

/-!
# A file that is written over

A file that is put where a file was, or nothing, changes what a path leads to only if the path
leads to that place.  A path to a file ends with the name of the file or with the name of a link.

* `Spot.filled`, `reachFrom_put`: what a path leads to, said as a change of what it led to.
* `findFrom?_put`, `findFrom?_put_eq_directory`: what stays the same.
* `exists_into_of_file`: what a path to a file ends with.
* `Seats`, `Seats.put`: where the file of a path goes, before and after another one is put.
* `Takes`, `takes_of_written`, `Takes.write`: a directory that a document can be written in again.
-/

namespace FailureTriage

/-- A spot after a file was put at a location. -/
def Spot.filled (place : Location) (content : ByteArray) : Spot → Spot
  | .entry seat (.file before) => .entry seat (.file (if seat = place then content else before))
  | .vacant seat => if seat = place then .entry seat (.file content) else .vacant seat
  | spot => spot

namespace Spot

variable {spot : Spot} {place seat : Location} {content : ByteArray}

/-- The entry at a spot, and its location. -/
def found? : Spot → Option (Location × FileEntry)
  | .entry place found => some (place, found)
  | .vacant _ => none

/-- Elsewhere nothing is different. -/
theorem filled_of_not_isSeat (h : ¬ spot.IsSeat place) : spot.filled place content = spot := by
  match spot with
  | .entry seat (.file before) => exact congrArg (fun c => entry seat (.file c)) (if_neg h)
  | .vacant seat => exact if_neg h
  | .entry _ .directory => rfl
  | .entry _ (.link _) => rfl

theorem filled_of_isSeat (h : spot.IsSeat place) :
    spot.filled place content = .entry place (.file content) := by
  match spot with
  | .entry seat (.file before) =>
      obtain rfl : seat = place := h
      exact congrArg (fun c => entry seat (.file c)) (if_pos rfl)
  | .vacant seat =>
      obtain rfl : seat = place := h
      exact if_pos rfl
  | .entry _ .directory => exact h.elim
  | .entry _ (.link _) => exact h.elim

theorem filled_eq_directory :
    spot.filled place content = .entry seat .directory ↔ spot = .entry seat .directory := by
  by_cases h : spot.IsSeat place
  · rw [filled_of_isSeat h]
    refine iff_of_false nofun ?_
    rintro rfl
    exact h.elim
  · rw [filled_of_not_isSeat h]

/-- A file goes to one location only. -/
theorem IsSeat.unique {other : Location} (h : spot.IsSeat place) (hother : spot.IsSeat other) :
    place = other := by
  match spot with
  | .entry seat (.file before) => exact h.symm.trans hother
  | .vacant seat => exact h.symm.trans hother
  | .entry _ .directory => exact h.elim
  | .entry _ (.link _) => exact h.elim

end Spot

namespace FileTree

variable {tree : FileTree} {ending : Ending} {dir place seat : Location} {content : ByteArray}
  {path : Path} {way : Way} {spot : Spot}

/-! ## What a path leads to -/

/-- What is no file is the same after a file was put where a file was, or nothing. -/
theorem entryAt?_put_iff (hfree : tree.IsFree place) {entry : FileEntry}
    (hentry : ∀ content, entry ≠ .file content) :
    (tree.put place (.file content)).entryAt? seat = some entry
      ↔ tree.entryAt? seat = some entry := by
  rw [entryAt?_put hfree.ne_nil]
  split
  · rename_i hseat
    rw [hseat]
    refine iff_of_false (fun h => hentry content (Option.some.inj h).symm) fun h => ?_
    rcases hfree with hnone | ⟨before, hbefore⟩
    · cases hnone.symm.trans h
    · exact hentry before (Option.some.inj (h.symm.trans hbefore))
  · rfl

/-- Where a run ends after a file was put at a location. -/
theorem Ends.put (h : Ends tree ending way spot) (hfree : tree.IsFree place)
    (content : ByteArray) :
    Ends (tree.put place (.file content)) ending way (spot.filled place content) := by
  cases h with
  | here => exact .here
  | link henter hentry hending =>
      exact .link henter ((entryAt?_put_iff hfree (by nofun)).mpr hentry) hending
  | @vacant links dir name henter hentry =>
      by_cases hseat : (Spot.vacant (dir ++ [name])).IsSeat place
      · rw [Spot.filled_of_isSeat hseat]
        obtain rfl : dir ++ [name] = place := hseat
        exact .file henter (by rw [entryAt?_put hfree.ne_nil, if_pos rfl])
      · rw [Spot.filled_of_not_isSeat hseat]
        exact .vacant henter ((entryAt?_put hfree.ne_nil _ _).trans ((if_neg hseat).trans hentry))
  | @file links dir name before henter hentry =>
      by_cases hseat : (Spot.entry (dir ++ [name]) (.file before)).IsSeat place
      · rw [Spot.filled_of_isSeat hseat]
        obtain rfl : dir ++ [name] = place := hseat
        exact .file henter (by rw [entryAt?_put hfree.ne_nil, if_pos rfl])
      · rw [Spot.filled_of_not_isSeat hseat]
        exact .file henter ((entryAt?_put hfree.ne_nil _ _).trans ((if_neg hseat).trans hentry))

/-- Where a run ended before a file was put at a location. -/
theorem Ends.of_put (hfree : tree.IsFree place)
    (h : Ends (tree.put place (.file content)) ending way spot) :
    ∃ before, Ends tree ending way before := by
  cases h with
  | here => exact ⟨_, .here⟩
  | link henter hentry hending =>
      exact ⟨_, .link henter ((entryAt?_put_iff hfree (by nofun)).mp hentry) hending⟩
  | vacant henter hentry =>
      rw [entryAt?_put hfree.ne_nil] at hentry
      split at hentry
      · cases hentry
      · exact ⟨_, .vacant henter hentry⟩
  | file henter hentry =>
      rw [entryAt?_put hfree.ne_nil] at hentry
      split at hentry
      · rename_i hplace
        rcases hfree with hnone | ⟨before, hbefore⟩
        · exact ⟨_, .vacant henter (hplace ▸ hnone)⟩
        · exact ⟨_, .file henter (hplace ▸ hbefore)⟩
      · exact ⟨_, .file henter hentry⟩

/-- **What a run leads to** after a file was put at a location is what it led to, except at that
    location. -/
theorem leads_put_iff (hfree : tree.IsFree place) :
    (tree.put place (.file content)).Leads ending way spot
      ↔ ∃ before, tree.Leads ending way before ∧ before.filled place content = spot := by
  have hafter : ∀ way before, tree.Leads ending way before →
      (tree.put place (.file content)).Leads ending way (before.filled place content) := by
    intro way before h
    induction h with
    | done hends => exact .done (hends.put hfree content)
    | step hmove _ ih =>
        exact .step (hmove.of_entries fun _ _ hne => (entryAt?_put_iff hfree hne).mpr) ih
  have hbefore : ∀ way spot, (tree.put place (.file content)).Leads ending way spot →
      ∃ before, tree.Leads ending way before := by
    intro way spot h
    induction h with
    | done hends => exact (hends.of_put hfree).imp fun _ => .done
    | step hmove _ ih =>
        exact ih.imp fun _ =>
          .step (hmove.of_entries fun _ _ hne => (entryAt?_put_iff hfree hne).mp)
  constructor
  · intro h
    obtain ⟨before, hleads⟩ := hbefore way spot h
    exact ⟨before, hleads, (hafter way before hleads).unique h⟩
  · rintro ⟨before, hleads, rfl⟩
    exact hafter way before hleads

/-- **What a path leads to** after a file was put at a location is what it led to, except at that
    location. -/
theorem reachFrom_put (hfree : tree.IsFree place) (content : ByteArray) (ending : Ending)
    (dir : Location) (path : Path) :
    ((tree.put place (.file content)).reachFrom ending dir path).toOption
      = (tree.reachFrom ending dir path).toOption.map (.filled place content) := by
  refine Option.ext fun spot => ?_
  simp only [Option.map_eq_some_iff, toOption_eq_some_iff, reachFrom_eq_ok_iff,
    leads_put_iff hfree, and_assoc, exists_and_left]

theorem findFrom?_eq (dir : Location) (path : Path) :
    tree.findFrom? dir path = (tree.reachFrom .target dir path).toOption.bind Spot.found? := by
  rw [findFrom?]
  cases tree.reachFrom .target dir path with
  | error fault => rfl
  | ok spot => cases spot <;> rfl

/-- **A file that is put at a location** changes nothing for a path that does not lead there. -/
theorem findFrom?_put (hfree : tree.IsFree place)
    (hnot : ∀ found,
      (tree.put place (.file content)).findFrom? dir path ≠ some (place, .file found)) :
    (tree.put place (.file content)).findFrom? dir path = tree.findFrom? dir path := by
  rw [findFrom?_eq, reachFrom_put hfree] at hnot ⊢
  rw [findFrom?_eq]
  cases hspot : (tree.reachFrom .target dir path).toOption with
  | none => rfl
  | some spot =>
      rw [hspot] at hnot
      by_cases hseat : spot.IsSeat place
      · rw [Option.map_some, Spot.filled_of_isSeat hseat] at hnot
        exact absurd rfl (hnot _)
      · rw [Option.map_some, Spot.filled_of_not_isSeat hseat]

/-- A file that is put at a location changes nothing for paths to directories. -/
theorem findFrom?_put_eq_directory (hfree : tree.IsFree place) (content : ByteArray) :
    (tree.put place (.file content)).findFrom? dir path = some (seat, .directory)
      ↔ tree.findFrom? dir path = some (seat, .directory) := by
  rw [findFrom?_eq, reachFrom_put hfree, findFrom?_eq]
  have hfound : ∀ spot : Spot,
      spot.found? = some (seat, .directory) ↔ spot = .entry seat .directory := by
    intro spot
    cases spot <;> simp [Spot.found?]
  cases (tree.reachFrom .target dir path).toOption with
  | none => rfl
  | some spot =>
      rw [Option.map_some, Option.bind_some, Option.bind_some, hfound, hfound,
        Spot.filled_eq_directory]

theorem leadsTo_put (hfree : tree.IsFree place) (content : ByteArray) :
    (tree.put place (.file content)).LeadsTo path dir ↔ tree.LeadsTo path dir := by
  rw [leadsTo_iff, leadsTo_iff, leads_put_iff hfree, workingDir_put]
  simp only [Spot.filled_eq_directory, exists_eq_right]

/-! ## What a path to a file ends with -/

/-- **A path to a file** ends with the name of the file or with the name of a link. -/
theorem exists_into_of_file (h : tree.findFrom? dir path = some (place, .file content)) :
    ∃ steps name folder, stepsOf path = steps ++ [.into name]
      ∧ (place = folder ++ [name] ∨ tree.LinkLeadsTo folder name place) := by
  have hleads := (findFrom?_eq_some_iff.mp h).2
  rw [Way.ofPath] at hleads
  rcases List.eq_nil_or_concat (stepsOf path) with hnil | ⟨steps, last, hlast⟩
  · rw [hnil] at hleads
    cases hleads.unique (.done .here)
  · rw [hlast, List.concat_eq_append] at hleads ⊢
    obtain ⟨folder, left, -, hreached⟩ := hleads.exists_stop (List.cons_ne_nil _ _)
    cases last with
    | stay | inside | up =>
        obtain ⟨place, hspot⟩ := hleads.directory_of_last (by simp)
        cases hspot
    | into name => exact ⟨steps, name, folder, rfl, linkLeadsTo_of_last hreached⟩

/-! ## Where a file is written -/

/-- Whether a file that is written at a path goes to a location. -/
def Seats (tree : FileTree) (path : Path) (place : Location) : Prop :=
  ∃ spot, tree.reachFrom .file tree.workingDir path = .ok spot ∧ spot.IsSeat place

theorem Seats.isFree (h : tree.Seats path place) : tree.IsFree place := by
  obtain ⟨spot, hreach, hseat⟩ := h
  exact isFree_of_isSeat (reachFrom_liesIn hreach) hseat

/-- A file is written where its path leads. -/
theorem write_of_seats (h : tree.Seats path place) (content : ByteArray) :
    tree.write path content = .ok (tree.put place (.file content)) := by
  obtain ⟨spot, hreach, hseat⟩ := h
  unfold write
  rw [hreach]
  match spot with
  | .vacant seat =>
      obtain rfl : seat = place := hseat
      rfl
  | .entry seat (.file before) =>
      obtain rfl : seat = place := hseat
      rfl
  | .entry _ .directory => exact hseat.elim
  | .entry _ (.link _) => exact hseat.elim

theorem exists_seats_of_write {tree' : FileTree} (h : tree.write path content = .ok tree') :
    ∃ place, tree.Seats path place ∧ tree' = tree.put place (.file content) := by
  obtain ⟨spot, place, hreach, hseat, hput⟩ := write_eq_ok h
  exact ⟨place, ⟨spot, hreach, hseat⟩, hput⟩

/-- A file that was put where its path leads is found there. -/
theorem Seats.find?_put (h : tree.Seats path place) (content : ByteArray) :
    (tree.put place (.file content)).find? path = some (place, .file content) := by
  have hfree := h.isFree
  obtain ⟨spot, hreach, hseat⟩ := h
  refine find?_of_reach ?_
  rw [reach, workingDir_put]
  exact reachFrom_of_grows (grows_put hfree content) (by rw [entryAt?_put hfree.ne_nil, if_pos rfl])
    hreach hseat

/-- **A file of a directory** goes there by its name, unless that is the name of a link. -/
theorem Seats.eq_of_join {folder : Path} {name : String}
    (h : tree.Seats (folder.join ⟨name⟩) place) (hname : IsEntryName name)
    (hdir : tree.LeadsTo folder dir)
    (hplain : ∀ target, tree.entryAt? (dir ++ [name]) ≠ some (.link target)) :
    place = dir ++ [name] := by
  have hfree := h.isFree
  obtain ⟨other, hleads, hplace⟩ := exists_dir_of_join hname (h.find?_put .empty)
  have hsame := Except.ok.inj (((leadsTo_put hfree .empty).mp hleads).symm.trans hdir)
  obtain ⟨rfl, -⟩ := Spot.entry.inj hsame
  rcases hplace with hplace | ⟨target, links, entry, hlink, -⟩
  · exact hplace
  · rw [entryAt?_put hfree.ne_nil] at hlink
    split at hlink
    · cases hlink
    · exact absurd hlink (hplain target)

/-- A free place stays free when a file is put somewhere. -/
theorem IsFree.put (h : tree.IsFree place) (hfree : tree.IsFree seat) (content : ByteArray) :
    (tree.put seat (.file content)).IsFree place := by
  rw [IsFree, entryAt?_put hfree.ne_nil]
  by_cases hplace : place = seat
  · rw [if_pos hplace]
    exact Or.inr ⟨content, rfl⟩
  · rw [if_neg hplace]
    exact h

/-- **A file goes to the same place** when another one has been put somewhere. -/
theorem Seats.put (h : tree.Seats path place) (hfree : tree.IsFree seat) (content : ByteArray) :
    (tree.put seat (.file content)).Seats path place := by
  obtain ⟨spot, hreach, hseat⟩ := h
  refine ⟨spot.filled seat content, ?_, ?_⟩
  · rw [workingDir_put, ← toOption_eq_some_iff, reachFrom_put hfree, hreach]
    rfl
  · by_cases hsame : spot.IsSeat seat
    · rw [Spot.filled_of_isSeat hsame]
      exact hsame.unique hseat
    · rwa [Spot.filled_of_not_isSeat hsame]

/-! ## The other entries -/

/-- Entries that are read without what is at a location are read alike after a file was put
    there. -/
theorem filterMap_entries_put {β : Type} {read : Location × FileEntry → Option β}
    (h : ∀ entry, read (place, entry) = none) (entry : FileEntry) :
    (tree.put place entry).entries.filterMap read = tree.entries.filterMap read := by
  rw [FileTree.put]
  split
  · rw [List.filterMap_map]
    refine List.filterMap_congr ?_
    rintro ⟨seen, found⟩ -
    rw [Function.comp_apply]
    by_cases hseen : seen = place
    · rw [if_pos (beq_iff_eq.mpr hseen), hseen, h, h]
    · rw [if_neg (by simpa using hseen)]
  · rw [List.filterMap_append, List.filterMap_cons_none (h entry)]
    exact List.append_nil _

/-! ## Documents of a directory that is there -/

/-- Whether a document of a name goes into a directory that is there. -/
structure Takes (tree : FileTree) (folder : Path) (dir : Location) (name : String) : Prop where
  leads : tree.LeadsTo folder dir
  seats : tree.Seats (folder.join ⟨name⟩) (dir ++ [name])
  parent : ∀ parent, documentDir? (folder.join ⟨name⟩) = some parent →
    tree.isDirectory parent = true

variable {folder : Path} {name text : String} {tree' : FileTree}

/-- A document is written in its directory. -/
theorem Takes.write (h : tree.Takes folder dir name) (hname : IsEntryName name) (text : String) :
    writeDocumentText tree (folder.join ⟨name⟩) text
      = (tree.put (dir ++ [name]) (.file text.toUTF8), .ok ()) := by
  obtain ⟨hfiles, hmade⟩ := makeDocumentDir_eq hname h.leads
  have hdocument : makeDocumentDir tree (folder.join ⟨name⟩) = (tree, .ok ()) :=
    Prod.ext hfiles (hmade.mpr h.parent)
  rw [writeDocumentText, hdocument]
  dsimp only
  rw [writeText, write_of_seats h.seats]

/-- **A document that was written** in a directory goes there again, unless it is a link. -/
theorem takes_of_written (hname : IsEntryName name) (hdir : tree.LeadsTo folder dir)
    (hplain : ∀ target, tree.entryAt? (dir ++ [name]) ≠ some (.link target))
    (h : writeDocumentText tree (folder.join ⟨name⟩) text = (tree', .ok ())) :
    tree.Takes folder dir name := by
  obtain ⟨hfiles, hmade⟩ := makeDocumentDir_eq hname hdir
  have hwritten := writeDocumentText_eq_ok h
  rw [hfiles] at hwritten
  obtain ⟨place, hseats, -⟩ := exists_seats_of_write hwritten
  obtain rfl := hseats.eq_of_join hname hdir hplain
  refine ⟨hdir, hseats, hmade.mp ?_⟩
  rw [writeDocumentText] at h
  split at h
  · exact nomatch (Prod.mk.inj h).2
  · rename_i hwell
    rw [hwell]

/-- A directory takes a document after another one has been put somewhere. -/
theorem Takes.put (h : tree.Takes folder dir name) (hfree : tree.IsFree seat)
    (content : ByteArray) : (tree.put seat (.file content)).Takes folder dir name where
  leads := (leadsTo_put hfree content).mpr h.leads
  seats := h.seats.put hfree content
  parent := by
    intro parent hparent
    obtain ⟨place, hfound⟩ := isDirectory_iff.mp (h.parent parent hparent)
    refine isDirectory_iff.mpr ⟨place, ?_⟩
    rw [find?, workingDir_put]
    exact (findFrom?_put_eq_directory hfree content).mpr hfound

end FileTree

end FailureTriage
