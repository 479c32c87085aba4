import FailureTriage.Files.Change
import FailureTriage.Proofs.Files.Steps
import FailureTriage.Proofs.Lists.Lookup
import FailureTriage.Proofs.Results

/-!
# Trees that only grow

Writing a file and making directories leave every other entry as it is, so a path goes on leading
where it led.

* `Keeps`, `Grows`, `OnlyMakes`: what a later tree has of an earlier one.
* `reachFrom_of_grows`: a path to a file, or to a place where one was put since.
* `write_eq_ok`, `onlyMakes_makeDirectories`: what the two changes do.
-/

namespace FailureTriage

/-- Whether a later entry stands for an earlier one; a file may have another content. -/
def FileEntry.SameSort : FileEntry → FileEntry → Prop
  | .file _, .file _ => True
  | .link target, .link target' => target = target'
  | .directory, .directory => True
  | _, _ => False

theorem FileEntry.sameSort_refl (entry : FileEntry) : entry.SameSort entry := by
  cases entry <;> simp [SameSort]

namespace Spot

/-- Whether a file is, or may be put, at a location. -/
def IsSeat : Spot → Location → Prop
  | .entry place (.file _), seat => place = seat
  | .vacant place, seat => place = seat
  | _, _ => False

/-- Whether a tree has at a spot what the spot says. -/
def LiesIn (tree : FileTree) : Spot → Prop
  | .entry place (.file content) => tree.entryAt? place = some (.file content)
  | .entry _ _ => True
  | .vacant place => tree.entryAt? place = none

end Spot

namespace FileTree

variable {tree tree' mid : FileTree} {ending : Ending} {path : Path} {dir place : Location}
  {spot : Spot} {content : ByteArray} {way next : Way}

/-! ## Later trees -/

/-- A later tree in which every entry is as it was. -/
structure Keeps (tree tree' : FileTree) : Prop where
  workingDir : tree'.workingDir = tree.workingDir
  entry : ∀ place entry, tree.entryAt? place = some entry → tree'.entryAt? place = some entry

/-- A later tree in which files may have been written. -/
structure Grows (tree tree' : FileTree) : Prop where
  workingDir : tree'.workingDir = tree.workingDir
  entry : ∀ place entry, tree.entryAt? place = some entry →
    ∃ entry', tree'.entryAt? place = some entry' ∧ entry.SameSort entry'

theorem Keeps.grows (h : tree.Keeps tree') : tree.Grows tree' :=
  ⟨h.workingDir, fun place entry hentry =>
    ⟨entry, h.entry place entry hentry, entry.sameSort_refl⟩⟩

theorem Keeps.trans_grows (h : tree.Keeps mid) (h' : mid.Grows tree') : tree.Grows tree' :=
  ⟨h'.workingDir.trans h.workingDir, fun place entry hentry =>
    h'.entry place entry (h.entry place entry hentry)⟩

/-! ## Runs in a later tree -/

/-- A run leads to what is there. -/
theorem Leads.liesIn (h : tree.Leads ending way spot) : spot.LiesIn tree := by
  induction h with
  | done hends =>
      cases hends with
      | here | link => trivial
      | vacant henter hentry | file henter hentry => exact hentry
  | step _ _ ih => exact ih

theorem reachFrom_liesIn (h : tree.reachFrom ending dir path = .ok spot) : spot.LiesIn tree :=
  (reachFrom_eq_ok_iff.mp h).2.liesIn

/-- A step can still be taken in a later tree. -/
theorem Move.of_grows (h : tree.Grows tree') (hmove : Move tree ending way next) :
    Move tree' .target way next := by
  cases hmove with
  | stay => exact .stay
  | inside => exact .inside
  | up => exact .up
  | directory henter hentry =>
      obtain ⟨entry, hentry', hsort⟩ := h.entry _ _ hentry
      cases entry with
      | directory => exact .directory (mayEnter_of_ne nofun henter.short) hentry'
      | file | link => exact hsort.elim
  | link henter hentry =>
      obtain ⟨entry, hentry', hsort⟩ := h.entry _ _ hentry
      cases entry with
      | link target =>
          cases hsort
          exact .link (mayEnter_of_ne nofun henter.short) hentry' nofun
      | file | directory => exact hsort.elim

/-- In a later tree a run leads to the file that has been put where it led. -/
theorem Leads.of_grows (h : tree.Grows tree')
    (hfile : tree'.entryAt? place = some (.file content)) (hleads : tree.Leads ending way spot)
    (hseat : spot.IsSeat place) :
    tree'.Leads .target way (.entry place (.file content)) := by
  induction hleads with
  | done hends =>
      cases hends with
      | here | link => exact hseat.elim
      | vacant henter | file henter =>
          cases hseat
          exact .done (.file (mayEnter_nil henter.short) hfile)
  | step hmove _ ih => exact .step (hmove.of_grows h) (ih hseat)

/-- **A path** leads, in a later tree, to the file that has been put where it led. -/
theorem reachFrom_of_grows (h : tree.Grows tree')
    (hfile : tree'.entryAt? place = some (.file content))
    (hreach : tree.reachFrom ending dir path = .ok spot) (hseat : spot.IsSeat place) :
    tree'.reachFrom .target dir path = .ok (.entry place (.file content)) := by
  obtain ⟨husable, hleads⟩ := reachFrom_eq_ok_iff.mp hreach
  exact reachFrom_eq_ok_iff.mpr ⟨husable, hleads.of_grows h hfile hseat⟩

/-- A path to a file leads, in a later tree, to the same file with the content it has then. -/
theorem reach_of_grows {before : ByteArray} (h : tree.Grows tree')
    (hreach : tree.reach path = .ok (.entry place (.file before)))
    (hfile : tree'.entryAt? place = some (.file content)) :
    tree'.reach path = .ok (.entry place (.file content)) := by
  rw [reach, h.workingDir]
  exact reachFrom_of_grows h hfile hreach rfl

/-! ## An entry put at a location -/

/-- What a tree has after an entry was put somewhere. -/
theorem entryAt?_put (hplace : place ≠ []) (entry : FileEntry) (seen : Location) :
    (tree.put place entry).entryAt? seen
      = if seen = place then some entry else tree.entryAt? seen := by
  by_cases htop : seen = []
  · subst htop
    rw [if_neg (Ne.symm hplace)]
    rfl
  rw [entryAt?, entryAt?, if_neg htop, if_neg htop, put]
  split
  · rename_i hany
    rw [lookup_map_replace, if_pos hany]
  · rename_i hany
    rw [List.lookup_append]
    by_cases hseen : seen = place
    · subst hseen
      have hnone : tree.entries.lookup seen = none := by
        rw [List.lookup_eq_none_iff]
        intro e he
        simpa using fun heq : seen = e.1 => hany (List.any_eq_true.mpr ⟨e, he, by simp [heq]⟩)
      simp [hnone]
    · simp [hseen, lookup_cons_eq_ite]

theorem workingDir_put (entry : FileEntry) :
    (tree.put place entry).workingDir = tree.workingDir := by
  unfold put
  split <;> rfl

/-- Nothing is at the place of the top directory but that. -/
theorem ne_nil_of_entryAt? (tree : FileTree) {place : Location}
    (h : tree.entryAt? place ≠ some .directory) : place ≠ [] := by
  rintro rfl
  exact h rfl

/-- An entry at a vacant place leaves the others as they were. -/
theorem keeps_put (hvacant : tree.entryAt? place = none) (entry : FileEntry) :
    tree.Keeps (tree.put place entry) := by
  refine ⟨workingDir_put entry, fun seen found hfound => ?_⟩
  have hplace : place ≠ [] := ne_nil_of_entryAt? tree (by simp [hvacant])
  have hseen : seen ≠ place := by
    rintro rfl
    simp [hvacant] at hfound
  rw [entryAt?_put hplace, if_neg hseen, hfound]

/-- Whether a file is at a location, or nothing, so that a file may be put there. -/
def IsFree (tree : FileTree) (place : Location) : Prop :=
  tree.entryAt? place = none ∨ ∃ before, tree.entryAt? place = some (.file before)

theorem IsFree.ne_nil (h : tree.IsFree place) : place ≠ [] := by
  refine ne_nil_of_entryAt? tree ?_
  rcases h with h | ⟨before, h⟩
  · rw [h]
    exact nofun
  · rw [h]
    exact nofun

/-- A path that a file is written at leads to a free place. -/
theorem isFree_of_isSeat (hspot : spot.LiesIn tree) (hseat : spot.IsSeat place) :
    tree.IsFree place := by
  match spot with
  | .vacant seat =>
      obtain rfl : seat = place := hseat
      exact Or.inl hspot
  | .entry seat (.file before) =>
      obtain rfl : seat = place := hseat
      exact Or.inr ⟨before, hspot⟩
  | .entry _ .directory => exact hseat.elim
  | .entry _ (.link _) => exact hseat.elim

/-- A file may be put where there is a file, or nothing. -/
theorem grows_put (h : tree.IsFree place) (content : ByteArray) :
    tree.Grows (tree.put place (.file content)) := by
  refine ⟨workingDir_put _, fun seen found hfound => ?_⟩
  rw [entryAt?_put h.ne_nil]
  by_cases hseen : seen = place
  · rw [if_pos hseen]
    rw [hseen] at hfound
    rcases h with hnone | ⟨before, hbefore⟩
    · cases hnone.symm.trans hfound
    · obtain rfl : .file before = found := Option.some.inj (hbefore.symm.trans hfound)
      exact ⟨.file content, rfl, trivial⟩
  · rw [if_neg hseen]
    exact ⟨found, hfound, found.sameSort_refl⟩

/-! ## Files that are written -/

/-- Writing a file puts it where its path leads. -/
theorem write_eq_ok (h : tree.write path content = .ok tree') :
    ∃ spot place, tree.reachFrom .file tree.workingDir path = .ok spot ∧ spot.IsSeat place
      ∧ tree' = tree.put place (.file content) := by
  unfold write at h
  cases hreach : tree.reachFrom .file tree.workingDir path with
  | error fault =>
      rw [hreach] at h
      cases h
  | ok spot =>
      rw [hreach] at h
      match spot with
      | .vacant place =>
          cases h
          exact ⟨_, place, rfl, rfl, rfl⟩
      | .entry place (.file before) =>
          cases h
          exact ⟨_, place, rfl, rfl, rfl⟩
      | .entry _ .directory => cases h
      | .entry _ (.link _) => cases h

/-- **A file that was written** is where its path leads, and nothing else has changed. -/
theorem reach_of_write (h : tree.write path content = .ok tree') :
    ∃ place, place ≠ [] ∧ tree' = tree.put place (.file content) ∧ tree.Grows tree'
      ∧ tree'.reach path = .ok (.entry place (.file content)) := by
  obtain ⟨spot, place, hreach, hseat, rfl⟩ := write_eq_ok h
  have hfree := isFree_of_isSeat (reachFrom_liesIn hreach) hseat
  have hgrows := grows_put hfree content
  have hfile : (tree.put place (.file content)).entryAt? place = some (.file content) := by
    rw [entryAt?_put hfree.ne_nil, if_pos rfl]
  refine ⟨place, hfree.ne_nil, rfl, hgrows, ?_⟩
  rw [reach, workingDir_put]
  exact reachFrom_of_grows hgrows hfile hreach hseat

/-! ## Directories that are made -/

/-- A later tree that differs only by directories where nothing was. -/
structure OnlyMakes (tree tree' : FileTree) : Prop where
  workingDir : tree'.workingDir = tree.workingDir
  entry : ∀ place, tree'.entryAt? place = tree.entryAt? place
    ∨ tree.entryAt? place = none ∧ tree'.entryAt? place = some .directory

theorem OnlyMakes.refl (tree : FileTree) : tree.OnlyMakes tree :=
  ⟨rfl, fun _ => Or.inl rfl⟩

theorem OnlyMakes.trans (h : tree.OnlyMakes mid) (h' : mid.OnlyMakes tree') :
    tree.OnlyMakes tree' := by
  refine ⟨h'.workingDir.trans h.workingDir, fun place => ?_⟩
  rcases h.entry place with hsame | ⟨hnone, hmade⟩
  · rcases h'.entry place with hsame' | ⟨hnone, hmade⟩
    · exact Or.inl (hsame'.trans hsame)
    · exact Or.inr ⟨hsame ▸ hnone, hmade⟩
  · rcases h'.entry place with hsame' | ⟨hgone, -⟩
    · exact Or.inr ⟨hnone, hsame'.trans hmade⟩
    · rw [hmade] at hgone
      cases hgone

theorem OnlyMakes.keeps (h : tree.OnlyMakes tree') : tree.Keeps tree' := by
  refine ⟨h.workingDir, fun place entry hentry => ?_⟩
  rcases h.entry place with hsame | ⟨hnone, -⟩
  · rw [hsame, hentry]
  · rw [hnone] at hentry
    cases hentry

theorem onlyMakes_makeDirectory (h : tree.makeDirectory path = .ok tree') :
    tree.OnlyMakes tree' := by
  unfold makeDirectory make at h
  generalize withoutEnd path = path at h
  cases hreach : tree.reachFrom .link tree.workingDir path with
  | error fault =>
      rw [hreach] at h
      cases h
  | ok spot =>
      rw [hreach] at h
      match spot with
      | .vacant place =>
          cases h
          have hvacant : tree.entryAt? place = none := reachFrom_liesIn hreach
          have hplace : place ≠ [] := ne_nil_of_entryAt? tree (by simp [hvacant])
          refine ⟨workingDir_put _, fun seen => ?_⟩
          rw [entryAt?_put hplace]
          by_cases hseen : seen = place
          · rw [if_pos hseen, hseen]
            exact Or.inr ⟨hvacant, rfl⟩
          · rw [if_neg hseen]
            exact Or.inl rfl
      | .entry _ _ => cases h

theorem onlyMakes_makeAll (tree : FileTree) (paths : List Path) :
    tree.OnlyMakes (tree.makeAll paths).1 := by
  induction paths generalizing tree with
  | nil => exact .refl tree
  | cons path rest ih =>
      rw [makeAll]
      split
      · rename_i hmade
        exact (onlyMakes_makeDirectory hmade).trans (ih _)
      · split
        · exact ih tree
        · exact .refl tree

/-- **Making directories** leaves every entry as it was, whether all are made or not. -/
theorem onlyMakes_makeDirectories (tree : FileTree) (path : Path) :
    tree.OnlyMakes (tree.makeDirectories path).1 := by
  unfold makeDirectories
  split
  · exact onlyMakes_makeAll tree _
  · exact .refl tree

end FileTree

end FailureTriage
