import FailureTriage.Proofs.Files.Growth

/-!
# A file that is added

A file that is put where nothing was changes what a path leads to only if the path leads to that
file.  A path that goes into a directory leads to a file of the directory by its name, or through
a link.

* `Leads.of_entries`: what a run leads to in another tree.
* `find?_put`: what a path leads to that does not lead to the new file.
* `LinkLeadsTo`, `linkLeadsTo_of_into`: how else a file of a directory is reached.
-/

namespace FailureTriage.FileTree

variable {tree tree' : FileTree} {links : Nat} {dir place new : Location} {name : String}
  {entry : FileEntry} {content : ByteArray} {way : Way} {path : Path}

/-! ## What a path leads to in another tree -/

/-- A run leads to the same entry in another tree that has the same entries on its way, except
    that it may end at a file that is only in this one. -/
theorem Leads.of_entries (isNew : Location → Prop)
    (h : ∀ place entry, tree.entryAt? place = some entry →
      tree'.entryAt? place = some entry ∨ isNew place ∧ ∃ content, entry = .file content)
    (hleads : tree.Leads .target way (.entry place entry)) :
    isNew place ∨ tree'.Leads .target way (.entry place entry) := by
  have hkept : ∀ place entry, (∀ content, entry ≠ .file content) →
      tree.entryAt? place = some entry → tree'.entryAt? place = some entry :=
    fun place entry hne hentry => (h place entry hentry).resolve_right
      fun ⟨_, content, hfile⟩ => hne content hfile
  generalize hspot : Spot.entry place entry = spot at hleads
  induction hleads with
  | done hends =>
      cases hends with
      | here => exact Or.inr (.done .here)
      | vacant => cases hspot
      | file henter hentry =>
          cases hspot
          rcases h _ _ hentry with hsame | ⟨hnew, -⟩
          · exact Or.inr (.done (.file henter hsame))
          · exact Or.inl hnew
      | link henter hentry hending => cases hending
  | step hmove _ ih => exact (ih hspot).imp_right (.step (hmove.of_entries hkept))

/-- **What is kept** is still found. -/
theorem find?_of_keeps (h : tree.Keeps tree') (hfind : tree.find? path = some (place, entry)) :
    tree'.find? path = some (place, entry) := by
  obtain ⟨husable, hleads⟩ := find?_eq_some_iff.mp hfind
  rw [find?_eq_some_iff, h.workingDir]
  have hsame := hleads.of_entries (fun _ => False)
    fun place entry hentry => Or.inl (h.entry place entry hentry)
  exact ⟨husable, hsame.resolve_left id⟩

/-- **A new file** changes nothing for a path that does not lead to it. -/
theorem find?_put (hvacant : tree.entryAt? new = none)
    (hnot : (tree.put new (.file content)).locate? path ≠ some new) :
    (tree.put new (.file content)).find? path = tree.find? path := by
  have hnew : new ≠ [] := ne_nil_of_entryAt? tree (by simp [hvacant])
  have hentries : ∀ seen found, (tree.put new (.file content)).entryAt? seen = some found →
      tree.entryAt? seen = some found ∨ seen = new ∧ ∃ content, found = .file content := by
    intro seen found hseen
    rw [entryAt?_put hnew] at hseen
    split at hseen
    · rename_i heq
      exact Or.inr ⟨heq, content, (Option.some.inj hseen).symm⟩
    · exact Or.inl hseen
  cases hfind : tree.find? path with
  | some found => exact find?_of_keeps (keeps_put hvacant _) hfind
  | none =>
      refine Option.eq_none_iff_forall_ne_some.mpr fun (place, entry) hfound => ?_
      obtain ⟨husable, hleads⟩ := find?_eq_some_iff.mp hfound
      rw [workingDir_put] at hleads
      rcases hleads.of_entries (· = new) hentries with rfl | hbefore
      · rw [locate?, hfound] at hnot
        exact hnot rfl
      · cases hfind.symm.trans (find?_eq_some_iff.mpr ⟨husable, hbefore⟩)

/-! ## Into a directory -/

/-- Whether a link of a name that lies directly in a directory leads to a location. -/
def LinkLeadsTo (tree : FileTree) (dir : Location) (name : String) (place : Location) : Prop :=
  ∃ target links entry, tree.entryAt? (dir ++ [name]) = some (.link target)
    ∧ tree.takeStepsFollowing .target links (startOf target dir) (stepsOf target)
      = .ok (.entry place entry)

/-- Whether a path goes into a directory by the path of that directory, up to steps that stay, and
    then to a name. -/
structure GoesInto (path dir : Path) (name : String) : Prop where
  absolute : path.isAbsolute = dir.isAbsolute
  steps : ∃ steps idle, stepsOf dir = steps ++ idle ∧ Idle idle
    ∧ stepsOf path = steps ++ [.into name]

/-- **A last step to a name** leads to the entry of that name, or through a link of that name. -/
theorem linkLeadsTo_of_last
    (h : tree.Leads .target ⟨links, dir, [.into name]⟩ (.entry place entry)) :
    place = dir ++ [name] ∨ tree.LinkLeadsTo dir name place := by
  cases h with
  | done hends =>
      cases hends with
      | file | link => exact Or.inl rfl
  | step hmove hrest =>
      cases hmove with
      | directory henter hentry =>
          cases hrest.unique (.done .here)
          exact Or.inl rfl
      | link henter hentry =>
          rw [List.append_nil] at hrest
          exact Or.inr ⟨_, _, entry, hentry, takeStepsFollowing_eq_ok_iff.mpr hrest⟩

/-- **A path into a directory** leads to the entry of its name there, or through a link of that
    name. -/
theorem place_of_into {folder : Path} (hinto : GoesInto path folder name)
    (hfolder : tree.find? folder = some (dir, .directory))
    (hfound : tree.find? path = some (place, entry)) :
    place = dir ++ [name] ∨ tree.LinkLeadsTo dir name place := by
  obtain ⟨steps, idle, hdir, hidle, hpath⟩ := hinto.steps
  have hstart : startOf path tree.workingDir = startOf folder tree.workingDir := by
    rw [startOf, startOf, hinto.absolute]
  have hfirst := (find?_eq_some_iff.mp hfolder).2
  have hreached := (find?_eq_some_iff.mp hfound).2
  rw [Way.ofPath, hdir] at hfirst
  rw [Way.ofPath, hpath, hstart] at hreached
  obtain ⟨stop, left, hstop, hlast⟩ := hreached.exists_stop (List.cons_ne_nil _ _)
  cases hstop.unique (hfirst.of_idle hidle)
  exact linkLeadsTo_of_last hlast

/-- **A path to a file of a directory** either ends with the name of the file, or with the name of
    a link in the directory. -/
theorem linkLeadsTo_of_into {folder : Path} {other : String} (hinto : GoesInto path folder other)
    (hfolder : tree.find? folder = some (dir, .directory))
    (hfile : tree.find? path = some (dir ++ [name], entry)) (hname : other ≠ name) :
    tree.LinkLeadsTo dir other (dir ++ [name]) :=
  (place_of_into hinto hfolder hfile).resolve_left fun heq =>
    hname (List.head_eq_of_cons_eq (List.append_cancel_left heq)).symm

end FailureTriage.FileTree
