import FailureTriage.Files.StoredDocument
import FailureTriage.Proofs.Files.Siblings

/-!
# Directories that are there

Making a directory that is there changes nothing, and the directory of a document is there if
another document of the same directory is.

* `LeadsTo`: what directory a path leads to.
* `exists_dir_of_join`: a file of a directory lies in the directory, or a link does.
* `makeDirectories_eq`: a directory that a path leads to is not made again.
* `makeDocumentDir_eq`, `makeDocumentDir_of_found`: the directory of a document, if it is there.
-/

namespace FailureTriage

namespace FileTree

variable {tree : FileTree} {dir place : Location} {name : String} {entry : FileEntry} {way : Way}
  {path folder : Path}

/-! ## Steps to a directory -/

/-- **A run that leads to an entry** does so if a link at its end is not followed. -/
theorem Leads.exists_entry_of_link (h : tree.Leads .target way (.entry place entry)) :
    ∃ place' entry', tree.Leads .link way (.entry place' entry') := by
  generalize hspot : Spot.entry place entry = spot at h
  induction h with
  | done hends =>
      cases hends with
      | here => exact ⟨_, _, .done .here⟩
      | vacant => cases hspot
      | file henter hentry => exact ⟨_, _, .done (.file (mayEnter_nil henter.short) hentry)⟩
      | link henter hentry hending => cases hending
  | step hmove _ ih =>
      obtain ⟨place', entry', hrest⟩ := ih hspot
      cases hmove with
      | stay => exact ⟨_, _, .step .stay hrest⟩
      | inside => exact ⟨_, _, .step .inside hrest⟩
      | up => exact ⟨_, _, .step .up hrest⟩
      | directory henter hentry =>
          exact ⟨_, _, .step (.directory (mayEnter_of_ne nofun henter.short) hentry) hrest⟩
      | @link links dir name target rest henter hentry =>
          by_cases hlast : rest = []
          · subst hlast
            exact ⟨_, _, .done (.link (mayEnter_nil henter.short) hentry rfl)⟩
          · exact ⟨_, _, .step (.link (mayEnter_of_ne nofun henter.short) hentry
              fun h => absurd h hlast) hrest⟩

/-- Whether a path leads to a directory; the empty path leads to the working directory. -/
def LeadsTo (tree : FileTree) (path : Path) (dir : Location) : Prop :=
  tree.takeStepsFollowing .target mostLinks (startOf path tree.workingDir) (stepsOf path)
    = .ok (.entry dir .directory)

theorem leadsTo_iff :
    tree.LeadsTo path dir
      ↔ tree.Leads .target (.ofPath tree.workingDir path) (.entry dir .directory) :=
  takeStepsFollowing_eq_ok_iff

/-- The steps of a path that is a name. -/
private theorem stepsOf_name (hname : IsEntryName name) : stepsOf ⟨name⟩ = [.into name] := by
  have hpieces : Path.pieces ⟨name⟩ = [] ++ [name.toList] := Text.splitOn_of_not_mem hname.2.2.2
  rw [stepsOf_of_pieces hpieces fun h => hname.1 (String.toList_eq_nil_iff.mp h),
    List.nil_append, List.filterMap_cons, stepOf?_name hname]
  rfl

/-- **A file of a directory** lies in the directory that the path of the directory leads to, or a
    link of its name lies there that leads to it. -/
theorem exists_dir_of_join (hname : IsEntryName name)
    (h : tree.find? (folder.join ⟨name⟩) = some (place, entry)) :
    ∃ dir, tree.LeadsTo folder dir ∧ (place = dir ++ [name] ∨ tree.LinkLeadsTo dir name place) := by
  have hreached := (find?_eq_some_iff.mp h).2
  rw [Way.ofPath] at hreached
  by_cases hfolder : folder.isEmpty = true
  · obtain rfl : folder = ⟨""⟩ := congrArg Path.mk (String.isEmpty_iff.mp hfolder)
    rw [Path.join, hfolder, Bool.or_true, if_pos rfl, stepsOf_name hname, startOf,
      Path.isAbsolute_name hname.2.2.2, if_neg Bool.false_ne_true] at hreached
    exact ⟨tree.workingDir, rfl, linkLeadsTo_of_last hreached⟩
  · have hinto := goesInto_join (Bool.not_eq_true _ |>.mp hfolder) hname
    obtain ⟨steps, idle, hdir, hidle, hpath⟩ := hinto.steps
    rw [hpath, startOf, hinto.absolute, ← startOf] at hreached
    obtain ⟨dir, left, hstop, hlast⟩ := hreached.exists_stop (List.cons_ne_nil _ _)
    refine ⟨dir, ?_, linkLeadsTo_of_last hlast⟩
    rw [leadsTo_iff, Way.ofPath, hdir]
    exact hstop.append_idle hidle

/-! ## Making directories -/

/-- The steps that the pieces of a path stand for. -/
def pieceSteps (path : Path) : List PathStep :=
  path.pieces.filterMap stepOf?

/-- The steps of a path are those of its pieces, and at most idle ones. -/
theorem exists_idle (path : Path) : ∃ idle, Idle idle ∧ stepsOf path = pieceSteps path ++ idle := by
  refine ⟨_, ?_, rfl⟩
  split
  · intro step hstep
    exact Or.inr (List.mem_singleton.mp hstep)
  · exact fun step hstep => nomatch hstep

/-- Separators at the end of a path are no steps. -/
private theorem filterMap_splitOn_append (text : List Char) (count : Nat) :
    (Text.splitOn '/' (text ++ List.replicate count '/')).filterMap stepOf?
      = (Text.splitOn '/' text).filterMap stepOf? := by
  induction count with
  | zero => rw [List.replicate_zero, List.append_nil]
  | succ count ih =>
      rw [List.replicate_succ', ← List.append_assoc, Text.splitOn_append, List.filterMap_append, ih]
      exact List.append_nil _

/-- A path is spelled like the path without its end, up to separators; it is that path if it has
    nothing else. -/
private theorem withoutEnd_cases (path : Path) :
    withoutEnd path = path
      ∨ ∃ count, (withoutEnd path).text.toList ≠ []
        ∧ path.text.toList = (withoutEnd path).text.toList ++ List.replicate count '/' := by
  have hslashes : path.text.toList.reverse.takeWhile (· == '/')
      = List.replicate (path.text.toList.reverse.takeWhile (· == '/')).length '/' :=
    List.eq_replicate_of_mem fun c hc => eq_of_beq (List.all_eq_true.mp List.all_takeWhile c hc)
  have hparts := @List.takeWhile_append_dropWhile _ (· == '/') path.text.toList.reverse
  have hsplit : path.text.toList = Text.dropEndWhile (· == '/') path.text.toList
      ++ List.replicate (path.text.toList.reverse.takeWhile (· == '/')).length '/' := by
    rw [← List.reverse_inj, List.reverse_append, List.reverse_replicate, ← hslashes,
      Text.dropEndWhile, List.reverse_reverse, hparts]
  rw [withoutEnd]
  split
  · exact Or.inl rfl
  · rename_i text hne
    rw [String.toList_ofList]
    exact Or.inr ⟨_, hne, hsplit⟩

theorem pieceSteps_withoutEnd (path : Path) : pieceSteps (withoutEnd path) = pieceSteps path := by
  rcases withoutEnd_cases path with h | ⟨count, -, h⟩
  · rw [h]
  · rw [pieceSteps, pieceSteps, Path.pieces, Path.pieces, h, filterMap_splitOn_append]

private theorem isAbsolute_withoutEnd (path : Path) :
    (withoutEnd path).isAbsolute = path.isAbsolute := by
  rcases withoutEnd_cases path with h | ⟨count, hne, h⟩
  · rw [h]
  · rw [Path.isAbsolute, Path.isAbsolute, h, List.head?_append_of_ne_nil _ hne]

private theorem isEmpty_withoutEnd (h : path.isEmpty = false) :
    (withoutEnd path).isEmpty = false := by
  rcases withoutEnd_cases path with heq | ⟨count, hne, -⟩
  · rwa [heq]
  · rw [Path.isEmpty, ← Bool.not_eq_true, String.isEmpty_iff]
    exact fun hempty => hne (String.toList_eq_nil_iff.mpr hempty)

/-- What is there is not made, and is not missing. -/
private theorem makeDirectory_of_leadsTo (hempty : path.isEmpty = false)
    (h : tree.LeadsTo path place) :
    ∃ fault, fault ≠ .notFound ∧ tree.makeDirectory path = .error fault := by
  obtain ⟨idle, hidle, hsteps⟩ := exists_idle path
  obtain ⟨more, hmore, hshort⟩ := exists_idle (withoutEnd path)
  rw [leadsTo_iff, Way.ofPath, hsteps] at h
  have hreached : tree.Leads .target (.ofPath tree.workingDir (withoutEnd path))
      (.entry place .directory) := by
    rw [Way.ofPath, hshort, pieceSteps_withoutEnd, startOf, isAbsolute_withoutEnd, ← startOf]
    exact (h.of_idle hidle).append_idle hmore
  obtain ⟨seen, found, hentry⟩ := hreached.exists_entry_of_link
  rw [makeDirectory, make, reachFrom]
  split
  · exact ⟨.invalidName, by simp, rfl⟩
  · rw [if_neg (by rw [isEmpty_withoutEnd hempty]; decide)]
    split
    · exact ⟨.nameTooLong, by simp, rfl⟩
    · rw [takeStepsFollowing_eq_ok_iff.mpr hentry]
      exact ⟨.alreadyExists, by simp, rfl⟩

/-- **A directory** that a path leads to is not made again, and all is well if the path says so. -/
theorem makeDirectories_eq (h : tree.LeadsTo path place) :
    ∃ fault, tree.makeDirectories path
      = (tree, if path.isEmpty || tree.isDirectory path then .ok () else .error fault) := by
  have hancestors : ∃ rest, ancestors path.text.length path = path :: rest := by
    cases path.text.length with
    | zero => exact ⟨[], rfl⟩
    | succ fuel =>
        rw [ancestors]
        split
        · exact ⟨_, rfl⟩
        · exact ⟨[], rfl⟩
  obtain ⟨rest, hrest⟩ := hancestors
  rw [makeDirectories, hrest, missingDirectories]
  cases hempty : path.isEmpty with
  | true => exact ⟨.notFound, rfl⟩
  | false =>
      obtain ⟨fault, hfault, hmade⟩ := makeDirectory_of_leadsTo hempty h
      rw [if_neg Bool.false_ne_true, hmade, Bool.false_or]
      refine ⟨fault, ?_⟩
      cases fault with
      | notFound => exact absurd rfl hfault
      | _ =>
          dsimp only
          by_cases hdirectory : tree.isDirectory path = true
          · rw [if_pos hdirectory, if_pos hdirectory]
            rfl
          · rw [if_neg hdirectory, if_neg hdirectory]

/-! ## Documents of one directory -/

/-- The directory of a document is there if the directory is that the document is seen from. -/
private theorem leadsTo_parent {parent : Path} (hfolder : folder.isEmpty = false)
    (hname : IsEntryName name) (hne : parent.isEmpty = false)
    (hparent : (folder.join ⟨name⟩).parent? = some parent) (hdir : tree.LeadsTo folder dir) :
    tree.LeadsTo parent dir := by
  have hsibling : (folder.join ⟨name⟩).withFileName name = parent.join ⟨name⟩ := by
    rw [Path.withFileName, Path.fileName?_join hfolder hname, hparent]
  have hbeside := goesInto_withFileName hfolder hname hname
  rw [hsibling] at hbeside
  have hinside := goesInto_join hne hname
  -- the paths of both directories take the same steps, up to idle ones
  obtain ⟨steps, more, hfolderSteps, hmore, hsteps⟩ := hbeside.steps
  obtain ⟨steps', idle, hparentSteps, hidle, hsteps'⟩ := hinside.steps
  obtain rfl : steps' = steps := List.append_cancel_right (hsteps'.symm.trans hsteps)
  rw [leadsTo_iff, Way.ofPath, hfolderSteps, startOf, ← hbeside.absolute, hinside.absolute,
    ← startOf] at hdir
  rw [leadsTo_iff, Way.ofPath, hparentSteps]
  exact (hdir.of_idle hmore).append_idle hidle

end FileTree

/-- The path that is a name starts where paths start. -/
private theorem parent?_name {name : String} (hname : FileTree.IsEntryName name) :
    Path.parent? ⟨name⟩ = some ⟨""⟩ := by
  have hparts : Text.splitOn '/' name.toList = [name.toList] :=
    Text.splitOn_of_not_mem hname.2.2.2
  have hlocated : Path.located ⟨name⟩ = [(0, .name name)] := by
    rw [Path.located, hparts, List.zipIdx_cons, List.filterMap_cons]
    dsimp only
    rw [Path.component?_name hname]
    cases name.toList <;> rfl
  rw [Path.parent?, hlocated]
  rfl

/-- **The directory of a document** is not made if the directory is there that the document is seen
    from, and all is well if its own path says so. -/
theorem makeDocumentDir_eq {files : FileTree} {folder : Path} {name : String} {dir : Location}
    (hname : FileTree.IsEntryName name) (hdir : files.LeadsTo folder dir) :
    (makeDocumentDir files (folder.join ⟨name⟩)).1 = files
      ∧ ((makeDocumentDir files (folder.join ⟨name⟩)).2 = .ok ()
        ↔ ∀ parent, documentDir? (folder.join ⟨name⟩) = some parent →
            files.isDirectory parent = true) := by
  rw [makeDocumentDir]
  split
  next parent hparentDir =>
    obtain ⟨hparent, hne⟩ := Option.filter_eq_some_iff.mp hparentDir
    rw [Bool.not_eq_true'] at hne
    have hfolder : folder.isEmpty = false := by
      rw [← Bool.not_eq_true]
      intro hempty
      rw [Path.join, hempty, Bool.or_true, if_pos rfl, parent?_name hname] at hparent
      rw [← Option.some.inj hparent] at hne
      cases hne
    obtain ⟨fault, hmade⟩ := FileTree.makeDirectories_eq
      (FileTree.leadsTo_parent hfolder hname hne hparent hdir)
    rw [hmade, hne, Bool.false_or]
    refine ⟨rfl, ?_⟩
    by_cases hdirectory : files.isDirectory parent = true
    · rw [if_pos hdirectory]
      refine iff_of_true rfl fun other hother => ?_
      rwa [← Option.some.inj (hparentDir.symm.trans hother)]
    · rw [if_neg hdirectory]
      exact iff_of_false (by rintro ⟨⟩) fun hall => hdirectory (hall parent hparentDir)
  next hnone =>
    refine ⟨rfl, iff_of_true rfl fun parent hparent => ?_⟩
    cases hnone.symm.trans hparent

/-- **The directory of a document** beside one that is found is not made. -/
theorem makeDocumentDir_of_found {files : FileTree} {folder : Path} {name other : String}
    {place : Location} {entry : FileEntry} (hname : FileTree.IsEntryName name)
    (hother : FileTree.IsEntryName other)
    (hfound : files.find? (folder.join ⟨other⟩) = some (place, entry)) :
    (makeDocumentDir files (folder.join ⟨name⟩)).1 = files := by
  obtain ⟨dir, hdir, -⟩ := FileTree.exists_dir_of_join hother hfound
  exact (makeDocumentDir_eq hname hdir).1

end FailureTriage
