import FailureTriage.Proofs.Files.Siblings

/-!
# How paths end

The last step of a path to a name is its last piece, and the file name of the path.  A path that is
seen from another one ends as it does by itself.

* `ends_of_stepsOf`: the last piece and the file name, from the last step.
* `getLast?_pieces_join`: the last piece of a path seen from another one.
* `suffix_of_getLast?_pieces`: a text at the end of a path is at the end of its last piece.
* `fileName?_join_name`, `exists_stem_of_extension?`: file names and extensions.
-/

namespace FailureTriage.Path

variable {path first second : Path} {name : String} {last : List Char}

theorem pieces_ne_nil (path : Path) : path.pieces ≠ [] := by
  obtain ⟨piece, rest, hparts⟩ := Text.exists_splitOn '/' path.text.toList
  rw [pieces, hparts]
  exact List.cons_ne_nil _ _

/-- A text without separators at the end of a path is at the end of its last piece. -/
theorem suffix_of_getLast?_pieces {text : List Char} (htext : '/' ∉ text)
    (hend : text <:+ path.text.toList) (hlast : path.pieces.getLast? = some last) :
    text <:+ last := by
  obtain ⟨before, hbefore⟩ := hend
  obtain ⟨parts, part, -, hboth⟩ := Text.splitOn_append_of_not_mem htext before
  rw [hbefore] at hboth
  rw [pieces, hboth, List.getLast?_concat] at hlast
  rw [← Option.some.inj hlast]
  exact List.suffix_append part text

/-- The pieces of a path come last when it is seen from another one. -/
theorem pieces_suffix_join (first second : Path) :
    second.pieces <:+ (first.join second).pieces := by
  rw [join]
  split
  · exact List.suffix_rfl
  split
  · rename_i hseparator
    obtain ⟨before, hbefore⟩ := List.getLast?_eq_some_iff.mp (beq_iff_eq.mp hseparator)
    rw [pieces, pieces, String.toList_append, hbefore, List.append_assoc, List.singleton_append,
      Text.splitOn_append]
    exact List.suffix_append _ _
  · rw [pieces, pieces, String.toList_append, String.toList_append, List.append_assoc,
      show "/".toList = ['/'] from rfl, List.singleton_append, Text.splitOn_append]
    exact List.suffix_append _ _

/-- **A path seen from another one** ends as it does by itself. -/
theorem getLast?_pieces_join (first second : Path) :
    (first.join second).pieces.getLast? = second.pieces.getLast? := by
  obtain ⟨front, hfront⟩ := pieces_suffix_join first second
  rw [← hfront, List.getLast?_append_of_ne_nil _ second.pieces_ne_nil]

/-- A path without a separator at its end does not end with an empty piece. -/
theorem getLast?_pieces_ne_nil (hne : path.text.toList ≠ [])
    (hend : path.text.toList.getLast? ≠ some '/') : path.pieces.getLast? ≠ some [] := by
  obtain ⟨before, c, htext⟩ := (List.eq_nil_or_concat _).resolve_left hne
  rw [htext, List.concat_eq_append] at hend
  rw [List.getLast?_concat] at hend
  have hc : '/' ∉ [c] := by
    rw [List.mem_singleton]
    rintro rfl
    exact hend rfl
  obtain ⟨parts, part, -, hboth⟩ := Text.splitOn_append_of_not_mem hc before
  rw [pieces, htext, List.concat_eq_append, hboth, List.getLast?_concat]
  exact fun h => List.append_ne_nil_of_right_ne_nil part (List.cons_ne_nil c []) (Option.some.inj h)

/-- The file name is the last piece, if that is a name. -/
theorem fileName?_of_getLast?_pieces (hname : FileTree.IsEntryName name)
    (hlast : path.pieces.getLast? = some name.toList) : path.fileName? = some name := by
  obtain ⟨front, hpieces⟩ := List.getLast?_eq_some_iff.mp hlast
  rw [fileName?]
  cases front with
  | nil =>
      rw [components_of_pieces hpieces, leader, if_neg (by simp), component?_name hname]
      rfl
  | cons piece front =>
      have hrest : path.pieces = piece :: (front ++ [name.toList]) := hpieces
      rw [components_of_pieces hrest, List.filterMap_append, List.filterMap_cons,
        component?_name hname, List.filterMap_nil, ← List.append_assoc, List.getLast?_concat]

/-- A piece that is a step to a name is that name. -/
theorem eq_of_stepOf? {piece : List Char} (hslash : '/' ∉ piece)
    (h : FileTree.stepOf? piece = some (.into name)) :
    piece = name.toList ∧ FileTree.IsEntryName name := by
  rw [FileTree.stepOf?] at h
  split at h
  · cases h
  rename_i hne
  split at h
  · cases h
  rename_i hhere
  split at h
  · cases h
  rename_i hup
  obtain rfl : String.ofList piece = name := PathStep.into.inj (Option.some.inj h)
  rw [FileTree.IsEntryName, String.toList_ofList]
  refine ⟨rfl, ?_, ?_, ?_, hslash⟩
  · intro heq
    exact hne (String.ofList_inj.mp heq)
  · intro heq
    exact hhere (String.ofList_inj.mp heq)
  · intro heq
    exact hup (String.ofList_inj.mp heq)

/-- **A path whose last step is a name** ends with that name. -/
theorem ends_of_stepsOf {steps : List PathStep}
    (h : FileTree.stepsOf path = steps ++ [.into name]) :
    path.pieces.getLast? = some name.toList ∧ path.fileName? = some name := by
  have hend : path.text.toList.getLast? ≠ some '/' := by
    intro hend
    rw [FileTree.stepsOf, if_pos hend] at h
    cases List.append_inj_right' h rfl
  rw [FileTree.stepsOf, if_neg hend, List.append_nil, ← pieces] at h
  obtain ⟨front, piece, hpieces⟩ := (List.eq_nil_or_concat _).resolve_left path.pieces_ne_nil
  rw [List.concat_eq_append] at hpieces
  have hlast : path.pieces.getLast? = some piece := by rw [hpieces, List.getLast?_concat]
  have hpiece : piece ≠ [] := by
    rintro rfl
    refine getLast?_pieces_ne_nil ?_ hend hlast
    intro hempty
    rw [pieces, hempty] at h
    exact List.append_ne_nil_of_right_ne_nil steps (List.cons_ne_nil _ _) h.symm
  obtain ⟨step, hstep⟩ : ∃ step, FileTree.stepOf? piece = some step := by
    rw [FileTree.stepOf?, if_neg hpiece]
    split
    · exact ⟨_, rfl⟩
    split
    · exact ⟨_, rfl⟩
    · exact ⟨_, rfl⟩
  rw [hpieces, List.filterMap_append, List.filterMap_cons_some hstep] at h
  obtain rfl : step = .into name := List.head_eq_of_cons_eq (List.append_inj_right' h rfl)
  have hslash : '/' ∉ piece := Text.not_mem_of_mem_splitOn (List.mem_of_getLast? hlast)
  obtain ⟨rfl, hname⟩ := eq_of_stepOf? hslash hstep
  exact ⟨hlast, fileName?_of_getLast?_pieces hname hlast⟩

/-- The file name of a path to an entry, wherever it is seen from. -/
theorem fileName?_join_name (hname : FileTree.IsEntryName name) (first : Path) :
    (first.join ⟨name⟩).fileName? = some name := by
  refine fileName?_of_getLast?_pieces hname ?_
  have hparts : Path.pieces ⟨name⟩ = [name.toList] := Text.splitOn_of_not_mem hname.2.2.2
  rw [getLast?_pieces_join, hparts]
  rfl

/-- **An extension** stands after a dot at the end of the file name. -/
theorem exists_stem_of_extension? {extension : String} (h : path.extension? = some extension) :
    ∃ name stem, path.fileName? = some name ∧ name.toList = stem ++ '.' :: extension.toList := by
  rw [extension?] at h
  obtain ⟨name, hname, h⟩ := Option.bind_eq_some_iff.mp h
  obtain ⟨stem, hstem, h⟩ := Option.bind_eq_some_iff.mp h
  split at h
  · cases h
  · refine ⟨name, stem, hname, ?_⟩
    rw [← Option.some.inj h, String.toList_ofList]
    exact Text.eq_of_beforeLast? hstem

end FailureTriage.Path
