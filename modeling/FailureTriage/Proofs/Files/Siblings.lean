import FailureTriage.Proofs.Files.Descent
import FailureTriage.Proofs.Files.Frame
import Mathlib.Data.List.Induction

/-!
# Paths to the entries of a directory

A path that is made from the path of a directory and the name of an entry goes into the directory,
and so does the path that is made from it by another file name.

* `goesInto_join`: the path to an entry.
* `exists_parent`: the path without its last component, so far as it spells the directory.
* `goesInto_withFileName`: the path to another entry of the same directory.
-/

namespace FailureTriage

namespace Path

variable {path dir : Path} {name : String}

/-- Whether a path is absolute, told from its first piece, if it has a second one. -/
theorem isAbsolute_iff {first : List Char} {rest : List (List Char)}
    (h : path.pieces = first :: rest) (hrest : rest ≠ []) :
    path.isAbsolute = true ↔ first = [] := by
  rw [pieces] at h
  rw [isAbsolute, beq_iff_eq]
  cases htext : path.text.toList with
  | nil =>
      rw [htext] at h
      exact absurd (List.cons.inj h).2.symm hrest
  | cons c text =>
      rw [htext] at h
      by_cases hc : c = '/'
      · subst hc
        rw [Text.splitOn_cons_separator] at h
        exact iff_of_true rfl (List.cons.inj h).1.symm
      · obtain ⟨piece, later, hparts⟩ := Text.exists_splitOn '/' text
        rw [Text.splitOn_cons hc hparts] at h
        rw [← (List.cons.inj h).1]
        exact iff_of_false (fun heq => hc (Option.some.inj heq)) (List.cons_ne_nil _ _)

/-- The path that is a name is not absolute. -/
theorem isAbsolute_name (hname : '/' ∉ name.toList) : Path.isAbsolute ⟨name⟩ = false := by
  rw [isAbsolute, beq_eq_false_iff_ne]
  exact fun h => hname (List.mem_of_head? h)

/-- The last piece of a path to an entry is the name of the entry; a separator at the end of the
    path of the directory is one empty piece more. -/
theorem pieces_join_name (hdir : dir.isEmpty = false) (hname : '/' ∉ name.toList) :
    ∃ front, front ≠ [] ∧ (dir.pieces = front ∨ dir.pieces = front ++ [[]])
      ∧ (dir.join ⟨name⟩).pieces = front ++ [name.toList] := by
  have hrelative := isAbsolute_name hname
  have hparts : Text.splitOn '/' name.toList = [name.toList] := Text.splitOn_of_not_mem hname
  rw [join, hrelative, hdir, Bool.or_self, if_neg Bool.false_ne_true]
  split
  · rename_i hlast
    obtain ⟨before, hbefore⟩ := List.getLast?_eq_some_iff.mp (beq_iff_eq.mp hlast)
    obtain ⟨piece, rest, hfront⟩ := Text.exists_splitOn '/' before
    refine ⟨piece :: rest, List.cons_ne_nil _ _, Or.inr ?_, ?_⟩
    · rw [pieces, hbefore, Text.splitOn_append, hfront]
      rfl
    · rw [pieces, String.toList_append, hbefore, List.append_assoc, List.singleton_append,
        Text.splitOn_append, hfront, hparts]
  · obtain ⟨piece, rest, hfront⟩ := Text.exists_splitOn '/' dir.text.toList
    refine ⟨piece :: rest, List.cons_ne_nil _ _, Or.inl hfront, ?_⟩
    rw [pieces, String.toList_append, String.toList_append, List.append_assoc,
      show "/".toList = ['/'] from rfl, List.singleton_append, Text.splitOn_append, hfront, hparts]

theorem isAbsolute_join_name (hdir : dir.isEmpty = false) (hname : '/' ∉ name.toList) :
    (dir.join ⟨name⟩).isAbsolute = dir.isAbsolute := by
  have hne : dir.text.toList ≠ [] := by
    rw [isEmpty] at hdir
    intro hnil
    rw [String.toList_eq_nil_iff.mp hnil] at hdir
    cases hdir
  have hrelative := isAbsolute_name hname
  rw [join, hrelative, hdir, Bool.or_self, if_neg Bool.false_ne_true]
  split
  · rw [isAbsolute, isAbsolute, String.toList_append, List.head?_append_of_ne_nil _ hne]
  · rw [isAbsolute, isAbsolute, String.toList_append, String.toList_append, List.append_assoc,
      List.head?_append_of_ne_nil _ hne]

/-- The name of an entry is a component wherever it stands. -/
theorem component?_name (hname : FileTree.IsEntryName name) (place : Nat) :
    component? place name.toList = some (.name name) := by
  obtain ⟨hne, hhere, hup, -⟩ := hname
  have hdot : name.toList ≠ ['.'] := fun h => hhere (String.toList_inj.mp h)
  have hdots : name.toList ≠ ['.', '.'] := fun h => hup (String.toList_inj.mp h)
  rw [component?, if_neg fun h => hne (String.toList_eq_nil_iff.mp h), if_neg hdot, if_neg hdots,
    String.ofList_toList]

/-- The components of a path to an entry. -/
theorem components_join_name (hdir : dir.isEmpty = false) (hname : FileTree.IsEntryName name) :
    (dir.join ⟨name⟩).components = dir.components ++ [.name name] := by
  have hrelative := isAbsolute_name hname.2.2.2
  have hparts : Path.pieces ⟨name⟩ = [name.toList] := Text.splitOn_of_not_mem hname.2.2.2
  rw [components_join hdir hrelative, followers, hparts, List.filterMap_cons, component?_name hname]
  rfl

/-- The file name of a path to an entry. -/
theorem fileName?_join (hdir : dir.isEmpty = false) (hname : FileTree.IsEntryName name) :
    (dir.join ⟨name⟩).fileName? = some name := by
  rw [fileName?, components_join_name hdir hname, List.getLast?_concat]

/-! ## The path without its last component -/

/-- What pieces mean, each with its place. -/
private def locatedFrom (place : Nat) (pieces : List (List Char)) : List (Nat × PathComponent) :=
  (pieces.zipIdx place).filterMap fun (piece, place) =>
    (component? place piece).map fun c => (place, c)

private theorem locatedFrom_append (place : Nat) (pieces more : List (List Char)) :
    locatedFrom place (pieces ++ more)
      = locatedFrom place pieces ++ locatedFrom (place + pieces.length) more := by
  rw [locatedFrom, List.zipIdx_append, List.filterMap_append]
  rfl

private theorem component?_later (place : Nat) (piece : List Char) :
    component? (place + 1) piece = component? 1 piece := by
  simp only [component?, Nat.add_one_ne_zero, if_false]

/-- Pieces that mean nothing have no components. -/
private theorem locatedFrom_of_none {pieces : List (List Char)}
    (h : ∀ piece ∈ pieces, component? 1 piece = none) (place : Nat) :
    locatedFrom (place + 1) pieces = [] := by
  induction pieces generalizing place with
  | nil => rfl
  | cons piece pieces ih =>
      obtain ⟨hpiece, hrest⟩ := List.forall_mem_cons.mp h
      rw [locatedFrom, List.zipIdx_cons, List.filterMap_cons]
      dsimp only
      rw [component?_later, hpiece]
      exact ih hrest (place + 1)

/-- The last pieces of a list that mean nothing. -/
private theorem exists_skipped (pieces : List (List Char)) :
    ∃ kept skipped, pieces = kept ++ skipped ∧ (∀ piece ∈ skipped, component? 1 piece = none)
      ∧ (kept = [] ∨ ∃ front last c, kept = front ++ [last] ∧ component? 1 last = some c) := by
  induction pieces using List.reverseRecOn with
  | nil => exact ⟨[], [], rfl, List.forall_mem_nil _, Or.inl rfl⟩
  | append_singleton front last ih =>
      cases hlast : component? 1 last with
      | some c =>
          exact ⟨front ++ [last], [], (List.append_nil _).symm, List.forall_mem_nil _,
            Or.inr ⟨front, last, c, rfl, hlast⟩⟩
      | none =>
          obtain ⟨kept, skipped, rfl, hskipped, hkept⟩ := ih
          refine ⟨kept, skipped ++ [last], List.append_assoc .., ?_, hkept⟩
          exact List.forall_mem_append.mpr ⟨hskipped, by simpa using hlast⟩

/-- No piece between separators is the root. -/
private theorem ne_root_of_component? {place : Nat} {piece : List Char} {c : PathComponent}
    (h : component? place piece = some c) : c ≠ .root ∧ piece ≠ [] := by
  rw [component?] at h
  split at h
  · cases h
  rename_i hne
  refine ⟨?_, hne⟩
  rintro rfl
  repeat' split at h
  all_goals cases h

/-- A path whose last component but one is no root, without its last component. -/
private theorem parent?_of_located {before : List (Nat × PathComponent)} {place last : Nat}
    {c : PathComponent} (hlocated : path.located = before ++ [(place, c), (last, .name name)])
    (hc : c ≠ .root) :
    path.parent? = some ⟨"/".intercalate ((path.pieces.take (place + 1)).map String.ofList)⟩ := by
  rw [parent?, hlocated, List.reverse_append]
  cases c with
  | root => exact absurd rfl hc
  | here | up | name text => rfl

/-- A name behind pieces that are put together, the last of which is not empty. -/
private theorem pieces_join_intercalate {pieces : List (List Char)} {other : String}
    (hne : pieces ≠ []) (hlast : pieces.getLast? ≠ some []) (hno : ∀ piece ∈ pieces, '/' ∉ piece)
    (hother : '/' ∉ other.toList) :
    (Path.join ⟨"/".intercalate (pieces.map String.ofList)⟩ ⟨other⟩).pieces
      = pieces ++ [other.toList] := by
  have hpieces : Path.pieces ⟨"/".intercalate (pieces.map String.ofList)⟩ = pieces := by
    have hmap : (pieces.map String.ofList).map String.toList = pieces := by
      rw [List.map_map]
      exact List.map_id'' (fun piece => String.toList_ofList) pieces
    rw [Path.pieces, String.toList_intercalate, hmap]
    exact Text.splitOn_intercalate hne hno
  have hfull : Path.isEmpty ⟨"/".intercalate (pieces.map String.ofList)⟩ = false := by
    rw [isEmpty, ← Bool.not_eq_true, String.isEmpty_iff]
    intro hnil
    rw [Path.pieces, hnil] at hpieces
    exact hlast (hpieces ▸ rfl)
  obtain ⟨front, -, hfront | hfront, hjoined⟩ := pieces_join_name hfull hother
  · rwa [← hfront, hpieces] at hjoined
  · rw [hpieces] at hfront
    exact absurd (hfront ▸ List.getLast?_concat) hlast

/-- The components of a path to an entry: those of the pieces before the name, of which the last
    ones mean nothing, and the name. -/
private theorem exists_located {first : List Char} {kept skipped : List (List Char)}
    (hpieces : path.pieces = first :: (kept ++ skipped ++ [name.toList]))
    (hname : FileTree.IsEntryName name)
    (hskipped : ∀ piece ∈ skipped, component? 1 piece = none) :
    ∃ index, path.located
      = (if first = [] then [(0, .root)] else []) ++ locatedFrom 0 (first :: kept)
        ++ [(index, .name name)] := by
  have hroot : path.located
      = (if first = [] then [(0, .root)] else []) ++ locatedFrom 0 path.pieces := by
    rw [located, ← pieces]
    dsimp only
    rw [hpieces]
    cases first with
    | nil => cases hmore : kept ++ skipped ++ [name.toList] with
      | nil => simp at hmore
      | cons second rest => rfl
    | cons c first => rfl
  have hsplit : path.pieces = (first :: kept) ++ skipped ++ [name.toList] := hpieces
  have hlast : ∀ place, locatedFrom place [name.toList] = [(place, .name name)] := by
    intro place
    rw [locatedFrom, List.zipIdx_cons, List.filterMap_cons]
    dsimp only
    rw [component?_name hname]
    rfl
  have hnone := locatedFrom_of_none hskipped kept.length
  refine ⟨(first :: kept ++ skipped).length, ?_⟩
  rw [hroot, hsplit, locatedFrom_append, locatedFrom_append, Nat.zero_add, Nat.zero_add, hlast,
    List.length_cons, hnone, List.append_nil, ← List.append_assoc]

/-- The first piece has a meaning unless it is empty. -/
private theorem exists_component? {piece : List Char} (h : piece ≠ []) :
    ∃ c, component? 0 piece = some c := by
  rw [component?, if_neg h]
  split
  · exact ⟨_, if_pos rfl⟩
  split
  · exact ⟨_, rfl⟩
  · exact ⟨_, rfl⟩

/-- **The path without the name of an entry** spells what stands before the name, without pieces
    that mean nothing there, so a name behind it takes the place of the name of the entry. -/
theorem exists_parent {first : List Char} {more : List (List Char)}
    (hpieces : path.pieces = first :: (more ++ [name.toList])) (hname : FileTree.IsEntryName name) :
    ∃ kept skipped parent, more = kept ++ skipped
      ∧ (∀ piece ∈ skipped, component? 1 piece = none) ∧ path.parent? = some parent
      ∧ ∀ other : String, '/' ∉ other.toList →
        (parent.join ⟨other⟩).pieces = first :: (kept ++ [other.toList]) := by
  obtain ⟨kept, skipped, rfl, hskipped, hkept⟩ := exists_skipped more
  have hno : ∀ piece ∈ first :: kept, '/' ∉ piece := by
    intro piece hpiece
    refine @Text.not_mem_of_mem_splitOn '/' path.text.toList piece ?_
    rw [show Text.splitOn '/' path.text.toList = _ from hpieces]
    rcases List.mem_cons.mp hpiece with rfl | hpiece
    · exact List.mem_cons_self
    · simp [hpiece]
  obtain ⟨index, hlocated⟩ := exists_located hpieces hname hskipped
  rcases hkept with rfl | ⟨front, last, c, rfl, hlast⟩
  · by_cases hfirst : first = []
    · -- the directory is the root
      subst hfirst
      refine ⟨[], skipped, ⟨"/"⟩, rfl, hskipped, ?_, fun other hother => ?_⟩
      · rw [parent?, hlocated]
        rfl
      · have hrelative := isAbsolute_name hother
        rw [join, hrelative]
        show Text.splitOn '/' ("/" ++ other).toList = _
        rw [String.toList_append, show "/".toList = ['/'] from rfl, List.singleton_append,
          Text.splitOn_cons_separator, Text.splitOn_of_not_mem hother]
        rfl
    · obtain ⟨c, hc⟩ := exists_component? hfirst
      have hparent : path.parent? = some ⟨"/".intercalate ([first].map String.ofList)⟩ := by
        rw [if_neg hfirst, List.nil_append, locatedFrom, List.zipIdx_cons, List.filterMap_cons]
          at hlocated
        dsimp only at hlocated
        rw [hc] at hlocated
        rw [@parent?_of_located path name [] 0 index c hlocated (ne_root_of_component? hc).1,
          hpieces]
        rfl
      refine ⟨[], skipped, _, rfl, hskipped, hparent, fun other hother => ?_⟩
      exact pieces_join_intercalate (List.cons_ne_nil _ _) (by simpa using hfirst) hno hother
  · have hplace : locatedFrom 0 (first :: (front ++ [last]))
        = locatedFrom 0 (first :: front) ++ [(front.length + 1, c)] := by
      rw [← List.cons_append, locatedFrom_append, Nat.zero_add, List.length_cons]
      congr 1
      rw [locatedFrom, List.zipIdx_cons, List.filterMap_cons]
      dsimp only
      rw [component?_later, hlast]
      rfl
    rw [hplace, ← List.append_assoc, List.append_assoc, List.singleton_append] at hlocated
    have htake : path.pieces.take (front.length + 1 + 1) = first :: (front ++ [last]) := by
      rw [hpieces, List.take_succ_cons, List.append_assoc, List.take_append_of_le_length (by simp),
        List.take_of_length_le (by simp)]
    have hparent := parent?_of_located hlocated (ne_root_of_component? hlast).1
    rw [htake] at hparent
    refine ⟨front ++ [last], skipped, _, rfl, hskipped, hparent, fun other hother => ?_⟩
    refine pieces_join_intercalate (List.cons_ne_nil _ _) ?_ hno hother
    rw [← List.cons_append, List.getLast?_concat]
    exact fun h => (ne_root_of_component? hlast).2 (Option.some.inj h)

end Path

namespace FileTree

variable {dir : Path} {name other : String}

/-- The steps of a path that ends with a piece. -/
theorem stepsOf_of_pieces {path : Path} {front : List (List Char)} {last : List Char}
    (h : path.pieces = front ++ [last]) (hlast : last ≠ []) :
    stepsOf path = (front ++ [last]).filterMap stepOf? := by
  rw [Path.pieces] at h
  have hend : ¬ path.text.toList.getLast? = some '/' := by
    intro hseparator
    obtain ⟨before, hbefore⟩ := List.getLast?_eq_some_iff.mp hseparator
    rw [hbefore, Text.splitOn_append] at h
    exact hlast (List.append_inj_right' h rfl |> List.head_eq_of_cons_eq).symm
  rw [stepsOf, h, if_neg hend, List.append_nil]

/-- The name of an entry is a step to that entry. -/
theorem stepOf?_name (hname : IsEntryName name) : stepOf? name.toList = some (.into name) := by
  obtain ⟨hne, hhere, hup, -⟩ := hname
  have hdot : name.toList ≠ ['.'] := fun h => hhere (String.toList_inj.mp h)
  have hdots : name.toList ≠ ['.', '.'] := fun h => hup (String.toList_inj.mp h)
  rw [stepOf?, if_neg fun h => hne (String.toList_eq_nil_iff.mp h), if_neg hdot, if_neg hdots,
    String.ofList_toList]

/-- A piece that means nothing is at most a step that stays. -/
theorem idle_of_component? {skipped : List (List Char)}
    (h : ∀ piece ∈ skipped, Path.component? 1 piece = none) : Idle (skipped.filterMap stepOf?) := by
  intro step hstep
  obtain ⟨piece, hpiece, hstep⟩ := List.mem_filterMap.mp hstep
  have hnone := h piece hpiece
  rw [Path.component?] at hnone
  rw [stepOf?] at hstep
  split at hnone
  · rename_i hempty
    rw [if_pos hempty] at hstep
    cases hstep
  rename_i hempty
  rw [if_neg hempty] at hstep
  split at hnone
  · rename_i hdot
    rw [if_pos hdot] at hstep
    exact Or.inl (Option.some.inj hstep).symm
  split at hnone
  · cases hnone
  · cases hnone

/-- A path that starts like the path of a directory and ends with a name goes into the directory,
    if what it leaves out of the path of the directory means nothing. -/
theorem goesInto_of_pieces {path : Path} {kept skipped : List (List Char)}
    (hname : IsEntryName name) (hskipped : ∀ piece ∈ skipped, Path.component? 1 piece = none)
    (hdir : dir.pieces = kept ++ skipped ∨ dir.pieces = kept ++ skipped ++ [[]])
    (hpath : path.pieces = kept ++ [name.toList]) (habsolute : path.isAbsolute = dir.isAbsolute) :
    GoesInto path dir name := by
  have hne : name.toList ≠ [] := fun h => hname.1 (String.toList_eq_nil_iff.mp h)
  have hpieces : dir.pieces.filterMap stepOf?
      = kept.filterMap stepOf? ++ skipped.filterMap stepOf? := by
    rcases hdir with h | h
    · rw [h, List.filterMap_append]
    · rw [h, List.filterMap_append, List.filterMap_append]
      exact List.append_nil _
  refine ⟨habsolute, kept.filterMap stepOf?, skipped.filterMap stepOf?
    ++ (if dir.text.toList.getLast? = some '/' then [.inside] else []), ?_, ?_, ?_⟩
  · rw [← List.append_assoc, ← hpieces]
    rfl
  · intro step hstep
    rcases List.mem_append.mp hstep with hstep | hstep
    · exact idle_of_component? hskipped step hstep
    · split at hstep
      · exact Or.inr (List.mem_singleton.mp hstep)
      · cases hstep
  · rw [stepsOf_of_pieces hpath hne, List.filterMap_append, List.filterMap_cons,
      stepOf?_name hname]
    rfl

/-- **The path to an entry** of a directory goes into the directory. -/
theorem goesInto_join (hdir : dir.isEmpty = false) (hname : IsEntryName name) :
    GoesInto (dir.join ⟨name⟩) dir name := by
  obtain ⟨front, -, hfront, hpath⟩ := Path.pieces_join_name hdir hname.2.2.2
  refine @goesInto_of_pieces dir name _ front [] hname (List.forall_mem_nil _) ?_ hpath
    (Path.isAbsolute_join_name hdir hname.2.2.2)
  rwa [List.append_nil]

/-- **The path to an entry with another file name** goes into the same directory. -/
theorem goesInto_withFileName (hdir : dir.isEmpty = false) (hname : IsEntryName name)
    (hother : IsEntryName other) :
    GoesInto ((dir.join ⟨name⟩).withFileName other) dir other := by
  obtain ⟨front, hne, hfront, hpath⟩ := Path.pieces_join_name hdir hname.2.2.2
  obtain ⟨first, more, rfl⟩ := List.exists_cons_of_ne_nil hne
  obtain ⟨kept, skipped, parent, rfl, hskipped, hparent, hjoined⟩ :=
    Path.exists_parent hpath hname
  have hsibling : (dir.join ⟨name⟩).withFileName other = parent.join ⟨other⟩ := by
    rw [Path.withFileName, Path.fileName?_join hdir hname, hparent]
  have hpieces := hjoined other hother.2.2.2
  rw [hsibling]
  refine @goesInto_of_pieces dir other _ (first :: kept) skipped hother hskipped hfront hpieces ?_
  -- both paths start with the same piece and have another one
  rw [← Path.isAbsolute_join_name hdir hname.2.2.2, Bool.eq_iff_iff,
    Path.isAbsolute_iff hpieces (by simp), Path.isAbsolute_iff hpath (by simp)]

end FileTree

end FailureTriage
