import FailureTriage.Proofs.Files.Siblings

/-!
# Spellings of a path

A path may be spelled in many ways with the same components.  A spelling decides whether the path
leads anywhere, since one that ends with a separator leads to no file; but spellings that lead
somewhere lead to the same place.

* `Sheds`: steps without some of those that stay.
* `Leads.sheds`: a run goes on without steps that stay.
* `find?_eq_of_components`: what paths with the same components lead to.
-/

namespace FailureTriage.FileTree

/-- Whether a step may lead to another place. -/
def moves : PathStep → Bool
  | .stay | .inside => false
  | .up | .into _ => true

/-- Whether steps are others without some that stay. -/
inductive Sheds : List PathStep → List PathStep → Prop
  | nil : Sheds [] []
  | keep (step : PathStep) {rest rest'} : Sheds rest rest' → Sheds (step :: rest) (step :: rest')
  | drop {step rest rest'} (hstays : moves step = false) :
      Sheds rest rest' → Sheds (step :: rest) rest'

variable {tree : FileTree} {links : Nat} {dir : Location} {steps steps' rest rest' : List PathStep}
  {spot : Spot}

theorem sheds_filter (steps : List PathStep) : Sheds steps (steps.filter moves) := by
  induction steps with
  | nil => exact .nil
  | cons step steps ih =>
      cases hmoves : moves step with
      | true =>
          rw [List.filter_cons_of_pos hmoves]
          exact .keep step ih
      | false =>
          rw [List.filter_cons_of_neg (Bool.eq_false_iff.mp hmoves)]
          exact .drop hmoves ih

/-- Steps before those that are shed stay as they are. -/
theorem Sheds.append_left (h : Sheds rest rest') (first : List PathStep) :
    Sheds (first ++ rest) (first ++ rest') := by
  induction first with
  | nil => exact h
  | cons step first ih => exact .keep step ih

/-- A last step to a name is not shed. -/
theorem Sheds.eq_of_into {name : String} (h : Sheds [.into name] steps') :
    steps' = [.into name] := by
  cases h with
  | keep _ hrest =>
      cases hrest
      rfl
  | drop hidle => cases hidle

/-- **A run goes on** in the same way without steps that stay. -/
theorem Leads.sheds (h : tree.Leads .target ⟨links, dir, steps⟩ spot)
    (hsheds : Sheds steps steps') :
    tree.Leads .target ⟨links, dir, steps'⟩ spot := by
  generalize hway : (⟨links, dir, steps⟩ : Way) = way at h
  -- a link puts the steps of its target before the others, where none of them is shed
  induction h generalizing links dir steps steps' with
  | done hends =>
      subst hway
      cases hends with
      | here =>
          cases hsheds
          exact .done .here
      | vacant henter hentry =>
          rw [hsheds.eq_of_into]
          exact .done (.vacant henter hentry)
      | file henter hentry =>
          rw [hsheds.eq_of_into]
          exact .done (.file henter hentry)
      | link _ _ hending => cases hending
  | step hmove _ ih =>
      subst hway
      cases hmove with
      | stay =>
          cases hsheds with
          | keep _ hrest => exact .step .stay (ih hrest rfl)
          | drop _ hrest => exact ih hrest rfl
      | inside =>
          cases hsheds with
          | keep _ hrest => exact .step .inside (ih hrest rfl)
          | drop _ hrest => exact ih hrest rfl
      | up =>
          cases hsheds with
          | keep _ hrest => exact .step .up (ih hrest rfl)
          | drop hidle => cases hidle
      | directory henter hentry =>
          cases hsheds with
          | keep _ hrest =>
              exact .step (.directory (mayEnter_of_ne nofun henter.short) hentry) (ih hrest rfl)
          | drop hidle => cases hidle
      | link henter hentry =>
          cases hsheds with
          | keep _ hrest =>
              exact .step (.link (mayEnter_of_ne nofun henter.short) hentry nofun)
                (ih (hrest.append_left _) rfl)
          | drop hidle => cases hidle

/-! ## Components -/

/-- The step to the place that a component names, seen from the one before it. -/
def stepOfComponent? : PathComponent → Option PathStep
  | .root | .here => none
  | .up => some .up
  | .name text => some (.into text)

/-- A piece means a component that may lead to another place exactly if its step may. -/
theorem bind_component? (place : Nat) (piece : List Char) :
    (Path.component? place piece).bind stepOfComponent? = (stepOf? piece).filter moves := by
  rw [Path.component?, stepOf?]
  by_cases hempty : piece = []
  · rw [if_pos hempty, if_pos hempty]
    rfl
  rw [if_neg hempty, if_neg hempty]
  by_cases hdot : piece = ['.']
  · rw [if_pos hdot, if_pos hdot]
    split <;> rfl
  rw [if_neg hdot, if_neg hdot]
  by_cases hup : piece = ['.', '.']
  · rw [if_pos hup, if_pos hup]
    rfl
  · rw [if_neg hup, if_neg hup]
    rfl

/-- The steps that may lead to another place are those of the components. -/
theorem filter_stepsOf (path : Path) :
    (stepsOf path).filter moves = path.components.filterMap stepOfComponent? := by
  have hlater : ∀ pieces : List (List Char),
      (pieces.filterMap (Path.component? 1)).filterMap stepOfComponent?
        = (pieces.filterMap stepOf?).filter moves := by
    intro pieces
    rw [List.filterMap_filterMap, List.filter_filterMap]
    simp only [bind_component?]
  have hend : (if path.text.toList.getLast? = some '/' then [PathStep.inside] else []).filter moves
      = [] := by
    split <;> rfl
  obtain ⟨piece, rest, hpieces⟩ := Text.exists_splitOn '/' path.text.toList
  have hleader : (Path.leader piece rest).filterMap stepOfComponent?
      = ([piece].filterMap stepOf?).filter moves := by
    rw [List.filter_filterMap, Path.leader]
    split
    · rename_i hroot
      rw [hroot.1]
      rfl
    · rw [List.filterMap_cons, List.filterMap_nil, ← bind_component? 0]
      cases Path.component? 0 piece with
      | none => rfl
      | some component =>
          rw [Option.toList_some, List.filterMap_cons, List.filterMap_nil, Option.bind_some]
  rw [stepsOf, List.filter_append, hend, List.append_nil, hpieces,
    Path.components_of_pieces hpieces, List.filterMap_append, hleader, hlater, ← List.filter_append,
    ← List.filterMap_append, List.singleton_append]

/-- A path is absolute if it starts with a separator. -/
theorem isAbsolute_iff_pieces {path : Path} {piece : List Char} {rest : List (List Char)}
    (hpieces : Text.splitOn '/' path.text.toList = piece :: rest) :
    path.isAbsolute = true ↔ piece = [] ∧ rest ≠ [] := by
  by_cases hrest : rest = []
  · refine iff_of_false (fun habsolute => ?_) fun h => h.2 hrest
    rw [Path.isAbsolute, beq_iff_eq] at habsolute
    obtain ⟨tail, htail⟩ := List.head?_eq_some_iff.mp habsolute
    rw [htail, Text.splitOn_cons_separator, hrest] at hpieces
    obtain ⟨next, later, hmore⟩ := Text.exists_splitOn '/' tail
    exact absurd (hmore.symm.trans (List.cons.inj hpieces).2) (List.cons_ne_nil _ _)
  · rw [Path.isAbsolute_iff hpieces hrest, and_iff_left hrest]

/-- No piece of a path is the root. -/
theorem component?_ne_root (place : Nat) (piece : List Char) :
    Path.component? place piece ≠ some .root := by
  rw [Path.component?]
  repeat' split
  all_goals simp

/-- A path is absolute if its first component is the root. -/
theorem isAbsolute_iff_head? {path : Path} :
    path.isAbsolute = true ↔ path.components.head? = some .root := by
  obtain ⟨piece, rest, hpieces⟩ := Text.exists_splitOn '/' path.text.toList
  rw [isAbsolute_iff_pieces hpieces, Path.components_of_pieces hpieces, Path.leader]
  split
  next hroot => exact iff_of_true hroot rfl
  next hnone =>
    refine iff_of_false hnone fun hhead => ?_
    rcases List.mem_append.mp (List.mem_of_head? hhead) with hfirst | hmore
    · exact component?_ne_root 0 piece (Option.mem_toList.mp hfirst)
    · obtain ⟨other, -, hroot⟩ := List.mem_filterMap.mp hmore
      exact component?_ne_root 1 other hroot

/-- **Spellings of a path** that lead somewhere lead to the same place. -/
theorem find?_eq_of_components {a b : Path} (h : a.components = b.components)
    {found found' : Location × FileEntry} (ha : tree.find? a = some found)
    (hb : tree.find? b = some found') : found = found' := by
  have hstart : startOf a tree.workingDir = startOf b tree.workingDir := by
    have habsolute : a.isAbsolute = b.isAbsolute := by
      rw [Bool.eq_iff_iff, isAbsolute_iff_head?, isAbsolute_iff_head?, h]
    rw [startOf, startOf, habsolute]
  have hsteps : (stepsOf a).filter moves = (stepsOf b).filter moves := by
    rw [filter_stepsOf, filter_stepsOf, h]
  obtain ⟨-, hleads⟩ := find?_eq_some_iff.mp ha
  obtain ⟨-, hleads'⟩ := find?_eq_some_iff.mp hb
  have hfirst := Leads.sheds hleads (sheds_filter (stepsOf a))
  have hsecond := Leads.sheds hleads' (sheds_filter (stepsOf b))
  rw [hstart, hsteps] at hfirst
  have hsame := hfirst.unique hsecond
  exact Prod.ext (Spot.entry.inj hsame).1 (Spot.entry.inj hsame).2

end FailureTriage.FileTree
