import FailureTriage.Path
import FailureTriage.Proofs.Text.Cutting

/-!
# Joining paths

The components of a path that is seen from another one.  A relative path goes on where the other
one ends; an absolute path forgets it.

* `components_join`: a relative path adds its components.
* `IsBelow`: a path that goes down from another one, by names alone.
-/

namespace FailureTriage.Path

variable {first second path root : Path}

/-- The pieces of a path between its separators. -/
def pieces (path : Path) : List (List Char) :=
  Text.splitOn '/' path.text.toList

/-- The components that a path adds to one that it is joined to. -/
def followers (path : Path) : List PathComponent :=
  path.pieces.filterMap (component? 1)

/-- What the first of several pieces means. -/
def leader (piece : List Char) (rest : List (List Char)) : List PathComponent :=
  if piece = [] ∧ rest ≠ [] then [.root] else (component? 0 piece).toList

/-- A piece that is not the first one means the same at every place. -/
private theorem located_later (pieces : List (List Char)) (place : Nat) :
    ((pieces.zipIdx (place + 1)).filterMap fun (piece, place) =>
        (component? place piece).map fun c => (place, c)).map (·.2)
      = pieces.filterMap (component? 1) := by
  induction pieces generalizing place with
  | nil => rfl
  | cons piece pieces ih =>
      have hsame : component? (place + 1) piece = component? 1 piece := by
        simp only [component?, Nat.add_one_ne_zero, if_false]
      rw [List.zipIdx_cons, List.filterMap_cons, List.filterMap_cons]
      dsimp only
      rw [hsame]
      cases component? 1 piece with
      | none => exact ih (place + 1)
      | some c => exact congrArg (c :: ·) (ih (place + 1))

/-- The components of a path are what its pieces mean. -/
theorem components_of_pieces {piece : List Char} {rest : List (List Char)}
    (h : path.pieces = piece :: rest) :
    path.components = leader piece rest ++ rest.filterMap (component? 1) := by
  rw [components, located]
  dsimp only
  rw [← pieces, h, List.zipIdx_cons, List.filterMap_cons, List.map_append, leader]
  have hrest := located_later rest 0
  rw [Nat.zero_add] at hrest ⊢
  cases piece with
  | nil =>
      cases rest with
      | nil => rfl
      | cons second rest => exact congrArg (PathComponent.root :: ·) hrest
  | cons c piece =>
      rw [if_neg (by simp)]
      dsimp only
      cases component? 0 (c :: piece) with
      | none => exact hrest
      | some found => exact congrArg (found :: ·) hrest

/-- A path that is not empty and starts with a separator has more than one piece. -/
private theorem rest_ne_nil {rest : List (List Char)} (hne : first.isEmpty = false)
    (h : first.pieces = [] :: rest) : rest ≠ [] := by
  rw [pieces] at h
  cases htext : first.text.toList with
  | nil =>
      rw [isEmpty, String.toList_eq_nil_iff.mp htext] at hne
      cases hne
  | cons c text =>
      rw [htext] at h
      by_cases hc : c = '/'
      · subst hc
        obtain ⟨piece, later, hparts⟩ := Text.exists_splitOn '/' text
        rw [Text.splitOn_cons_separator, hparts] at h
        rw [← (List.cons.inj h).2]
        exact List.cons_ne_nil _ _
      · obtain ⟨piece, later, hparts⟩ := Text.exists_splitOn '/' text
        rw [Text.splitOn_cons hc hparts] at h
        cases h

/-- The pieces of a relative path come after those of the path before it. -/
theorem pieces_join (hfirst : first.isEmpty = false) (hsecond : second.isAbsolute = false) :
    ∃ piece rest, (first.join second).pieces = piece :: (rest ++ second.pieces)
      ∧ first.components
        = leader piece (rest ++ second.pieces) ++ rest.filterMap (component? 1) := by
  rw [join, hsecond, hfirst, Bool.or_self, if_neg Bool.false_ne_true]
  split
  · -- a separator at the end of the first path means nothing
    rename_i hlast
    obtain ⟨before, hbefore⟩ := List.getLast?_eq_some_iff.mp (beq_iff_eq.mp hlast)
    obtain ⟨piece, rest, hparts⟩ := Text.exists_splitOn '/' before
    have hpieces : first.pieces = piece :: (rest ++ [[]]) := by
      rw [pieces, hbefore, Text.splitOn_append, hparts]
      rfl
    have hjoined : Path.pieces ⟨first.text ++ second.text⟩ = piece :: (rest ++ second.pieces) := by
      rw [pieces, String.toList_append, hbefore, List.append_assoc, List.singleton_append,
        Text.splitOn_append, hparts]
      rfl
    obtain ⟨other, later, hother⟩ := Text.exists_splitOn '/' second.text.toList
    refine ⟨piece, rest, hjoined, ?_⟩
    rw [components_of_pieces hpieces, leader, leader, pieces, hother]
    simp [component?]
  · obtain ⟨piece, rest, hparts⟩ := Text.exists_splitOn '/' first.text.toList
    have hpieces : first.pieces = piece :: rest := hparts
    have hjoined : Path.pieces ⟨first.text ++ "/" ++ second.text⟩
        = piece :: (rest ++ second.pieces) := by
      rw [pieces, String.toList_append, String.toList_append, List.append_assoc,
        show "/".toList = ['/'] from rfl, List.singleton_append, Text.splitOn_append, hparts]
      rfl
    have hleader : leader piece (rest ++ second.pieces) = leader piece rest := by
      rw [leader, leader]
      by_cases hpiece : piece = []
      · subst hpiece
        have hrest := rest_ne_nil hfirst hpieces
        rw [if_pos ⟨rfl, List.append_ne_nil_of_left_ne_nil hrest _⟩, if_pos ⟨rfl, hrest⟩]
      · rw [if_neg fun h => hpiece h.1, if_neg fun h => hpiece h.1]
    refine ⟨piece, rest, hjoined, ?_⟩
    rw [components_of_pieces hpieces, hleader]

/-- **A relative path** goes on where the path before it ends. -/
theorem components_join (hfirst : first.isEmpty = false) (hsecond : second.isAbsolute = false) :
    (first.join second).components = first.components ++ second.followers := by
  obtain ⟨piece, rest, hjoined, hfirst⟩ := pieces_join hfirst hsecond
  rw [components_of_pieces hjoined, hfirst, List.filterMap_append, List.append_assoc, followers]

/-- A path from an absolute one on is that path. -/
theorem join_of_isAbsolute (h : second.isAbsolute = true) : first.join second = second := by
  rw [join, h]
  rfl

theorem isEmpty_join (h : first.isEmpty = false) : (first.join second).isEmpty = false := by
  have hne : first.text ≠ "" := by
    rw [isEmpty] at h
    intro heq
    rw [heq] at h
    cases h
  rw [join, h, Bool.or_false]
  split
  · rename_i habsolute
    rw [isAbsolute] at habsolute
    cases hempty : second.isEmpty with
    | false => rfl
    | true =>
        rw [isEmpty, String.isEmpty_iff] at hempty
        rw [hempty] at habsolute
        cases habsolute
  split
  · simp [isEmpty, hne]
  · simp [isEmpty, hne]

/-! ## Going down -/

/-- A path that goes down from another one: what it adds are names. -/
def IsBelow (path root : Path) : Prop :=
  ∃ names : List String, names ≠ [] ∧ path.components = root.components ++ names.map .name

theorem IsBelow.trans {middle : Path} (h : path.IsBelow middle) (h' : middle.IsBelow root) :
    path.IsBelow root := by
  obtain ⟨names, hne, hpath⟩ := h
  obtain ⟨above, -, hmiddle⟩ := h'
  refine ⟨above ++ names, List.append_ne_nil_of_right_ne_nil _ hne, ?_⟩
  rw [hpath, hmiddle, List.map_append, List.append_assoc]

/-- A piece that leads neither nowhere nor up. -/
def GoesDown (piece : List Char) : Prop :=
  piece ≠ ['.'] ∧ piece ≠ ['.', '.']

/-- **A relative path without a way up** goes down from the path before it. -/
theorem isBelow_join (hroot : root.isEmpty = false) (hrelative : path.isAbsolute = false)
    (hne : path.isEmpty = false) (hdown : ∀ piece ∈ path.pieces, GoesDown piece) :
    (root.join path).IsBelow root := by
  have hmeaning : ∀ pieces : List (List Char), (∀ piece ∈ pieces, GoesDown piece) →
      pieces.filterMap (component? 1)
        = ((pieces.filter (· ≠ [])).map String.ofList).map PathComponent.name := by
    intro pieces hpieces
    induction pieces with
    | nil => rfl
    | cons piece pieces ih =>
        obtain ⟨hhere, hup⟩ := hpieces piece List.mem_cons_self
        have hrest := ih fun other hother => hpieces other (List.mem_cons_of_mem _ hother)
        by_cases hnil : piece = []
        · simp [component?, hnil, hrest]
        · simp [component?, hnil, hhere, hup, hrest]
  refine ⟨(path.pieces.filter (· ≠ [])).map String.ofList, ?_, ?_⟩
  · -- the first piece is a name
    rw [isAbsolute] at hrelative
    cases htext : path.text.toList with
    | nil =>
        rw [isEmpty, String.toList_eq_nil_iff.mp htext] at hne
        cases hne
    | cons c text =>
        rw [htext] at hrelative
        have hc : c ≠ '/' := by simpa using hrelative
        obtain ⟨piece, rest, hparts⟩ := Text.exists_splitOn '/' text
        rw [pieces, htext, Text.splitOn_cons hc hparts]
        simp
  · rw [components_join hroot hrelative, followers, hmeaning _ hdown]

end FailureTriage.Path
