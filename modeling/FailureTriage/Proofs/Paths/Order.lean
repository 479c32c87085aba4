import FailureTriage.Files.Walk
import FailureTriage.Names.Order

/-!
# The order of paths

Components are in a strict order in which any two differ in one direction, so are sequences of
components, and a list of paths that is sorted is in the order of its components.

* `atMost_trans`, `atMost_total`: the order of paths.
* `atMost_iff_le`: the order of paths that differ only in a last name.
* `pairwise_sourceFiles`, `pairwise_filesIn`: the sources that are listed stand in this order.
-/

namespace FailureTriage

namespace PathComponent

private theorem before_name {s t : String} :
    (PathComponent.name s).before (.name t) = true ↔ s < t :=
  decide_eq_true_iff

private theorem before_trans {a b c : PathComponent} (hab : a.before b = true)
    (hbc : b.before c = true) : a.before c = true := by
  cases a with
  | name s =>
      cases b with
      | name t =>
          cases c with
          | name u =>
              rw [before_name] at hab hbc ⊢
              exact String.lt_trans hab hbc
          | _ => cases hbc
      | _ => cases hab
  | _ => cases b <;> cases c <;> simp [before, rank] at hab hbc ⊢

private theorem not_before_self (a : PathComponent) : a.before a = false := by
  cases a with
  | name s =>
      rw [← Bool.not_eq_true, before_name]
      exact String.lt_irrefl s
  | _ => rfl

/-- Of two different components one comes first. -/
private theorem before_or_eq (a b : PathComponent) :
    a.before b = true ∨ a = b ∨ b.before a = true := by
  cases a with
  | name s =>
      cases b with
      | name t =>
          by_cases hlt : s < t
          · exact Or.inl (decide_eq_true hlt)
          · by_cases heq : s = t
            · exact Or.inr (Or.inl (congrArg PathComponent.name heq))
            · exact Or.inr (Or.inr (decide_eq_true (name_lt_of_not_lt hlt heq)))
      | _ => exact Or.inr (Or.inr rfl)
  | _ => cases b <;> simp [before, rank]

end PathComponent

namespace Path

/-- The first components that differ decide. -/
private theorem sequenceBefore_cons {a b : PathComponent} {as bs : List PathComponent} :
    sequenceBefore (a :: as) (b :: bs) = true
      ↔ a.before b = true ∨ a = b ∧ sequenceBefore as bs = true := by
  rw [sequenceBefore, Bool.or_eq_true, Bool.and_eq_true, beq_iff_eq]

private theorem sequenceBefore_trans {a b c : List PathComponent}
    (hab : sequenceBefore a b = true) (hbc : sequenceBefore b c = true) :
    sequenceBefore a c = true := by
  induction a generalizing b c with
  | nil =>
      cases c with
      | nil => cases b <;> cases hbc
      | cons _ _ => rfl
  | cons x as ih =>
      cases b with
      | nil => cases hab
      | cons y bs =>
          cases c with
          | nil => cases hbc
          | cons z cs =>
              rw [sequenceBefore_cons] at hab hbc ⊢
              rcases hab with hxy | ⟨rfl, hab⟩
              · rcases hbc with hyz | ⟨rfl, -⟩
                · exact Or.inl (PathComponent.before_trans hxy hyz)
                · exact Or.inl hxy
              · rcases hbc with hyz | ⟨rfl, hbc⟩
                · exact Or.inl hyz
                · exact Or.inr ⟨rfl, ih hab hbc⟩

private theorem not_sequenceBefore_self (a : List PathComponent) : sequenceBefore a a = false := by
  induction a with
  | nil => rfl
  | cons x as ih => rw [sequenceBefore, PathComponent.not_before_self, ih, Bool.and_false]; rfl

/-- Of two different sequences one comes first. -/
private theorem sequenceBefore_or_eq (a b : List PathComponent) :
    sequenceBefore a b = true ∨ a = b ∨ sequenceBefore b a = true := by
  induction a generalizing b with
  | nil =>
      cases b with
      | nil => exact Or.inr (Or.inl rfl)
      | cons _ _ => exact Or.inl rfl
  | cons x as ih =>
      cases b with
      | nil => exact Or.inr (Or.inr rfl)
      | cons y bs =>
          rw [sequenceBefore_cons, sequenceBefore_cons]
          rcases PathComponent.before_or_eq x y with hxy | rfl | hyx
          · exact Or.inl (Or.inl hxy)
          · rcases ih bs with hab | rfl | hba
            · exact Or.inl (Or.inr ⟨rfl, hab⟩)
            · exact Or.inr (Or.inl rfl)
            · exact Or.inr (Or.inr (Or.inr ⟨rfl, hba⟩))
          · exact Or.inr (Or.inr (Or.inl hyx))

/-- What two sequences start with alike does not matter. -/
theorem sequenceBefore_append_left (front a b : List PathComponent) :
    sequenceBefore (front ++ a) (front ++ b) = sequenceBefore a b := by
  induction front with
  | nil => rfl
  | cons c front ih =>
      rw [List.cons_append, List.cons_append, sequenceBefore, PathComponent.not_before_self, ih,
        Bool.false_or, beq_self_eq_true, Bool.true_and]

theorem atMost_iff {a b : Path} :
    a.atMost b = true ↔ ¬ sequenceBefore b.components a.components = true := by
  rw [atMost, Bool.not_eq_true', Bool.not_eq_true]

/-- Paths that differ only in a last name are in the order of these names. -/
theorem atMost_iff_le {a b : Path} {front : List PathComponent} {s t : String}
    (ha : a.components = front ++ [.name s]) (hb : b.components = front ++ [.name t]) :
    a.atMost b = true ↔ s ≤ t := by
  rw [atMost_iff, ha, hb, sequenceBefore_append_left, sequenceBefore_cons,
    PathComponent.before_name, ← String.not_lt]
  exact not_congr (or_iff_left fun h => nomatch h.2)

theorem atMost_trans (a b c : Path) (hab : a.atMost b = true) (hbc : b.atMost c = true) :
    a.atMost c = true := by
  rw [atMost_iff] at hab hbc ⊢
  intro hca
  rcases sequenceBefore_or_eq b.components c.components with h | h | h
  · exact hab (sequenceBefore_trans h hca)
  · exact hab (h ▸ hca)
  · exact hbc h

theorem atMost_total (a b : Path) : (a.atMost b || b.atMost a) = true := by
  rw [Bool.or_eq_true, atMost_iff, atMost_iff]
  by_cases h : sequenceBefore b.components a.components = true
  · refine Or.inr fun h' => ?_
    have hself := sequenceBefore_trans h h'
    rw [not_sequenceBefore_self] at hself
    cases hself
  · exact Or.inl h

end Path

namespace FileTree

/-- **Sorted paths** are in the order of paths. -/
theorem pairwise_sortPaths (paths : List Path) :
    (sortPaths paths).Pairwise fun a b => a.atMost b = true :=
  List.pairwise_mergeSort Path.atMost_trans Path.atMost_total paths

theorem mem_sortPaths {paths : List Path} {path : Path} : path ∈ sortPaths paths ↔ path ∈ paths :=
  List.mem_mergeSort

variable {tree : FileTree}

theorem pairwise_sourceFiles (root : Path) (extension : String) :
    (tree.sourceFiles root extension).Pairwise fun a b => a.atMost b = true :=
  pairwise_sortPaths _

theorem pairwise_filesIn (dir : Path) (extension : String) :
    (tree.filesIn dir extension).Pairwise fun a b => a.atMost b = true := by
  rw [filesIn]
  cases tree.list dir with
  | ok names => exact pairwise_sortPaths _
  | error fault => exact List.Pairwise.nil

end FileTree

end FailureTriage
