import Mathlib.Data.List.Induction
import Mathlib.Data.List.Nodup

/-!
# The first item of each key

A list without the items whose key an earlier item has.  A list that grows by one item after the
other, each only if its key is new, is such a list.

* `foldl_eq_firstOfEach`: growing item by item.
* `nodup_keys_firstOfEach`, `mem_keys_firstOfEach`: each key of the list, once.
* `mem_firstOfEach`, `map_firstOfEach`: which items are kept, and the list of their keys.
* `pairwise_firstOfEach_id`: the order of items that are their own keys.
-/

namespace FailureTriage

variable {α κ : Type} [DecidableEq κ]

/-- The items whose key no earlier item has. -/
def firstOfEach (key : α → κ) (items : List α) : List α :=
  items.zipIdx.filterMap fun (item, place) =>
    if key item ∈ (items.take place).map key then none else some item

variable {key : α → κ}

/-- One more item is in the list if its key is new. -/
theorem firstOfEach_concat (items : List α) (item : α) :
    firstOfEach key (items ++ [item])
      = firstOfEach key items ++ if key item ∈ items.map key then [] else [item] := by
  have hbefore : ∀ entry ∈ items.zipIdx,
      (items ++ [item]).take entry.2 = items.take entry.2 := by
    intro entry hmem
    have hplace := List.snd_lt_of_mem_zipIdx hmem
    exact List.take_append_of_le_length (by omega)
  rw [firstOfEach, List.zipIdx_append, List.filterMap_append]
  congr 1
  · refine List.filterMap_congr fun entry hmem => ?_
    show (if _ ∈ ((items ++ [item]).take entry.2).map key then none else some _) = _
    rw [hbefore entry hmem]
  · rw [List.zipIdx_singleton, Nat.zero_add]
    by_cases h : key item ∈ items.map key
    · rw [if_pos h, List.filterMap_cons_none]
      · rfl
      · dsimp only
        rw [List.take_left, if_pos h]
    · rw [if_neg h, List.filterMap_cons_some]
      · rfl
      · dsimp only
        rw [List.take_left, if_neg h]

/-- Each key of the items is the key of an item that is kept. -/
theorem mem_keys_firstOfEach {items : List α} {k : κ} :
    k ∈ (firstOfEach key items).map key ↔ k ∈ items.map key := by
  induction items using List.reverseRecOn with
  | nil => rfl
  | append_singleton items item ih =>
      rw [firstOfEach_concat, List.map_append, List.mem_append, ih, List.map_append,
        List.mem_append]
      by_cases h : key item ∈ items.map key
      · rw [if_pos h]
        constructor
        · rintro (hk | hk)
          · exact Or.inl hk
          · cases hk
        · rintro (hk | hk)
          · exact Or.inl hk
          · exact Or.inl (List.mem_singleton.mp hk ▸ h)
      · rw [if_neg h]

/-- No key is the key of two items that are kept. -/
theorem nodup_keys_firstOfEach (items : List α) : ((firstOfEach key items).map key).Nodup := by
  induction items using List.reverseRecOn with
  | nil => exact List.nodup_nil
  | append_singleton items item ih =>
      rw [firstOfEach_concat]
      by_cases h : key item ∈ items.map key
      · rwa [if_pos h, List.append_nil]
      · rw [if_neg h, List.map_append]
        refine List.nodup_append.mpr ⟨ih, List.nodup_singleton _, ?_⟩
        rintro k hk other hother rfl
        rw [List.mem_singleton.mp hother] at hk
        exact h (mem_keys_firstOfEach.mp hk)

/-- The items that are kept stand in the order of the list. -/
theorem firstOfEach_sublist (items : List α) : (firstOfEach key items).Sublist items := by
  induction items using List.reverseRecOn with
  | nil => exact List.Sublist.slnil
  | append_singleton items item ih =>
      rw [firstOfEach_concat]
      split
      · exact (List.append_nil _).symm ▸ ih.trans (List.sublist_append_left items [item])
      · exact ih.append (List.Sublist.refl [item])

/-- Keys that tell the same items apart keep the same items. -/
theorem firstOfEach_congr {other : Type} [DecidableEq other] {key' : α → other} {items : List α}
    (h : ∀ a ∈ items, ∀ b ∈ items, key a = key b ↔ key' a = key' b) :
    firstOfEach key items = firstOfEach key' items := by
  refine List.filterMap_congr fun entry hmem => ?_
  have hitem : entry.1 ∈ items := List.fst_mem_of_mem_zipIdx hmem
  have hseen : key entry.1 ∈ (items.take entry.2).map key
      ↔ key' entry.1 ∈ (items.take entry.2).map key' := by
    rw [List.mem_map, List.mem_map]
    constructor
    · rintro ⟨a, ha, heq⟩
      exact ⟨a, ha, (h a (List.mem_of_mem_take ha) entry.1 hitem).mp heq⟩
    · rintro ⟨a, ha, heq⟩
      exact ⟨a, ha, (h a (List.mem_of_mem_take ha) entry.1 hitem).mpr heq⟩
  exact if_congr hseen rfl rfl

/-- An item is kept if its key is new where it stands. -/
theorem mem_firstOfEach {items : List α} {item : α} :
    item ∈ firstOfEach key items
      ↔ ∃ before after, items = before ++ item :: after ∧ key item ∉ before.map key := by
  induction items using List.reverseRecOn with
  | nil =>
      refine iff_of_false List.not_mem_nil ?_
      rintro ⟨before, after, h, -⟩
      exact List.cons_ne_nil item after (List.append_eq_nil_iff.mp h.symm).2
  | append_singleton items last ih =>
      rw [firstOfEach_concat, List.mem_append, ih]
      constructor
      · rintro (⟨before, after, rfl, hnew⟩ | hlast)
        · exact ⟨before, after ++ [last], by rw [List.append_assoc, List.cons_append], hnew⟩
        · by_cases h : key last ∈ items.map key
          · rw [if_pos h] at hlast
            cases hlast
          · rw [if_neg h] at hlast
            obtain rfl := List.mem_singleton.mp hlast
            exact ⟨items, [], rfl, h⟩
      · rintro ⟨before, after, hitems, hnew⟩
        rcases List.eq_nil_or_concat after with rfl | ⟨after, other, rfl⟩
        · obtain ⟨rfl, hlast⟩ := List.append_inj' hitems rfl
          obtain rfl := List.singleton_inj.mp hlast
          exact Or.inr (by rw [if_neg hnew]; exact List.mem_singleton_self _)
        · rw [List.concat_eq_append, ← List.cons_append, ← List.append_assoc] at hitems
          exact Or.inl ⟨before, after, (List.append_inj' hitems rfl).1, hnew⟩

/-- In a list in some order, an item is kept if no item before it has its key. -/
theorem mem_firstOfEach_of_pairwise {precedes : α → α → Prop}
    (hasymm : ∀ a b, precedes a b → ¬ precedes b a) {items : List α}
    (h : items.Pairwise precedes) {item : α} :
    item ∈ firstOfEach key items
      ↔ item ∈ items ∧ ∀ other ∈ items, precedes other item → key other ≠ key item := by
  rw [mem_firstOfEach]
  constructor
  · rintro ⟨before, after, rfl, hnew⟩
    refine ⟨List.mem_append_right before List.mem_cons_self, fun other hother hprecedes heq => ?_⟩
    obtain ⟨-, hafter, -⟩ := List.pairwise_append.mp h
    rcases List.mem_append.mp hother with hbefore | hlater
    · exact hnew (heq ▸ List.mem_map_of_mem hbefore)
    · rcases List.mem_cons.mp hlater with rfl | hlater
      · exact hasymm _ _ hprecedes hprecedes
      · exact hasymm _ _ hprecedes (List.rel_of_pairwise_cons hafter hlater)
  · rintro ⟨hitem, hfirst⟩
    obtain ⟨before, after, rfl⟩ := List.append_of_mem hitem
    refine ⟨before, after, rfl, fun hmem => ?_⟩
    obtain ⟨other, hother, heq⟩ := List.mem_map.mp hmem
    refine hfirst other (List.mem_append_left _ hother) ?_ heq
    exact (List.pairwise_append.mp h).2.2 other hother item List.mem_cons_self

/-- The keys of the items that are kept are the keys of the list without repetitions. -/
theorem map_firstOfEach [BEq κ] [LawfulBEq κ] (items : List α) :
    (firstOfEach key items).map key = (items.map key).eraseDups := by
  induction items using List.reverseRecOn with
  | nil => rfl
  | append_singleton items item ih =>
      rw [firstOfEach_concat, List.map_append, ih, List.map_append, List.map_singleton,
        List.eraseDups_append]
      by_cases h : key item ∈ items.map key
      · rw [if_pos h, List.removeAll, List.filter_cons_of_neg]
        · rfl
        · rw [List.elem_iff.mpr h]
          exact Bool.noConfusion
      · rw [if_neg h, List.removeAll, List.filter_cons_of_pos]
        · rfl
        · rw [Bool.not_eq_true']
          exact Bool.eq_false_iff.mpr fun helem => h (List.elem_iff.mp helem)

/-- **A list that grows** by each item whose key is new has the first item of each key. -/
theorem foldl_eq_firstOfEach {grow : List α → α → List α}
    (hseen : ∀ found item, key item ∈ found.map key → grow found item = found)
    (hnew : ∀ found item, key item ∉ found.map key → grow found item = found ++ [item])
    (items : List α) : items.foldl grow [] = firstOfEach key items := by
  induction items using List.reverseRecOn with
  | nil => rfl
  | append_singleton items item ih =>
      rw [List.foldl_append, List.foldl_cons, List.foldl_nil, ih, firstOfEach_concat]
      by_cases h : key item ∈ items.map key
      · rw [if_pos h, List.append_nil]
        exact hseen _ _ (mem_keys_firstOfEach.mpr h)
      · rw [if_neg h]
        exact hnew _ _ fun hk => h (mem_keys_firstOfEach.mp hk)

/-! ## Items that are their own keys -/

theorem mem_firstOfEach_id {items : List κ} {item : κ} :
    item ∈ firstOfEach id items ↔ item ∈ items := by
  rw [← List.map_id (firstOfEach id items), mem_keys_firstOfEach, List.map_id]

/-- Items that are their own keys. -/
theorem firstOfEach_id [BEq κ] [LawfulBEq κ] (items : List κ) :
    firstOfEach id items = items.eraseDups := by
  rw [← List.map_id (firstOfEach id items), map_firstOfEach, List.map_id]

theorem nodup_firstOfEach_id (items : List κ) : (firstOfEach id items).Nodup := by
  rw [← List.map_id (firstOfEach id items)]
  exact nodup_keys_firstOfEach items

/-- Items without repetitions stand in the order in which they were seen first. -/
theorem pairwise_firstOfEach_id (items : List κ) :
    (firstOfEach id items).Pairwise fun a b => items.idxOf a < items.idxOf b := by
  induction items using List.reverseRecOn with
  | nil => exact List.Pairwise.nil
  | append_singleton items item ih =>
      have hbefore : ∀ a ∈ firstOfEach id items, (items ++ [item]).idxOf a = items.idxOf a :=
        fun a ha => List.idxOf_append_of_mem (mem_firstOfEach_id.mp ha)
      have hkept : (firstOfEach id items).Pairwise fun a b =>
          (items ++ [item]).idxOf a < (items ++ [item]).idxOf b := by
        refine ih.imp_of_mem fun {a b} ha hb hlt => ?_
        rwa [hbefore a ha, hbefore b hb]
      rw [firstOfEach_concat, List.map_id]
      by_cases h : id item ∈ items
      · rwa [if_pos h, List.append_nil]
      · rw [if_neg h]
        refine List.pairwise_append.mpr ⟨hkept, List.pairwise_singleton _ _, ?_⟩
        intro a ha b hb
        obtain rfl := List.mem_singleton.mp hb
        have h : b ∉ items := h
        rw [hbefore a ha, List.idxOf_append_of_notMem h, List.idxOf_cons_self, Nat.add_zero]
        exact List.idxOf_lt_length_of_mem (mem_firstOfEach_id.mp ha)

end FailureTriage
