import FailureTriage.Names.Map
import FailureTriage.Names.Set
import FailureTriage.Proofs.Lists.Lookup

/-!
# Sets and tables of names

What a table says about a name after an entry is added, and after a list of entries; and what a set
or a table is that is made of its own names or entries.

* `NameMap.get?_insert`: only the name of the entry gets another text.
* `NameMap.get?_ofList`: the last entry of a name counts.
* `NameSet.mem_insertAll`, `NameSet.mem_ofList`: the names of a set.
* `NameSet.ofList_names`, `NameMap.ofList_entries`: nothing is lost of what stands in order.
-/

namespace FailureTriage

namespace NameMap

/-- Only the name of the entry gets another text. -/
theorem get?_insert (map : NameMap) (name value other : String) :
    (map.insert name value).get? other = if other = name then some value else map.get? other := by
  show (insertInto name value map.entries).lookup other
    = if other = name then some value else map.entries.lookup other
  induction map.entries with
  | nil => exact lookup_cons_eq_ite name other value []
  | cons first rest ih =>
      obtain ⟨key, text⟩ := first
      rw [insertInto]
      by_cases hlt : name < key
      · rw [if_pos hlt, lookup_cons_eq_ite]
      · rw [if_neg hlt]
        by_cases heq : name = key
        · subst heq
          rw [if_pos rfl, lookup_cons_eq_ite, lookup_cons_eq_ite]
          by_cases h : other = name
          · rw [if_pos h, if_pos h]
          · rw [if_neg h, if_neg h, if_neg h]
        · rw [if_neg heq, lookup_cons_eq_ite, ih, lookup_cons_eq_ite]
          by_cases h : other = name
          · rw [if_pos h, if_neg (fun hkey => heq (h.symm.trans hkey)), if_pos h]
          · rw [if_neg h, if_neg h]

private theorem get?_foldl_insert (entries : List (String × String)) (map : NameMap)
    (name : String) :
    (entries.foldl (fun map entry => map.insert entry.1 entry.2) map).get? name
      = (entries.reverse.lookup name).or (map.get? name) := by
  induction entries generalizing map with
  | nil => rfl
  | cons entry rest ih =>
      rw [List.foldl_cons, ih, get?_insert, List.reverse_cons, List.lookup_append,
        lookup_cons_eq_ite]
      cases rest.reverse.lookup name with
      | some value => rfl
      | none => by_cases h : name = entry.1 <;> simp [h]

/-- **The last entry of a name** counts. -/
theorem get?_ofList (entries : List (String × String)) (name : String) :
    (ofList entries).get? name = entries.reverse.lookup name := by
  rw [ofList, get?_foldl_insert]
  show (entries.reverse.lookup name).or none = _
  rw [Option.or_none]

/-! ## Entries in order -/

theorem insertInto_last {entries : List (String × String)} {name value : String}
    (h : ∀ other ∈ entries.map Prod.fst, other < name) :
    insertInto name value entries = entries ++ [(name, value)] := by
  induction entries with
  | nil => rfl
  | cons first rest ih =>
      have hfirst := h first.1 List.mem_cons_self
      rw [insertInto, if_neg (String.lt_asymm hfirst), if_neg (String.ne_of_lt hfirst).symm,
        ih fun other hother => h other (List.mem_cons_of_mem first.1 hother), List.cons_append]

private theorem entries_foldl_insert {map : NameMap} {entries : List (String × String)}
    (h : ((map.entries ++ entries).map Prod.fst).Pairwise (· < ·)) :
    (entries.foldl (fun map entry => map.insert entry.1 entry.2) map).entries
      = map.entries ++ entries := by
  induction entries generalizing map with
  | nil => exact (List.append_nil _).symm
  | cons entry rest ih =>
      have hlast : (map.insert entry.1 entry.2).entries = map.entries ++ [entry] := by
        refine insertInto_last fun other hother => ?_
        rw [List.map_append] at h
        exact (List.pairwise_append.mp h).2.2 other hother entry.1 List.mem_cons_self
      rw [List.foldl_cons]
      rw [← List.singleton_append, ← List.append_assoc, ← hlast] at h ⊢
      exact ih h

/-- **A table** is made of its own entries. -/
theorem ofList_entries (map : NameMap) : ofList map.entries = map :=
  ext (entries_foldl_insert map.increasing)

end NameMap

namespace NameSet

theorem insertInto_last {names : List String} {name : String}
    (h : ∀ other ∈ names, other < name) : insertInto name names = names ++ [name] := by
  induction names with
  | nil => rfl
  | cons first rest ih =>
      have hfirst := h first List.mem_cons_self
      rw [insertInto, if_neg (String.lt_asymm hfirst), if_neg (String.ne_of_lt hfirst).symm,
        ih fun other hother => h other (List.mem_cons_of_mem first hother), List.cons_append]

@[simp] theorem notMem_empty (name : String) : name ∉ (∅ : NameSet).names :=
  List.not_mem_nil

/-- The names of a set and those that are added are in it. -/
theorem mem_insertAll {set : NameSet} {names : List String} {name : String} :
    name ∈ (set.insertAll names).names ↔ name ∈ set.names ∨ name ∈ names := by
  rw [insertAll]
  induction names generalizing set with
  | nil => simp
  | cons first names ih =>
      rw [List.foldl_cons, ih]
      show name ∈ insertInto first set.names ∨ name ∈ names ↔ _
      rw [mem_insertInto, List.mem_cons, @or_comm (name = first), or_assoc]

/-- The names of a list are in the set that is made of it. -/
theorem mem_ofList {names : List String} {name : String} :
    name ∈ (ofList names).names ↔ name ∈ names := by
  rw [ofList, mem_insertAll, or_iff_right]
  exact List.not_mem_nil

private theorem names_insertAll {set : NameSet} {names : List String}
    (h : (set.names ++ names).Pairwise (· < ·)) :
    (set.insertAll names).names = set.names ++ names := by
  induction names generalizing set with
  | nil => exact (List.append_nil _).symm
  | cons name rest ih =>
      have hlast : (set.insert name).names = set.names ++ [name] :=
        insertInto_last fun other hother =>
          (List.pairwise_append.mp h).2.2 other hother name List.mem_cons_self
      rw [← List.singleton_append, ← List.append_assoc, ← hlast] at h ⊢
      exact ih h

/-- **A set** is made of its own names. -/
theorem ofList_names (set : NameSet) : ofList set.names = set :=
  ext (names_insertAll set.increasing)

end NameSet

end FailureTriage
