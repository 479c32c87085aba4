import FailureTriage.Json.Codec
import FailureTriage.Names.Order

/-!
# Sets of names

Sets of names without repetitions, kept in the order of their characters, so that everything built
from a set is reproducible.
-/

namespace FailureTriage

/-- A set of names in increasing order. -/
structure NameSet where
  names : List String
  increasing : names.Pairwise (· < ·)

namespace NameSet

/-- The list with the name in its place, if it is not there already. -/
def insertInto (name : String) : List String → List String
  | [] => [name]
  | first :: rest =>
    if name < first then name :: first :: rest
    else if name = first then first :: rest
    else first :: insertInto name rest

theorem mem_insertInto {name other : String} {names : List String} :
    other ∈ insertInto name names ↔ other = name ∨ other ∈ names := by
  induction names with
  | nil => simp [insertInto]
  | cons first rest ih =>
    unfold insertInto
    split
    · simp
    · split
      · rename_i h; subst h; simp
      · simp only [List.mem_cons, ih]
        constructor <;> (intro h; rcases h with h | h | h <;> simp [h])

theorem pairwise_insertInto (name : String) {names : List String}
    (h : names.Pairwise (· < ·)) : (insertInto name names).Pairwise (· < ·) := by
  induction names with
  | nil => simp [insertInto]
  | cons first rest ih =>
    have hrest := List.pairwise_cons.1 h
    unfold insertInto
    split
    · rename_i hlt
      refine List.pairwise_cons.2 ⟨?_, h⟩
      intro other hother
      rcases List.mem_cons.1 hother with rfl | hother
      · exact hlt
      · exact String.lt_trans hlt (hrest.1 other hother)
    · split
      · exact h
      · rename_i hge hne
        refine List.pairwise_cons.2 ⟨?_, ih hrest.2⟩
        intro other hother
        rcases mem_insertInto.1 hother with rfl | hother
        · exact name_lt_of_not_lt hge hne
        · exact hrest.1 other hother

/-- The set without names. -/
def empty : NameSet := ⟨[], increasing_nil⟩

instance : EmptyCollection NameSet := ⟨empty⟩

instance : Inhabited NameSet := ⟨empty⟩

/-- The set with one more name. -/
def insert (set : NameSet) (name : String) : NameSet :=
  ⟨insertInto name set.names, pairwise_insertInto name set.increasing⟩

/-- Whether the set has the name. -/
def contains (set : NameSet) (name : String) : Bool :=
  set.names.contains name

/-- The set with all the names of a list added. -/
def insertAll (set : NameSet) (names : List String) : NameSet :=
  names.foldl insert set

/-- The set of the names of a list. -/
def ofList (names : List String) : NameSet :=
  empty.insertAll names

/-- How many names the set has. -/
def size (set : NameSet) : Nat :=
  set.names.length

/-- Whether the set has no name. -/
def isEmpty (set : NameSet) : Bool :=
  set.names.isEmpty

theorem ext {a b : NameSet} (h : a.names = b.names) : a = b := by
  cases a; cases b; simp_all

end NameSet

instance : JsonCodec NameSet where
  encode set := encode set.names
  decode? json := (decode? json).map NameSet.ofList

end FailureTriage
