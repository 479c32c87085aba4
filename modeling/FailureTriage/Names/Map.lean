import FailureTriage.Json.Codec
import FailureTriage.Names.Order

/-!
# Tables of named texts

A table gives a text to each of its names.  Its entries stand in the order of their names.
-/

namespace FailureTriage

/-- A table of texts by name, in increasing order of the names. -/
structure NameMap where
  entries : List (String × String)
  increasing : (entries.map Prod.fst).Pairwise (· < ·)

namespace NameMap

/-- The entries with the name given a text. -/
def insertInto (name value : String) : List (String × String) → List (String × String)
  | [] => [(name, value)]
  | first :: rest =>
    if name < first.1 then (name, value) :: first :: rest
    else if name = first.1 then (name, value) :: rest
    else first :: insertInto name value rest

theorem mem_keys_insertInto {name value other : String} {entries : List (String × String)} :
    other ∈ (insertInto name value entries).map Prod.fst
      ↔ other = name ∨ other ∈ entries.map Prod.fst := by
  induction entries with
  | nil => simp [insertInto]
  | cons first rest ih =>
    unfold insertInto
    split
    · simp
    · split
      · rename_i h; simp [h]
      · simp only [List.map_cons, List.mem_cons, ih]
        constructor <;> (intro h; rcases h with h | h | h <;> simp [h])

theorem pairwise_insertInto (name value : String) {entries : List (String × String)}
    (h : (entries.map Prod.fst).Pairwise (· < ·)) :
    ((insertInto name value entries).map Prod.fst).Pairwise (· < ·) := by
  induction entries with
  | nil => simp [insertInto]
  | cons first rest ih =>
    have hrest := List.pairwise_cons.1 h
    unfold insertInto
    split
    · rename_i hlt
      refine List.pairwise_cons.2 ⟨?_, h⟩
      intro other hother
      rcases List.mem_cons.1 hother with rfl | hother
      · exact hlt
      · exact String.lt_trans hlt (hrest.1 other hother)
    · split
      · rename_i heq
        refine List.pairwise_cons.2 ⟨?_, hrest.2⟩
        simpa [heq] using hrest.1
      · rename_i hge hne
        refine List.pairwise_cons.2 ⟨?_, ih hrest.2⟩
        intro other hother
        rcases mem_keys_insertInto.1 hother with rfl | hother
        · exact name_lt_of_not_lt hge hne
        · exact hrest.1 other hother

/-- The table without entries. -/
def empty : NameMap := ⟨[], increasing_nil⟩

instance : EmptyCollection NameMap := ⟨empty⟩

instance : Inhabited NameMap := ⟨empty⟩

/-- The table with the name given a text, in place of the one it had. -/
def insert (map : NameMap) (name value : String) : NameMap :=
  ⟨insertInto name value map.entries, pairwise_insertInto name value map.increasing⟩

/-- The text of a name. -/
def get? (map : NameMap) (name : String) : Option String :=
  map.entries.lookup name

/-- Whether the table has no entry. -/
def isEmpty (map : NameMap) : Bool :=
  map.entries.isEmpty

/-- The table of a list of entries; a later entry replaces an earlier one of its name. -/
def ofList (entries : List (String × String)) : NameMap :=
  entries.foldl (fun map entry => map.insert entry.1 entry.2) empty

/-- The entries whose names satisfy `keep`. -/
def filterNames (map : NameMap) (keep : String → Bool) : NameMap where
  entries := map.entries.filter fun entry => keep entry.1
  increasing := map.increasing.sublist (List.filter_sublist.map Prod.fst)

theorem ext {a b : NameMap} (h : a.entries = b.entries) : a = b := by
  cases a; cases b; simp_all

end NameMap

/-- The name and the text of one member of an object. -/
def entryOfMember? : Option String × Json → Option (String × String)
  | (some name, value) => (decode? value).map fun text => (name, text)
  | (none, _) => none

instance : JsonCodec NameMap where
  encode map := .object (map.entries.map fun (name, text) => (some name, Json.text text))
  decode? | .object members => (members.mapM entryOfMember?).map NameMap.ofList
          | _ => none

end FailureTriage
