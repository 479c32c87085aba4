import FailureTriage.Json.Codec
import Mathlib.Data.List.Nodup

/-!
# What a record gives

A record may be written as an object or as an array of its fields in order.

* `given?`: what a record whose fields may all be left out gives for one of them.
* `fields?_may`, `read_of_fields?`: reading such a record finds what it gives for each field.
* `fields?_written`: reading a record that was written, by its fields in order, finds each value.
-/

namespace FailureTriage.Json

/-- What a record with fields of these names gives for one of them: the member of that name, or the
    item at that place. -/
def given? (names : List String) (name : String) : Json → Option Json
  | .object members => (members.find? fun m => m.1 == some name).map (·.2)
  | .array items => items[names.idxOf name]?
  | _ => none

private theorem member?_eq_some {members : List (Option String × Json)} {name : String}
    {value : Option Json} (h : member? members name = some value) :
    value = (members.find? fun m => m.1 == some name).map (·.2) := by
  rw [member?] at h
  rw [← List.head?_filter]
  split at h
  · rename_i hnone
    rw [hnone, ← Option.some.inj h]
    rfl
  · rename_i hone
    rw [hone, ← Option.some.inj h]
    rfl
  · cases h

/-- The items of an array stand for the fields at their places. -/
private theorem positional?_may {names : List String} {items : List Json}
    {values : List (Option Json)} (h : positional? (names.map may) items = some values) :
    values.length = names.length
      ∧ ∀ place, place < names.length → values[place]? = some items[place]? := by
  induction names generalizing items values with
  | nil =>
      cases items with
      | nil =>
          rw [← Option.some.inj h]
          exact ⟨rfl, fun place hplace => absurd hplace (Nat.not_lt_zero place)⟩
      | cons item items => cases h
  | cons name names ih =>
      obtain ⟨first, rest, htail, hvalues, hfirst⟩ : ∃ first rest,
          positional? (names.map may) items.tail = some rest ∧ values = first :: rest
            ∧ first = items.head? := by
        cases items with
        | nil =>
            obtain ⟨rest, hrest, rfl⟩ := Option.map_eq_some_iff.mp h
            exact ⟨none, rest, hrest, rfl, rfl⟩
        | cons item items =>
            obtain ⟨rest, hrest, rfl⟩ := Option.map_eq_some_iff.mp h
            exact ⟨some item, rest, hrest, rfl, rfl⟩
      obtain ⟨hlength, hplaces⟩ := ih htail
      subst hvalues hfirst
      refine ⟨congrArg (· + 1) hlength, fun place hplace => ?_⟩
      cases place with
      | zero => rw [List.getElem?_cons_zero, List.head?_eq_getElem?]
      | succ place =>
          rw [List.getElem?_cons_succ, hplaces place (Nat.lt_of_succ_lt_succ hplace),
            List.getElem?_tail]

private theorem mapM_member? {names : List String} {members : List (Option String × Json)}
    {values : List (Option Json)}
    (h : (names.map may).mapM (fun field => member? members field.name) = some values) :
    values = names.map fun name => (members.find? fun m => m.1 == some name).map (·.2) := by
  induction names generalizing values with
  | nil => exact (Option.some.inj h).symm
  | cons name names ih =>
      rw [List.map_cons, List.mapM_cons] at h
      obtain ⟨first, hfirst, h⟩ := Option.bind_eq_some_iff.mp h
      obtain ⟨rest, hrest, h⟩ := Option.bind_eq_some_iff.mp h
      rw [← Option.some.inj h, ih hrest, member?_eq_some hfirst]
      rfl

/-- **Reading a record** finds what it gives for each of its fields. -/
theorem fields?_may {names : List String} (hnames : names.Nodup) {json : Json}
    {values : List (Option Json)} (h : fields? (names.map may) json = some values) :
    values = names.map fun name => given? names name json := by
  cases json with
  | object members =>
      rw [fields?] at h
      split at h
      · exact mapM_member? h
      · cases h
  | array items =>
      obtain ⟨hlength, hplaces⟩ := positional?_may h
      refine List.ext_getElem? fun place => ?_
      by_cases hplace : place < names.length
      · rw [hplaces place hplace, List.getElem?_map, List.getElem?_eq_getElem hplace]
        show _ = some items[names.idxOf names[place]]?
        rw [hnames.idxOf_getElem place hplace]
      · rw [List.getElem?_eq_none (by omega), List.getElem?_eq_none (by simpa using hplace)]
  | _ => cases h

/-- What is read from a record is read from what it gives for its fields. -/
theorem read_of_fields? {names : List String} (hnames : names.Nodup) {json : Json} {β : Type}
    {read : List (Option Json) → Option β} {value : β}
    (h : (fields? (names.map may) json).bind read = some value) :
    read (names.map fun name => given? names name json) = some value := by
  obtain ⟨values, hvalues, hread⟩ := Option.bind_eq_some_iff.mp h
  rw [← fields?_may hnames hvalues]
  exact hread

/-! ## Written records -/

/-- The members of a record that is written field by field; a field may be left out. -/
def writtenMembers (given : List (Field × Option Json)) : List (Option String × Json) :=
  given.filterMap fun field => field.2.map fun value => (some field.1.name, value)

variable {given : List (Field × Option Json)}

private theorem filter_eq_singleton (hnames : (given.map (·.1.name)).Nodup)
    {field : Field × Option Json} (hfield : field ∈ given) :
    given.filter (fun other => other.1.name == field.1.name) = [field] := by
  induction given with
  | nil => cases hfield
  | cons first rest ih =>
      rw [List.map_cons, List.nodup_cons] at hnames
      obtain ⟨hfirst, hrest⟩ := hnames
      rcases List.mem_cons.mp hfield with rfl | hmem
      · have hnone : rest.filter (fun other => other.1.name == field.1.name) = [] := by
          rw [List.filter_eq_nil_iff]
          intro other hother heq
          exact hfirst (List.mem_map.mpr ⟨other, hother, by simpa using heq⟩)
        rw [List.filter_cons_of_pos (by simp), hnone]
      · have hne : first.1.name ≠ field.1.name := by
          intro heq
          exact hfirst (List.mem_map.mpr ⟨field, hmem, heq.symm⟩)
        rw [List.filter_cons_of_neg (by simpa using hne), ih hrest hmem]

/-- Each field of a written record is found. -/
private theorem member?_written (hnames : (given.map (·.1.name)).Nodup)
    {field : Field × Option Json} (hfield : field ∈ given) :
    member? (writtenMembers given) field.1.name = some field.2 := by
  have hfilter : (writtenMembers given).filter (·.1 == some field.1.name)
      = writtenMembers (given.filter fun other => other.1.name == field.1.name) := by
    rw [writtenMembers, writtenMembers, List.filter_filterMap, List.filterMap_filter]
    refine List.filterMap_congr fun other _ => ?_
    cases other.2 with
    | none => simp
    | some value => by_cases h : other.1.name = field.1.name <;> simp [h, Option.filter]
  rw [member?, hfilter, filter_eq_singleton hnames hfield, writtenMembers, List.filterMap_cons]
  cases field.2 <;> rfl

/-- **Reading a written record** finds the value of each of its fields. -/
theorem fields?_written (hnames : (given.map (·.1.name)).Nodup) :
    fields? (given.map (·.1)) (.object (writtenMembers given)) = some (given.map (·.2)) := by
  have hkeys : (writtenMembers given).all (·.1.isSome) = true := by
    rw [List.all_eq_true]
    intro member hmember
    obtain ⟨field, -, hvalue⟩ := List.mem_filterMap.mp hmember
    obtain ⟨value, -, rfl⟩ := Option.map_eq_some_iff.mp hvalue
    rfl
  have hall : ∀ fields ⊆ given,
      (fields.map (·.1)).mapM (fun field => member? (writtenMembers given) field.name)
        = some (fields.map (·.2)) := by
    intro fields hfields
    induction fields with
    | nil => rfl
    | cons field fields ih =>
        rw [List.map_cons, List.mapM_cons, member?_written hnames (hfields List.mem_cons_self),
          ih fun other hother => hfields (List.mem_cons_of_mem field hother)]
        rfl
  rw [fields?, if_pos hkeys]
  exact hall given (List.Subset.refl given)

end FailureTriage.Json
