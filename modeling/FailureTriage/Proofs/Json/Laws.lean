import FailureTriage.Path
import FailureTriage.Proofs.Decimal.Shortest
import FailureTriage.Proofs.Json.Records
import FailureTriage.Proofs.Json.RoundTrip
import FailureTriage.Proofs.Names.Tables
import FailureTriage.Proofs.Text.Timestamps
import Mathlib.Tactic.Simproc.ExistsAndEq

/-!
# Values that are read back

Which values come back from their own text.  A text always does; a binary number does if it is
finite, a size if it is a word of 64 bits, a timestamp if it is one of the calendar, and a list or a
record if all its parts do.

* `LawfulCodec`: a codec with the exact condition for a value to come back.
* `decode?_record`: a record is read from its fields as they come back.
* `required_bind_iff`, `nullable_bind_iff`, `withDefault_bind_iff`: reading a record goes on with
  the value of a field, however that was written.
-/

namespace FailureTriage

/-- A codec that gives back those values from their own text that can be stored, and gives back
    nothing else. -/
class LawfulCodec (α : Type) [JsonCodec α] where
  /-- Whether a value comes back. -/
  Storable : α → Prop
  decode?_reread_iff (value found : α) :
    decode? (encode value).reread = some found ↔ Storable value ∧ value = found

/-- A type whose values are never written as a missing value. -/
class NeverNull (α : Type) [JsonCodec α] : Prop where
  reread_ne_null (value : α) : (encode value).reread ≠ Json.null

export LawfulCodec (Storable decode?_reread_iff)

/-! ## Values without parts -/

/-- A value that always comes back. -/
private theorem always {α : Type} {tried : Option α} {value : α} (h : tried = some value)
    (found : α) : tried = some found ↔ True ∧ value = found := by
  rw [h, Option.some.injEq, true_and]

instance : LawfulCodec Bool where
  Storable _ := True
  decode?_reread_iff _ := always rfl

instance : LawfulCodec String where
  Storable _ := True
  decode?_reread_iff _ := always rfl

instance : LawfulCodec Path where
  Storable _ := True
  decode?_reread_iff _ := always rfl

/-- Sizes and positions are words of 64 bits. -/
instance : LawfulCodec Nat where
  Storable n := n ≤ Text.maxWord64
  decode?_reread_iff n found := by
    show Numeral.toNat? Text.maxWord64 (.whole false n) = some found ↔ _
    rw [Numeral.toNat?]
    split <;> simp_all

instance : LawfulCodec UInt32 where
  Storable _ := True
  decode?_reread_iff n := by
    have hle : n.toNat ≤ Text.maxWord32 := Nat.le_of_lt_succ n.toNat_lt
    refine always ?_
    show (Numeral.toNat? Text.maxWord32 (.whole false n.toNat)).map UInt32.ofNat = some n
    rw [Numeral.toNat?, if_pos hle, Option.map_some, UInt32.ofNat_toNat]

instance : LawfulCodec UInt64 where
  Storable _ := True
  decode?_reread_iff n := by
    have hle : n.toNat ≤ Text.maxWord64 := Nat.le_of_lt_succ n.toNat_lt
    refine always ?_
    show (Numeral.toNat? Text.maxWord64 (.whole false n.toNat)).map UInt64.ofNat = some n
    rw [Numeral.toNat?, if_pos hle, Option.map_some, UInt64.ofNat_toNat]

/-- A number without digits is written as a missing value. -/
instance : LawfulCodec Float where
  Storable x := x.isFinite = true
  decode?_reread_iff x found := by
    show decode? (Json.float x).reread = some found ↔ _
    rw [Json.float]
    cases hdigits : Decimal.ofFloat? .toEven x with
    | none =>
      have hinfinite : ¬ x.isFinite = true := by
        intro h
        rw [Decimal.ofFloat?, if_pos h] at hdigits
        cases hdigits
      exact iff_of_false (fun h => nomatch h) fun h => hinfinite h.1
    | some d =>
      have hfinite := (Decimal.names_of_ofFloat? hdigits).finite
      show Numeral.toFloat? (.scaled d.reread) = some found ↔ _
      rw [Numeral.toFloat?, Numeral.toFloat, Decimal.toFloat_reread hdigits, if_pos hfinite,
        Option.some.injEq, iff_and_self]
      exact fun _ => hfinite

@[simp] theorem storable_bool (b : Bool) : Storable b ↔ True := Iff.rfl
@[simp] theorem storable_string (text : String) : Storable text ↔ True := Iff.rfl
@[simp] theorem storable_path (path : Path) : Storable path ↔ True := Iff.rfl
@[simp] theorem storable_nat (n : Nat) : Storable n ↔ n ≤ Text.maxWord64 := Iff.rfl
@[simp] theorem storable_word32 (n : UInt32) : Storable n ↔ True := Iff.rfl
@[simp] theorem storable_word64 (n : UInt64) : Storable n ↔ True := Iff.rfl
@[simp] theorem storable_float (x : Float) : Storable x ↔ x.isFinite = true := Iff.rfl

/-! ## Lists, sets and tables -/

namespace Json

private theorem rereadItems_eq_map (items : List Json) : rereadItems items = items.map reread := by
  induction items with
  | nil => rfl
  | cons item items ih => rw [rereadItems, ih, List.map_cons]

end Json

/-- A list comes back item by item. -/
theorem decode?_list_iff {α : Type} [JsonCodec α] (items found : List α) :
    decode? (encode items).reread = some found
      ↔ List.Forall₂ (fun item other => decode? (encode item).reread = some other) items found := by
  show (Json.rereadItems (items.map encode)).mapM decode? = some found ↔ _
  rw [Json.rereadItems_eq_map, List.map_map]
  induction items generalizing found with
  | nil =>
    rw [List.forall₂_nil_left_iff]
    constructor
    · exact fun h => (Option.some.inj h).symm
    · rintro rfl
      rfl
  | cons item items ih =>
    simp only [List.map_cons, List.mapM_cons, Function.comp_apply, Option.bind_eq_bind,
      Option.bind_eq_some_iff, List.forall₂_cons_left_iff, ih]
    constructor
    · rintro ⟨first, hfirst, rest, hrest, heq⟩
      exact ⟨first, rest, hfirst, hrest, (Option.some.inj heq).symm⟩
    · rintro ⟨first, rest, hfirst, hrest, rfl⟩
      exact ⟨first, hfirst, rest, hrest, rfl⟩

instance {α : Type} [JsonCodec α] [LawfulCodec α] : LawfulCodec (List α) where
  Storable items := ∀ item ∈ items, Storable item
  decode?_reread_iff items found := by
    simp only [decode?_list_iff, decode?_reread_iff, List.forall₂_and_left, List.forall₂_eq_eq_eq]

@[simp] theorem storable_list {α : Type} [JsonCodec α] [LawfulCodec α] (items : List α) :
    Storable items ↔ ∀ item ∈ items, Storable item :=
  Iff.rfl

instance : LawfulCodec NameSet where
  Storable _ := True
  decode?_reread_iff set := by
    have hnames : decode? (encode set.names).reread = some set.names :=
      (decode?_reread_iff set.names set.names).mpr ⟨fun _ _ => trivial, rfl⟩
    refine always ?_
    show (decode? (encode set.names).reread).map NameSet.ofList = some set
    rw [hnames, Option.map_some, NameSet.ofList_names]

instance : LawfulCodec NameMap where
  Storable _ := True
  decode?_reread_iff map := by
    have hentries : (Json.rereadMembers (map.entries.map fun (name, text) =>
        (some name, Json.text text))).mapM entryOfMember? = some map.entries := by
      induction map.entries with
      | nil => rfl
      | cons entry rest ih =>
        rw [List.map_cons, Json.rereadMembers, List.mapM_cons, ih]
        rfl
    refine always ?_
    show ((Json.rereadMembers _).mapM entryOfMember?).map NameMap.ofList = some map
    rw [hentries, Option.map_some, NameMap.ofList_entries]

@[simp] theorem storable_nameSet (set : NameSet) : Storable set ↔ True := Iff.rfl
@[simp] theorem storable_nameMap (map : NameMap) : Storable map ↔ True := Iff.rfl

/-! ## Values that may be missing -/

instance : NeverNull String where
  reread_ne_null _ := nofun

instance : NeverNull Path where
  reread_ne_null _ := nofun

instance : NeverNull Nat where
  reread_ne_null _ := nofun

/-- A value that is there is read as one that is there. -/
private theorem decode?_option {α : Type} [JsonCodec α] {json : Json} (h : json ≠ Json.null) :
    (decode? json : Option (Option α)) = (decode? json).map some := by
  cases json with
  | null => exact absurd rfl h
  | _ => rfl

instance {α : Type} [JsonCodec α] [LawfulCodec α] [NeverNull α] : LawfulCodec (Option α) where
  Storable value := ∀ present ∈ value, Storable present
  decode?_reread_iff value found := by
    cases value with
    | none =>
      show some none = some found ↔ _
      simp
    | some value =>
      show decode? (encode value).reread = some found ↔ _
      rw [decode?_option (NeverNull.reread_ne_null value), Option.map_eq_some_iff]
      simp [decode?_reread_iff, and_assoc]

@[simp] theorem storable_option {α : Type} [JsonCodec α] [LawfulCodec α] [NeverNull α]
    (value : Option α) : Storable value ↔ ∀ present ∈ value, Storable present :=
  Iff.rfl

/-! ## Fields of records -/

namespace Json

variable {α : Type} [JsonCodec α]

/-- A field as it comes back. -/
def stored (value : α) : Option Json :=
  some (encode value).reread

/-- A field that was written only if there was a value. -/
def storedIfSome (value : Option α) : Option Json :=
  value.map fun value => (encode value).reread

/-- A field that was not written if it was empty. -/
def storedUnless (empty : Bool) (value : α) : Option Json :=
  if empty then none else stored value

/-- One member as it comes back, if it was written. -/
def written (name : String) (value : Option Json) : List (Option String × Json) :=
  (value.map fun value => (some name, value)).toList

@[simp] theorem writtenMembers_nil : writtenMembers [] = [] := rfl

@[simp] theorem writtenMembers_cons (field : Field) (value : Option Json)
    (rest : List (Field × Option Json)) :
    writtenMembers ((field, value) :: rest) = written field.name value ++ writtenMembers rest := by
  rw [writtenMembers, List.filterMap_cons]
  cases value <;> rfl

@[simp] theorem rereadMembers_append (members more : List (Option String × Json)) :
    rereadMembers (members ++ more) = rereadMembers members ++ rereadMembers more := by
  induction members with
  | nil => rfl
  | cons member members ih =>
    obtain ⟨key, value⟩ := member
    rw [List.cons_append, rereadMembers, ih, rereadMembers, List.cons_append]

@[simp] theorem rereadMembers_member (name : String) (value : α) :
    rereadMembers (member name value) = written name (stored value) :=
  rfl

@[simp] theorem rereadMembers_memberIfSome (name : String) (value : Option α) :
    rereadMembers (memberIfSome name value) = written name (storedIfSome value) := by
  cases value <;> rfl

@[simp] theorem rereadMembers_unless (name : String) (empty : Bool) (value : α) :
    rereadMembers (if empty then [] else member name value)
      = written name (storedUnless empty value) := by
  cases empty <;> rfl

@[simp] theorem rereadMembers_memberIfAny (name : String) (items : List α) :
    rereadMembers (memberIfAny name items) = written name (storedUnless items.isEmpty items) :=
  rereadMembers_unless name items.isEmpty items

@[simp] theorem name_must (name : String) : (must name).name = name := rfl
@[simp] theorem name_may (name : String) : (may name).name = name := rfl

/-- **A record** is read from its fields as they come back. -/
theorem decode?_record {fields : List Field} (hnames : (fields.map (·.name)).Nodup)
    (values : List (Option Json)) (hlength : fields.length = values.length)
    {members : List (Option String × Json)} {β : Type} {read : List (Option Json) → Option β}
    (hmembers : rereadMembers members = writtenMembers (fields.zip values)) :
    (fields? fields (Json.object members).reread).bind read = read values := by
  have hfields : (fields.zip values).map (·.1) = fields := List.map_fst_zip (Nat.le_of_eq hlength)
  have hvalues : (fields.zip values).map (·.2) = values :=
    List.map_snd_zip (Nat.le_of_eq hlength.symm)
  have hnodup : ((fields.zip values).map (·.1.name)).Nodup := by
    rw [← hfields, List.map_map] at hnames
    exact hnames
  have hwritten := fields?_written hnodup
  rw [hfields, hvalues] at hwritten
  rw [reread, hmembers, hwritten, Option.bind_some]

variable [LawfulCodec α] {β : Type} {next : α → Option β} {result : β}

/-- Reading goes on with the value, if it can be stored. -/
private theorem decode?_bind_iff (value : α) :
    decode? (encode value).reread >>= next = some result
      ↔ Storable value ∧ next value = some result := by
  rw [Option.bind_eq_bind, Option.bind_eq_some_iff]
  simp only [decode?_reread_iff, and_assoc, exists_and_left, exists_eq_left']

@[simp ↓] theorem required_bind_iff (value : α) :
    required (stored value) >>= next = some result ↔ Storable value ∧ next value = some result :=
  decode?_bind_iff value

@[simp ↓] theorem withDefault_bind_iff (standard value : α) :
    withDefault standard (stored value) >>= next = some result
      ↔ Storable value ∧ next value = some result :=
  decode?_bind_iff value

@[simp ↓] theorem withDefault_isEmpty_bind_iff {next : List α → Option β} (items : List α) :
    withDefault [] (storedUnless items.isEmpty items) >>= next = some result
      ↔ Storable items ∧ next items = some result := by
  cases items with
  | nil => exact (and_iff_right fun _ hitem => nomatch hitem).symm
  | cons item items => exact decode?_bind_iff (item :: items)

@[simp ↓] theorem withDefault_nameMap_bind_iff {next : NameMap → Option β} (map : NameMap) :
    withDefault ∅ (storedUnless map.isEmpty map) >>= next = some result
      ↔ next map = some result := by
  obtain ⟨entries, hsorted⟩ := map
  cases entries with
  | nil => rfl
  | cons entry entries =>
    exact (decode?_bind_iff (⟨entry :: entries, hsorted⟩ : NameMap)).trans (and_iff_right trivial)

variable [NeverNull α] {next : Option α → Option β}

@[simp ↓] theorem nullable_bind_iff (value : Option α) :
    nullable (stored value) >>= next = some result
      ↔ Storable value ∧ next value = some result :=
  decode?_bind_iff value

@[simp ↓] theorem nullable_ifSome_bind_iff (value : Option α) :
    nullable (storedIfSome value) >>= next = some result
      ↔ Storable value ∧ next value = some result := by
  cases value with
  | none => exact (and_iff_right fun _ hvalue => nomatch hvalue).symm
  | some value => exact decode?_bind_iff (some value)

end Json

end FailureTriage
