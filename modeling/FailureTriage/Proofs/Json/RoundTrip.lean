import FailureTriage.Json.Writer
import FailureTriage.Proofs.Json.Parsing
import FailureTriage.Proofs.Json.WrittenNumbers

/-!
# Values read back

A value is written as a document of the grammar, at any depth of nesting, so it is read back.

* `reread`: a value as it comes back.
* `writes_layout`: the text of a value is one of the grammar.
* `read?_write`: a whole document.
-/

namespace FailureTriage.Json

/-! ## Values as they come back -/

/-- A number as it comes back; one without digits was written as `null`. -/
def rereadNumeral : Numeral → Json
  | .whole negative value => .number (.whole negative value)
  | .scaled d => .number (.scaled d.reread)
  | .infinite _ => .null
  | .undefined => .null

mutual

/-- A value as it comes back.  A string that stands for no characters was written as the empty
    one. -/
def reread : Json → Json
  | .null => .null
  | .bool value => .bool value
  | .number n => rereadNumeral n
  | .string text => .string (some (text.getD ""))
  | .array items => .array (rereadItems items)
  | .object members => .object (rereadMembers members)

/-- The items of an array as they come back. -/
def rereadItems : List Json → List Json
  | [] => []
  | item :: items => item.reread :: rereadItems items

/-- The members of an object as they come back. -/
def rereadMembers : List (Option String × Json) → List (Option String × Json)
  | [] => []
  | (key, value) :: members => (some (key.getD ""), value.reread) :: rereadMembers members

end

/-! ## Strings and numbers -/

/-- A control character without an escape of its own is written by its code. -/
private theorem hexCode_control {n : Nat} (h : n < 0x20) :
    HexCode '0' '0' (hexChar (n / 16)) (hexChar (n % 16)) n := by
  have hall : ∀ n < 0x20, HexDigit (hexChar (n / 16)) (n / 16)
      ∧ HexDigit (hexChar (n % 16)) (n % 16) := by decide
  obtain ⟨hhigh, hlow⟩ := hall n h
  have hcode := HexCode.digits (by decide : HexDigit '0' 0) (by decide : HexDigit '0' 0) hhigh hlow
  rwa [show ((0 * 16 + 0) * 16 + n / 16) * 16 + n % 16 = n by omega] at hcode

/-- However a character is written, it stands for itself. -/
private theorem standsFor_escapeChar (c : Char) {body chars : List Char}
    (h : StandsFor body chars) : StandsFor (escapeChar c ++ body) (c :: chars) := by
  unfold escapeChar
  split
  · rename_i hc; subst hc; exact .short (by decide) h
  split
  · rename_i hc; subst hc; exact .short (by decide) h
  split
  · rename_i hc; subst hc; exact .short (by decide) h
  split
  · rename_i hc; subst hc; exact .short (by decide) h
  split
  · rename_i hc; subst hc; exact .short (by decide) h
  split
  · rename_i hc; subst hc; exact .short (by decide) h
  split
  · rename_i hc; subst hc; exact .short (by decide) h
  split
  · rename_i hcontrol
    exact .code (hexCode_control hcontrol) h
  · rename_i hquote hslash _ _ _ _ _ hcontrol
    exact .plain ⟨hquote, hslash, Nat.not_lt.mp hcontrol⟩ h

/-- **A string** is written as one of the grammar. -/
theorem isString_escaped (s : String) : IsString (s.toList.flatMap escapeChar) (some s) := by
  have hchars : ∀ chars : List Char, StandsFor (chars.flatMap escapeChar) chars := by
    intro chars
    induction chars with
    | nil => exact .nil
    | cons c chars ih =>
        rw [List.flatMap_cons]
        exact standsFor_escapeChar c ih
  have hstring := isString_of_standsFor (hchars s.toList)
  rwa [String.ofList_toList] at hstring

/-- **A number** is written as one of the grammar, or as a missing value. -/
theorem writes_numberText (n : Numeral) : Writes (.value (rereadNumeral n)) (numberText n) := by
  cases n with
  | whole negative value => exact .number (writesNumber_whole negative value)
  | scaled d => exact .number d.writesNumber_scaled
  | infinite negative => exact .null
  | undefined => exact .null

/-! ## Values -/

theorem blanks_nil : Blanks [] :=
  List.forall_mem_nil _

theorem blanks_space : Blanks [' '] :=
  List.forall_mem_singleton.mpr (Or.inl rfl)

/-- A new line is blank. -/
theorem blanks_newLine (level : Nat) : Blanks (newLine level) :=
  List.forall_mem_cons.mpr ⟨Or.inr (Or.inl rfl), fun _ hc => Or.inl (List.eq_of_mem_replicate hc)⟩

/-- A member is written with a blank behind its colon. -/
private theorem writes_member {key : Option String} {value : Json} {before text after : List Char}
    (hbefore : Blanks before) (hvalue : Writes (.value value) text) (hafter : Blanks after) :
    Writes (.member (some (key.getD "")) value)
      (before ++ (quote (key.getD "") ++ ':' :: ' ' :: (text ++ after))) := by
  have h := Writes.member hbefore (isString_escaped (key.getD "")) blanks_nil
    (Writes.element blanks_space hvalue hafter)
  rw [quote, List.cons_append, List.append_assoc]
  exact h

mutual

/-- **The text of a value** is one of the grammar. -/
theorem writes_layout (level : Nat) (value : Json) :
    Writes (.value value.reread) (layout level value) :=
  match value with
  | .null => .null
  | .bool true => .true
  | .bool false => .false
  | .number n => writes_numberText n
  | .string text => .string (isString_escaped (text.getD ""))
  | .array [] => .emptyArray blanks_nil
  | .array (item :: items) => by
      have h := Writes.array (writes_layoutItems (level + 1) level item items)
      rw [layout, reread, rereadItems]
      simpa only [List.append_assoc, List.cons_append, List.nil_append] using h
  | .object [] => .emptyObject blanks_nil
  | .object ((key, value) :: members) => by
      have h := Writes.object (writes_layoutMembers (level + 1) level key value members)
      rw [layout, reread, rereadMembers]
      simpa only [List.append_assoc, List.cons_append, List.nil_append] using h
termination_by sizeOf value

/-- The items of an array, each on a line of its own. -/
theorem writes_layoutItems (level outer : Nat) (item : Json) (items : List Json) :
    Writes (.items (item.reread :: rereadItems items))
      (newLine level ++ (layout level item ++ (layoutItems level items ++ newLine outer))) :=
  match items with
  | [] => by
      rw [layoutItems, List.nil_append]
      exact .lastItem (.element (blanks_newLine level) (writes_layout level item)
        (blanks_newLine outer))
  | next :: items => by
      have hitem := Writes.element (blanks_newLine level) (writes_layout level item) blanks_nil
      have h := Writes.items hitem (writes_layoutItems level outer next items)
      rw [layoutItems, rereadItems]
      simpa only [List.append_assoc, List.cons_append, List.nil_append, List.append_nil] using h
termination_by sizeOf item + sizeOf items

/-- The members of an object, each on a line of its own. -/
theorem writes_layoutMembers (level outer : Nat) (key : Option String) (value : Json)
    (members : List (Option String × Json)) :
    Writes (.members ((some (key.getD ""), value.reread) :: rereadMembers members))
      (newLine level ++ (quote (key.getD "") ++ ':' :: ' ' :: (layout level value
        ++ (layoutMembers level members ++ newLine outer)))) :=
  match members with
  | [] => by
      rw [layoutMembers, List.nil_append]
      exact .lastMember (writes_member (blanks_newLine level) (writes_layout level value)
        (blanks_newLine outer))
  | (nextKey, next) :: members => by
      have hmember := @writes_member key _ _ _ _ (blanks_newLine level) (writes_layout level value)
        blanks_nil
      have h := Writes.members hmember (writes_layoutMembers level outer nextKey next members)
      rw [layoutMembers, rereadMembers]
      simpa only [List.append_assoc, List.cons_append, List.nil_append, List.append_nil] using h
termination_by sizeOf value + sizeOf members

end

/-- **A document** is read back. -/
theorem read?_write (value : Json) : read? (write value) = some value.reread := by
  refine read?_of_writes ?_
  have h := Writes.element blanks_nil (writes_layout 0 value) blanks_nil
  rwa [List.nil_append, List.append_nil, ← String.toList_ofList (l := layout 0 value)] at h

end FailureTriage.Json
