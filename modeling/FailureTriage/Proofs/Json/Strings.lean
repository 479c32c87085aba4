import FailureTriage.Proofs.Json.Grammar
import Mathlib

/-!
# Strings are read

What may stand between the quotes of a string is read unit by unit, and the units stand for the
same characters as the text does.

* `readString_of_isString`: a string after its opening quote.
* `isString_of_standsFor`: what stands for some characters is a string.
-/

namespace FailureTriage.Json

/-! ## Codes -/

theorem hexDigit?_of_hexDigit {c : Char} {value : Nat} (h : HexDigit c value) :
    hexDigit? c = some value := by
  have hall : ∀ value < 16, hexDigit? value.digitChar = some value
      ∧ hexDigit? value.digitChar.toUpper = some value := by decide
  obtain ⟨hvalue, rfl | rfl⟩ := h
  · exact (hall value hvalue).1
  · exact (hall value hvalue).2

/-- A code is read digit by digit. -/
theorem hexValue?_of_hexCode {a b c d : Char} {n : Nat} (h : HexCode a b c d n) :
    hexValue? [a, b, c, d] = some n := by
  obtain ⟨ha, hb, hc, hd⟩ := h
  simp only [hexValue?, List.foldlM_cons, List.foldlM_nil, hexDigit?_of_hexDigit ha,
    hexDigit?_of_hexDigit hb, hexDigit?_of_hexDigit hc, hexDigit?_of_hexDigit hd, Option.map_some,
    Option.bind_eq_bind, Option.bind_some, Nat.zero_mul, Nat.zero_add]
  rfl

/-- A code has four digits. -/
theorem HexCode.lt {a b c d : Char} {n : Nat} (h : HexCode a b c d n) : n < 0x10000 := by
  obtain ⟨⟨ha, -⟩, ⟨hb, -⟩, ⟨hc, -⟩, ⟨hd, -⟩⟩ := h
  omega

/-- The code of a character is none of a surrogate half. -/
theorem ofCode_toNat (c : Char) : StringUnit.ofCode c.toNat = .char c := by
  have hvalid := c.valid
  have hnot : ¬ ((decide (0xD800 ≤ c.toNat) && decide (c.toNat ≤ 0xDFFF)) = true) := by
    rw [Bool.and_eq_true, decide_eq_true_eq, decide_eq_true_eq]
    rcases hvalid with h | h
    · have h : c.toNat < 0xD800 := h
      omega
    · have h : 0xDFFF < c.toNat := h.1
      omega
  rw [StringUnit.ofCode, if_neg (by simpa using hnot), Char.ofNat_toNat]

/-- A code that is none of a surrogate half is that of a character. -/
theorem toNat_of_ofCode {n : Nat} {c : Char} (hn : n < 0x10000)
    (h : StringUnit.ofCode n = .char c) : c.toNat = n := by
  rw [StringUnit.ofCode] at h
  split at h
  · cases h
  · rename_i hnot
    rw [← StringUnit.char.inj h]
    rw [Bool.and_eq_true, decide_eq_true_eq, decide_eq_true_eq] at hnot
    rw [Char.toNat_ofNat, if_pos (by unfold Nat.isValidChar; omega)]

theorem ofCode_eq_half {n half : Nat} :
    StringUnit.ofCode n = .half half ↔ half = n ∧ 0xD800 ≤ n ∧ n ≤ 0xDFFF := by
  rw [StringUnit.ofCode]
  split
  · rename_i hhalf
    rw [Bool.and_eq_true, decide_eq_true_eq, decide_eq_true_eq] at hhalf
    rw [StringUnit.half.injEq, and_iff_left hhalf]
    exact eq_comm
  · rename_i hnot
    rw [Bool.and_eq_true, decide_eq_true_eq, decide_eq_true_eq] at hnot
    exact iff_of_false StringUnit.noConfusion fun h => hnot h.2

/-! ## Strings -/

/-- A character without a meaning in a string stands for itself. -/
theorem readUnits_plain {c : Char} (hquote : c ≠ '"') (hslash : c ≠ '\\')
    (hcontrol : ¬ c.toNat < 0x20) (rest : List Char) (found : List StringUnit) :
    readUnits (c :: rest) found = readUnits rest (.char c :: found) := by
  rw [readUnits]
  · rw [if_neg]
    simp [hslash, hcontrol]
  · exact hquote
  · exact fun _ _ _ _ _ h => absurd h hslash
  · exact fun _ _ h => absurd h hslash

/-- Whether a text between quotes is made up of units of a string. -/
private inductive Units : List Char → List StringUnit → Prop
  | nil : Units [] []
  | plain {c : Char} {body : List Char} {units : List StringUnit} (hc : IsPlain c)
      (hbody : Units body units) : Units (c :: body) (.char c :: units)
  | short {letter c : Char} {body : List Char} {units : List StringUnit}
      (hc : (letter, c) ∈ shortEscapes) (hbody : Units body units) :
      Units ('\\' :: letter :: body) (.char c :: units)
  | code {a b c d : Char} {n : Nat} {unit : StringUnit} {body : List Char}
      {units : List StringUnit} (hn : HexCode a b c d n) (hunit : StringUnit.ofCode n = unit)
      (hbody : Units body units) : Units ('\\' :: 'u' :: a :: b :: c :: d :: body) (unit :: units)

variable {body chars : List Char} {units : List StringUnit}

private theorem IsBody.exists_units (h : IsBody body) : ∃ units, Units body units := by
  induction h with
  | nil => exact ⟨_, .nil⟩
  | plain hc _ ih => exact ⟨_, .plain hc ih.choose_spec⟩
  | short hc _ ih => exact ⟨_, .short hc ih.choose_spec⟩
  | code hn _ ih => exact ⟨_, .code hn rfl ih.choose_spec⟩

/-- The units of a string are read up to its closing quote. -/
private theorem Units.readUnits (h : Units body units) (rest : List Char)
    (found : List StringUnit) :
    Json.readUnits (body ++ '"' :: rest) found = some (found.reverse ++ units, rest) := by
  induction h generalizing found with
  | nil => rw [List.append_nil]; rfl
  | plain hc _ ih =>
      rw [List.cons_append, readUnits_plain hc.quote hc.slash (Nat.not_lt.mpr hc.control), ih,
        List.reverse_cons, List.append_assoc]
      rfl
  | @short letter c body units hc _ ih =>
      have hshort : ∀ escape ∈ shortEscapes,
          escaped? escape.1 = some escape.2 ∧ escape.1 ≠ 'u' := by decide
      obtain ⟨hescaped, hletter⟩ := hshort _ hc
      have hread : Json.readUnits ('\\' :: letter :: (body ++ '"' :: rest)) found
          = Json.readUnits (body ++ '"' :: rest) (.char c :: found) := by
        rw [Json.readUnits, hescaped]
        exact fun _ _ _ _ _ heq => absurd heq hletter
      rw [List.cons_append, List.cons_append, hread, ih, List.reverse_cons, List.append_assoc]
      rfl
  | @code a b c d n unit body units hn hunit _ ih =>
      have hread : Json.readUnits ('\\' :: 'u' :: a :: b :: c :: d :: (body ++ '"' :: rest)) found
          = Json.readUnits (body ++ '"' :: rest) (unit :: found) := by
        rw [Json.readUnits, hexValue?_of_hexCode hn, ← hunit]
      simp only [List.cons_append]
      rw [hread, ih, List.reverse_cons, List.append_assoc]
      rfl

/-- A text is made up of units in one way only. -/
private theorem Units.unique (h : Units body units) {others : List StringUnit}
    (hothers : Units body others) : units = others := by
  have hsame := (h.readUnits [] []).symm.trans (hothers.readUnits [] [])
  exact (Prod.mk.inj (Option.some.inj hsame)).1

private theorem StandsFor.exists_units (h : StandsFor body chars) :
    ∃ units, Units body units
      ∧ ∀ found, joinUnits units found = some (found.reverse ++ chars) := by
  induction h with
  | nil => exact ⟨[], .nil, fun found => by rw [List.append_nil]; rfl⟩
  | plain hc _ ih =>
      obtain ⟨units, hunits, hjoin⟩ := ih
      refine ⟨_, .plain hc hunits, fun found => ?_⟩
      rw [joinUnits, hjoin, List.reverse_cons, List.append_assoc]
      rfl
  | short hc _ ih =>
      obtain ⟨units, hunits, hjoin⟩ := ih
      refine ⟨_, .short hc hunits, fun found => ?_⟩
      rw [joinUnits, hjoin, List.reverse_cons, List.append_assoc]
      rfl
  | code hchar _ ih =>
      obtain ⟨units, hunits, hjoin⟩ := ih
      refine ⟨_, .code hchar (ofCode_toNat _) hunits, fun found => ?_⟩
      rw [joinUnits, hjoin, List.reverse_cons, List.append_assoc]
      rfl
  | @pair _ _ _ _ _ _ _ _ char high low _ _ hhigh hlow hbound hchar _ ih =>
      obtain ⟨units, hunits, hjoin⟩ := ih
      obtain ⟨hh, hl⟩ := hbound
      have hofHigh : StringUnit.ofCode (0xD800 + high) = .half (0xD800 + high) :=
        ofCode_eq_half.mpr ⟨rfl, by omega, by omega⟩
      have hofLow : StringUnit.ofCode (0xDC00 + low) = .half (0xDC00 + low) :=
        ofCode_eq_half.mpr ⟨rfl, by omega, by omega⟩
      refine ⟨_, .code hhigh hofHigh (.code hlow hofLow hunits), fun found => ?_⟩
      have hcode : 0x10000 + (0xD800 + high - 0xD800) * 0x400 + (0xDC00 + low - 0xDC00)
          = char.toNat := by omega
      rw [joinUnits, if_pos (by simp; omega), hcode, Char.ofNat_toNat, hjoin, List.reverse_cons,
        List.append_assoc]
      rfl

/-- Units that stand for characters are those of a text that does so. -/
private theorem Units.standsFor (h : Units body units) {found all : List Char}
    (hjoin : joinUnits units found = some all) :
    ∃ chars, all = found.reverse ++ chars ∧ StandsFor body chars := by
  induction units, found using joinUnits.induct generalizing body with
  | case1 found =>
      cases h
      rw [joinUnits] at hjoin
      exact ⟨[], by rw [List.append_nil, Option.some.inj hjoin], .nil⟩
  | case2 found c rest ih =>
      rw [joinUnits] at hjoin
      -- however the character is written, the rest is made up of the other units
      have hmore : ∀ {body : List Char}, Units body rest →
          ∃ chars, all = found.reverse ++ c :: chars ∧ StandsFor body chars := by
        intro body hbody
        obtain ⟨chars, rfl, hchars⟩ := ih hbody hjoin
        exact ⟨chars, by rw [List.reverse_cons, List.append_assoc]; rfl, hchars⟩
      cases h with
      | plain hc hbody =>
          obtain ⟨chars, hall, hchars⟩ := hmore hbody
          exact ⟨_, hall, .plain hc hchars⟩
      | short hc hbody =>
          obtain ⟨chars, hall, hchars⟩ := hmore hbody
          exact ⟨_, hall, .short hc hchars⟩
      | code hn hunit hbody =>
          obtain ⟨chars, hall, hchars⟩ := hmore hbody
          rw [← toNat_of_ofCode hn.lt hunit] at hn
          exact ⟨_, hall, .code hn hchars⟩
  | case3 found high low rest hpair ih =>
      rw [joinUnits, if_pos hpair] at hjoin
      cases h with
      | code hhigh hunit hbody =>
          cases hbody with
          | code hlow hunit' hbody =>
              obtain ⟨rfl, hge, hle⟩ := ofCode_eq_half.mp hunit
              obtain ⟨rfl, hge', hle'⟩ := ofCode_eq_half.mp hunit'
              obtain ⟨chars, rfl, hchars⟩ := ih hbody hjoin
              rw [Bool.and_eq_true, decide_eq_true_eq, decide_eq_true_eq] at hpair
              refine ⟨_ :: chars, by rw [List.reverse_cons, List.append_assoc]; rfl, ?_⟩
              rw [← Nat.add_sub_cancel' hge] at hhigh
              rw [← Nat.add_sub_cancel' hpair.2] at hlow
              refine .pair hhigh hlow (by omega) ?_ hchars
              rw [Char.toNat_ofNat, if_pos (by unfold Nat.isValidChar; omega)]
  | case4 found high low rest hpair =>
      rw [joinUnits, if_neg hpair] at hjoin
      cases hjoin
  | case5 found high rest hrest =>
      rw [joinUnits] at hjoin
      · cases hjoin
      · exact hrest

/-- The text of a string is what its units stand for, if they stand for anything. -/
private theorem Units.text_eq_some_iff (h : Units body units) {s : String} :
    (joinUnits units []).map String.ofList = some s ↔ StandsFor body s.toList := by
  rw [Option.map_eq_some_iff]
  constructor
  · rintro ⟨chars, hjoin, rfl⟩
    obtain ⟨_, rfl, hchars⟩ := h.standsFor hjoin
    rwa [String.toList_ofList]
  · intro hchars
    obtain ⟨others, hothers, hjoin⟩ := hchars.exists_units
    refine ⟨s.toList, ?_, String.ofList_toList⟩
    rw [h.unique hothers, hjoin]
    rfl

/-- **A string** is read up to its closing quote. -/
theorem readString_of_isString {text : Option String} (h : IsString body text)
    (rest : List Char) : readString (body ++ '"' :: rest) = some (text, rest) := by
  obtain ⟨hbody, htext⟩ := h
  obtain ⟨units, hunits⟩ := hbody.exists_units
  have hjoin : (joinUnits units []).map String.ofList = text :=
    Option.ext fun s => hunits.text_eq_some_iff.trans (htext s).symm
  rw [readString, hunits.readUnits, Option.map_some, List.reverse_nil, List.nil_append]
  exact congrArg (fun text => some (text, rest)) hjoin

private theorem Units.isBody (h : Units body units) : IsBody body := by
  induction h with
  | nil => exact .nil
  | plain hc _ ih => exact .plain hc ih
  | short hc _ ih => exact .short hc ih
  | code hn _ _ ih => exact .code hn ih

/-- What stands for some characters is a string. -/
theorem isString_of_standsFor (h : StandsFor body chars) :
    IsString body (some (String.ofList chars)) := by
  obtain ⟨units, hunits, hjoin⟩ := h.exists_units
  refine ⟨hunits.isBody, fun s => ?_⟩
  rw [← hunits.text_eq_some_iff, hjoin]
  rfl

/-- Characters that may stand for themselves do so. -/
theorem isString_plain {s : String} (h : ∀ c ∈ s.toList, IsPlain c) :
    IsString s.toList (some s) := by
  have hself : ∀ chars : List Char, (∀ c ∈ chars, IsPlain c) → StandsFor chars chars := by
    intro chars hchars
    induction chars with
    | nil => exact .nil
    | cons c chars ih =>
        obtain ⟨hc, hchars⟩ := List.forall_mem_cons.mp hchars
        exact .plain hc (ih hchars)
  have hstring := isString_of_standsFor (hself s.toList h)
  rwa [String.ofList_toList] at hstring

end FailureTriage.Json
