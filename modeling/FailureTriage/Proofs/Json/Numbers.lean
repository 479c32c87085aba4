import FailureTriage.Proofs.Json.Grammar
import FailureTriage.Proofs.Text.Numbers

/-!
# Numbers are read

A number is read part by part, up to the character after it.

* `EndsNumber`: what may follow a number.
* `StartsNumber`: what a number starts with.
* `readNumber_of_writes`: a number among other text.
-/

namespace FailureTriage.Json

/-- A text that does not go on with what could belong to a number. -/
def EndsNumber (rest : List Char) : Prop :=
  ∀ c ∈ rest.head?, c.isDigit = false ∧ c ≠ '.' ∧ c ≠ 'e' ∧ c ≠ 'E'

theorem endsNumber_nil : EndsNumber [] := by
  intro c hc
  cases hc

theorem endsNumber_cons {c : Char} (h : c.isDigit = false ∧ c ≠ '.' ∧ c ≠ 'e' ∧ c ≠ 'E')
    (rest : List Char) : EndsNumber (c :: rest) := by
  intro d hd
  rwa [← Option.some.inj hd]

/-- A character that a number starts with. -/
def StartsNumber (c : Char) : Prop :=
  c = '-' ∨ c.isDigit = true

theorem StartsNumber.ne {c : Char} (h : StartsNumber c) {other : Char}
    (hother : ¬ (other = '-' ∨ other.isDigit = true)) : c ≠ other := by
  rintro rfl
  exact hother h

variable {text rest : List Char}

/-! ## The fraction and the exponent -/

theorem readFraction_of_isFraction {fraction : Option (List Char)} (h : IsFraction text fraction)
    (hrest : ∀ c ∈ rest.head?, c.isDigit = false ∧ c ≠ '.') :
    readFraction (text ++ rest) = some (fraction, rest) := by
  cases h with
  | none =>
      rw [List.nil_append, readFraction]
      rintro more rfl
      exact (hrest '.' rfl).2 rfl
  | digits hne hdigits =>
      obtain ⟨htake, hdrop⟩ := Text.takeWhile_digits hdigits fun c hc => (hrest c hc).1
      rw [List.cons_append, readFraction, htake, hdrop]
      exact if_neg (by simp [hne])

/-- The sign of an exponent is read before its digits. -/
theorem readPower_sign {e d : Char} {sign : List Char} {unit : Int} (he : e = 'e' ∨ e = 'E')
    (hsign : (sign, unit) ∈ powerSigns) (hd : d.isDigit = true) (rest : List Char) :
    readPower (e :: (sign ++ d :: rest))
      = if ((d :: rest).takeWhile Char.isDigit).isEmpty then none
        else some (some (unit * Text.digitsValue ((d :: rest).takeWhile Char.isDigit)),
          (d :: rest).dropWhile Char.isDigit) := by
  have hmark : (e = 'e' || e = 'E') = true := by simpa using he
  have hminus : d ≠ '-' := fun heq => absurd (heq ▸ hd) (by decide)
  have hplus : d ≠ '+' := fun heq => absurd (heq ▸ hd) (by decide)
  simp only [powerSigns, List.mem_cons, Prod.mk.injEq, List.not_mem_nil, or_false] at hsign
  rcases hsign with ⟨rfl, rfl⟩ | ⟨rfl, rfl⟩ | ⟨rfl, rfl⟩
  · rw [List.nil_append, readPower, if_pos hmark]
    · exact fun _ heq => hminus (List.cons.inj heq).1
    · exact fun _ heq => hplus (List.cons.inj heq).1
  · show readPower (e :: '+' :: d :: rest) = _
    rw [readPower, if_pos hmark]
  · show readPower (e :: '-' :: d :: rest) = _
    rw [readPower, if_pos hmark]

theorem readPower_of_isPower {power : Option Int} (h : IsPower text power)
    (hrest : EndsNumber rest) : readPower (text ++ rest) = some (power, rest) := by
  cases h with
  | none =>
      cases rest with
      | nil => rfl
      | cons c rest =>
          obtain ⟨-, -, he, hE⟩ := hrest c rfl
          exact if_neg (by simp [he, hE])
  | digits he hsign hne hdigits =>
      obtain ⟨htake, hdrop⟩ := Text.takeWhile_digits hdigits fun c hc => (hrest c hc).1
      obtain ⟨d, more, rfl⟩ := List.exists_cons_of_ne_nil hne
      rw [List.cons_append] at htake hdrop
      rw [List.cons_append, List.append_assoc, List.cons_append,
        readPower_sign he hsign (hdigits d List.mem_cons_self), htake, hdrop]
      rfl

/-- What follows the digits of a number before its point is no digit. -/
theorem endsDigits_of_isPower {power : Option Int} (h : IsPower text power)
    (hrest : EndsNumber rest) : ∀ c ∈ (text ++ rest).head?, c.isDigit = false ∧ c ≠ '.' := by
  cases h with
  | none => exact fun c hc => ⟨(hrest c hc).1, (hrest c hc).2.1⟩
  | digits he _ _ _ =>
      intro c hc
      rw [← Option.some.inj hc]
      rcases he with rfl | rfl
      · decide
      · decide

/-! ## Numbers -/

/-- What follows the sign of a number is read part by part. -/
theorem readUnsigned_of_parts {negative : Bool} {whole fractionPart powerPart : List Char}
    {fraction : Option (List Char)} {power : Option Int} (hwhole : IsWhole whole)
    (hfraction : IsFraction fractionPart fraction) (hpower : IsPower powerPart power)
    (hrest : EndsNumber rest) :
    readUnsigned negative (whole ++ (fractionPart ++ (powerPart ++ rest)))
      = some (numeralOf negative whole fraction power, rest) := by
  have hend := endsDigits_of_isPower hpower hrest
  have htail : ∀ c ∈ (fractionPart ++ (powerPart ++ rest)).head?, c.isDigit = false := by
    cases hfraction with
    | none => exact fun c hc => (hend c hc).1
    | digits _ _ =>
        intro c hc
        rw [← Option.some.inj hc]
        rfl
  obtain ⟨htake, hdrop⟩ := Text.takeWhile_digits hwhole.isDigit htail
  have hguard : ¬ (whole.isEmpty || (decide (whole.length > 1) && whole.head? == some '0'))
      = true := by
    rw [Bool.or_eq_true, Bool.and_eq_true, decide_eq_true_eq, beq_iff_eq, List.isEmpty_iff]
    rintro (hnil | ⟨hlength, hzero⟩)
    · exact hwhole.nonempty hnil
    · exact hwhole.noZero hlength hzero
  rw [readUnsigned, htake, hdrop]
  dsimp only
  rw [if_neg hguard, readFraction_of_isFraction hfraction hend]
  show (readPower (powerPart ++ rest)).bind _ = _
  rw [readPower_of_isPower hpower hrest]
  rfl

/-- The digits before the point start a number without a sign. -/
theorem IsWhole.exists_cons {whole : List Char} (h : IsWhole whole) :
    ∃ c more, whole = c :: more ∧ c.isDigit = true := by
  obtain ⟨c, more, rfl⟩ := List.exists_cons_of_ne_nil h.nonempty
  exact ⟨c, more, rfl, h.isDigit c List.mem_cons_self⟩

/-- A number starts with its sign or a digit. -/
theorem WritesNumber.starts {n : Numeral} (h : WritesNumber n text) :
    ∃ c more, text = c :: more ∧ StartsNumber c := by
  cases h with
  | @parts negative whole fractionPart powerPart _ _ hwhole _ _ =>
      cases negative with
      | true => exact ⟨'-', _, rfl, Or.inl rfl⟩
      | false =>
          obtain ⟨c, more, rfl, hc⟩ := hwhole.exists_cons
          exact ⟨c, _, rfl, Or.inr hc⟩

/-- **A number** is read up to the character after it. -/
theorem readNumber_of_writes {n : Numeral} (h : WritesNumber n text) (hrest : EndsNumber rest) :
    readNumber (text ++ rest) = some (n, rest) := by
  cases h with
  | @parts negative whole fractionPart powerPart fraction power hwhole hfraction hpower =>
      rw [← readUnsigned_of_parts hwhole hfraction hpower hrest]
      simp only [List.append_assoc]
      cases negative with
      | true => rfl
      | false =>
          obtain ⟨c, more, rfl, hc⟩ := hwhole.exists_cons
          show readNumber (c :: (more ++ (fractionPart ++ (powerPart ++ rest)))) = _
          rw [readNumber]
          · rfl
          · intro _ heq
            rw [(List.cons.inj heq).1] at hc
            cases hc

end FailureTriage.Json
