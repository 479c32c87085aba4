import FailureTriage.Proofs.Text.Numbers
import FailureTriage.Timestamp

/-!
# Timestamps read back

A timestamp that is a point in time of the calendar is read back from its text, and nothing else is
read from any text.

* `Timestamp.Valid`: the points in time of the calendar.
* `parse?_text`: a valid timestamp is read back.
* `valid_of_parse?`: what is read is valid.
-/

namespace FailureTriage

open Text

namespace Timestamp

/-- Whether a timestamp is a point in time of the calendar. -/
structure Valid (t : Timestamp) : Prop where
  date : isDate t.year t.month t.day = true
  hour : t.hour < 24
  minute : t.minute < 60
  second : t.second ≤ 60
  nanosecond : t.nanosecond < 10 ^ 9

variable {width n : Nat} {rest : List Char}

/-! ## Padded numbers -/

private theorem isDigit_padded {c : Char} (h : c ∈ padded width n) : c.isDigit = true := by
  rcases List.mem_append.mp h with h | h
  · rw [List.eq_of_mem_replicate h]
    rfl
  · exact isDigit_of_mem_natDigits h

private theorem digitsValue_padded (width n : Nat) : digitsValue (padded width n) = n := by
  rw [padded, digitsValue_append, digitsValue_replicate, digitsValue_natDigits, Nat.zero_mul,
    Nat.zero_add]

private theorem length_padded (hwidth : 0 < width) (h : n < 10 ^ width) :
    (padded width n).length = width := by
  have hlength : (natDigits n).length ≤ width :=
    (Nat.length_toDigits_le_iff (by decide) hwidth).mpr h
  rw [padded, List.length_append, List.length_replicate]
  omega

private theorem padded_ne_nil (width n : Nat) : padded width n ≠ [] := fun h =>
  Nat.toDigits_ne_nil (List.append_eq_nil_iff.mp h).2

/-- A number is read if its digits are those that may be taken. -/
private theorem number?_of_take {limit : Nat}
    (htake : ((padded width n ++ rest).takeWhile Char.isDigit).take limit = padded width n) :
    number? limit (padded width n ++ rest) = some (n, rest) := by
  have hne : (padded width n).isEmpty = false :=
    List.isEmpty_eq_false_iff.mpr (padded_ne_nil width n)
  rw [number?, htake, hne, digitsValue_padded, List.drop_left]
  rfl

/-- A number is read that is as long as it may be, whatever follows it. -/
private theorem number?_padded (hwidth : 0 < width) (h : n < 10 ^ width) :
    number? width (padded width n ++ rest) = some (n, rest) := by
  refine number?_of_take ?_
  rw [List.takeWhile_append_of_pos fun c hc => isDigit_padded hc]
  exact List.take_left' (length_padded hwidth h)

/-- A number is read up to its end, if it may be that long. -/
private theorem number?_padded_end {limit : Nat} (hlimit : (padded width n).length ≤ limit)
    (hrest : ∀ c ∈ rest.head?, c.isDigit = false) :
    number? limit (padded width n ++ rest) = some (n, rest) := by
  refine number?_of_take ?_
  rw [(takeWhile_digits (fun c hc => isDigit_padded hc) hrest).1]
  exact List.take_of_length_le hlimit

private theorem trimStart_of_head {c : Char} (h : isBlank c = false) (text : List Char) :
    trimStart (c :: text) = c :: text := by
  rw [trimStart, List.dropWhile_cons_of_neg (by simp [h])]

private theorem trimStart_padded : trimStart (padded width n ++ rest) = padded width n ++ rest := by
  obtain ⟨c, more, hcons⟩ := List.exists_cons_of_ne_nil (padded_ne_nil width n)
  have hc : c.isDigit = true := isDigit_padded (hcons ▸ List.mem_cons_self)
  rw [hcons, List.cons_append, trimStart_of_head (isBlank_of_isDigit hc)]

/-- **A part** of a timestamp. -/
theorem part?_padded (hwidth : 0 < width) (h : n < 10 ^ width) :
    part? width (padded width n ++ rest) = some (n, rest) := by
  rw [part?, trimStart_padded, number?_padded hwidth h]

theorem mark?_self {mark : Char} (h : isBlank mark = false) :
    mark? mark (mark :: rest) = some rest := by
  rw [mark?, trimStart_of_head h]
  exact if_pos rfl

/-- **A year**, with a sign or without. -/
theorem year?_yearText (year : Int) (more : List Char) :
    year? (yearText year ++ '-' :: more) = some (year, '-' :: more) := by
  have hread : number? (padded 4 year.natAbs ++ '-' :: more).length
      (padded 4 year.natAbs ++ '-' :: more) = some (year.natAbs, '-' :: more) :=
    number?_padded_end (by rw [List.length_append]; omega) (by rintro c hc; cases hc; rfl)
  rw [yearText]
  split
  next h =>
    rw [Bool.and_eq_true, decide_eq_true_eq, decide_eq_true_eq] at h
    obtain ⟨c, digits, hcons⟩ := List.exists_cons_of_ne_nil (padded_ne_nil 4 year.natAbs)
    have hc : c.isDigit = true := isDigit_padded (hcons ▸ List.mem_cons_self)
    have hplain : year? (padded 4 year.natAbs ++ '-' :: more)
        = (number? 4 (padded 4 year.natAbs ++ '-' :: more)).bind
          fun r => some ((r.1 : Int), r.2) := by
      rw [year?, trimStart_padded, hcons]
      split
      next heq =>
        cases heq
        exact absurd hc (by decide)
      next heq =>
        cases heq
        exact absurd hc (by decide)
      next => rfl
    rw [hplain, number?_padded (by decide) (by omega), Option.bind_some, Int.natAbs_of_nonneg h.1]
  next h =>
    by_cases hneg : year < 0
    · have hyear : -(year.natAbs : Int) = year := by omega
      rw [if_pos hneg, List.cons_append, year?, trimStart_of_head (by decide)]
      show (number? _ _).bind (fun r => some (-(r.1 : Int), r.2)) = _
      rw [hread, Option.bind_some, hyear]
    · have hyear : (year.natAbs : Int) = year := by omega
      rw [if_neg hneg, List.cons_append, year?, trimStart_of_head (by decide)]
      show (number? _ _).bind (fun r => some ((r.1 : Int), r.2)) = _
      rw [hread, Option.bind_some, hyear]

/-- The digits after the point of a second. -/
private theorem fraction?_padded {count value : Nat} (hcount : 0 < count) (h9 : count ≤ 9)
    (hvalue : value < 10 ^ count) :
    fraction? ('.' :: padded count value ++ ['Z']) = some (value * 10 ^ (9 - count), ['Z']) := by
  have hlength := length_padded hcount hvalue
  have hread : number? 9 (padded count value ++ ['Z']) = some (value, ['Z']) :=
    number?_padded_end (by omega) (by rintro c hc; cases hc; rfl)
  rw [List.cons_append, fraction?, hread]
  show some (value * 10 ^ (9 - ((padded count value ++ ['Z']).length - ['Z'].length)), _) = _
  rw [List.length_append, hlength, Nat.add_sub_cancel]
  rfl

/-- **The fraction** of a second. -/
theorem fraction?_fractionText (h : n < 10 ^ 9) :
    fraction? (fractionText n ++ ['Z']) = some (n, ['Z']) := by
  rw [fractionText]
  split
  next hzero => rw [hzero]; rfl
  next =>
    split
    next hmilli =>
      rw [fraction?_padded (by decide) (by decide) (by omega)]
      congr 2
      omega
    next =>
      split
      next hmicro =>
        rw [fraction?_padded (by decide) (by decide) (by omega)]
        congr 2
        omega
      next =>
        rw [fraction?_padded (by decide) (by decide) h]
        congr 2
        omega

/-- No distance from universal time. -/
theorem minusMinutes_zero {t : Timestamp} (hhour : t.hour < 24) (hminute : t.minute < 60) :
    t.minusMinutes 0 = t := by
  have hday : ¬ ((t.hour * 60 + t.minute : Nat) : Int) < 0 := by omega
  have hday' : ¬ (1440 : Int) ≤ ((t.hour * 60 + t.minute : Nat) : Int) := by omega
  have hinDay : (((t.hour * 60 + t.minute : Nat) : Int) % 1440).toNat = t.hour * 60 + t.minute := by
    omega
  have hours : (t.hour * 60 + t.minute) / 60 = t.hour := by omega
  have minutes : (t.hour * 60 + t.minute) % 60 = t.minute := by omega
  rw [minusMinutes, Int.sub_zero, if_neg hday, if_neg hday']
  simp only [hinDay, hours, minutes]

/-- The month and the day of a date have two digits at most. -/
theorem bounds_of_isDate {year : Int} {month day : Nat} (h : isDate year month day = true) :
    month < 10 ^ 2 ∧ day < 10 ^ 2 := by
  have hdays : daysIn year month ≤ 31 := by
    rw [daysIn]
    split <;> split <;> decide
  rw [isDate] at h
  simp only [Bool.and_eq_true, decide_eq_true_eq] at h
  omega

/-- **A timestamp is read back** from its text. -/
theorem parse?_text {t : Timestamp} (h : t.Valid) : parse? t.text = some t := by
  have hpart : ∀ {n : Nat}, n < 10 ^ 2 → ∀ rest, part? 2 (padded 2 n ++ rest) = some (n, rest) :=
    fun hn rest => part?_padded (by decide) hn
  have hmonth := hpart (bounds_of_isDate h.date).1
  have hday := hpart (bounds_of_isDate h.date).2
  have hhour := hpart (Nat.lt_trans h.hour (by decide : 24 < 10 ^ 2))
  have hminute := hpart (Nat.lt_trans h.minute (by decide : 60 < 10 ^ 2))
  have hsecond := hpart (Nat.lt_of_le_of_lt h.second (by decide : 60 < 10 ^ 2))
  have hdash : ∀ rest, mark? '-' ('-' :: rest) = some rest := fun rest => mark?_self (by decide)
  have hcolon : ∀ rest, mark? ':' (':' :: rest) = some rest := fun rest => mark?_self (by decide)
  have hletter : ∀ rest, between? ('T' :: rest) = some rest := fun rest => rfl
  have hzone : zone? ['Z'] = some (0, []) := rfl
  have htext : t.text.toList = yearText t.year ++ '-' :: (padded 2 t.month ++ '-' ::
      (padded 2 t.day ++ 'T' :: (padded 2 t.hour ++ ':' :: (padded 2 t.minute ++ ':' ::
        (padded 2 t.second ++ (fractionText t.nanosecond ++ ['Z'])))))) := by
    rw [text, String.toList_ofList]
    simp only [List.append_assoc, List.cons_append]
  rw [parse?, htext]
  -- each part is read off the text in turn
  refine Option.bind_eq_some_iff.mpr ⟨_, year?_yearText _ _, ?_⟩
  refine Option.bind_eq_some_iff.mpr ⟨_, hdash _, Option.bind_eq_some_iff.mpr ⟨_, hmonth _, ?_⟩⟩
  refine Option.bind_eq_some_iff.mpr ⟨_, hdash _, Option.bind_eq_some_iff.mpr ⟨_, hday _, ?_⟩⟩
  refine Option.bind_eq_some_iff.mpr ⟨_, hletter _, Option.bind_eq_some_iff.mpr ⟨_, hhour _, ?_⟩⟩
  refine Option.bind_eq_some_iff.mpr ⟨_, hcolon _, Option.bind_eq_some_iff.mpr ⟨_, hminute _, ?_⟩⟩
  refine Option.bind_eq_some_iff.mpr ⟨_, hcolon _, Option.bind_eq_some_iff.mpr ⟨_, hsecond _, ?_⟩⟩
  refine Option.bind_eq_some_iff.mpr ⟨_, fraction?_fractionText h.nanosecond, ?_⟩
  refine Option.bind_eq_some_iff.mpr ⟨_, hzone, ?_⟩
  dsimp only
  rw [minusMinutes_zero h.hour h.minute, if_pos]
  simp [h.date, h.hour, h.minute, h.second, trimStart]

/-! ## Timestamps that are read -/

/-- Digits stand for less than the power of ten with a zero for each of them. -/
private theorem digitsValue_lt {digits : List Char} (h : ∀ c ∈ digits, c.isDigit = true) :
    digitsValue digits < 10 ^ digits.length := by
  induction digits with
  | nil => decide
  | cons c digits ih =>
    have hc : c.toNat - '0'.toNat ≤ 9 := by
      have := h c List.mem_cons_self
      rw [Char.isDigit, Bool.and_eq_true, decide_eq_true_eq, decide_eq_true_eq] at this
      have hhigh : c.toNat ≤ '9'.toNat := this.2
      show c.toNat - 48 ≤ 9
      exact Nat.sub_le_of_le_add hhigh
    have hfirst : digitsValue [c] = c.toNat - '0'.toNat := by
      show 0 * 10 + _ = _
      omega
    have hrest := ih fun d hd => h d (List.mem_cons_of_mem c hd)
    rw [← List.singleton_append, digitsValue_append, hfirst, List.singleton_append, List.length_cons,
      Nat.pow_succ]
    have := Nat.mul_le_mul_right (10 ^ digits.length) hc
    omega

/-- A number that is read has no more digits than it may have. -/
private theorem number?_spec {text after : List Char} {value : Nat}
    (h : number? width text = some (value, after)) :
    ∃ count ≤ width, value < 10 ^ count ∧ text.length - after.length = count := by
  rw [number?] at h
  split at h
  · cases h
  · cases h
    refine ⟨((text.takeWhile Char.isDigit).take width).length, ?_, digitsValue_lt ?_, ?_⟩
    · rw [List.length_take]
      omega
    · intro c hc
      exact List.all_eq_true.mp List.all_takeWhile c (List.mem_of_mem_take hc)
    · have := (List.takeWhile_prefix Char.isDigit (l := text)).length_le
      rw [List.length_drop, List.length_take]
      omega

/-- A fraction is less than a second. -/
theorem fraction?_lt {text rest : List Char} {nanosecond : Nat}
    (h : fraction? text = some (nanosecond, rest)) : nanosecond < 10 ^ 9 := by
  unfold fraction? at h
  split at h
  · obtain ⟨⟨value, after⟩, hvalue, h⟩ := Option.bind_eq_some_iff.mp h
    obtain ⟨count, hlength, hless, hcount⟩ := number?_spec hvalue
    cases h
    show value * 10 ^ (9 - (_ - after.length)) < 10 ^ 9
    rw [hcount]
    calc value * 10 ^ (9 - count) < 10 ^ count * 10 ^ (9 - count) :=
          Nat.mul_lt_mul_of_pos_right hless (Nat.pow_pos (by decide))
      _ = 10 ^ 9 := by rw [← Nat.pow_add]; congr 1; omega
  · cases h
    decide

/-- However far it is moved, a time of day stays one. -/
theorem minusMinutes_bounds (t : Timestamp) (minutes : Int) :
    (t.minusMinutes minutes).hour < 24 ∧ (t.minusMinutes minutes).minute < 60 := by
  have hday : ∀ total : Int, (total % 1440).toNat / 60 < 24 ∧ (total % 1440).toNat % 60 < 60 := by
    omega
  exact hday _

/-- **What is read** is a point in time of the calendar. -/
theorem valid_of_parse? {s : String} {t : Timestamp} (h : parse? s = some t) : t.Valid := by
  rw [parse?] at h
  obtain ⟨⟨year, _⟩, -, h⟩ := Option.bind_eq_some_iff.mp h
  obtain ⟨_, -, h⟩ := Option.bind_eq_some_iff.mp h
  obtain ⟨⟨month, _⟩, -, h⟩ := Option.bind_eq_some_iff.mp h
  obtain ⟨_, -, h⟩ := Option.bind_eq_some_iff.mp h
  obtain ⟨⟨day, _⟩, -, h⟩ := Option.bind_eq_some_iff.mp h
  obtain ⟨_, -, h⟩ := Option.bind_eq_some_iff.mp h
  obtain ⟨⟨hour, _⟩, -, h⟩ := Option.bind_eq_some_iff.mp h
  obtain ⟨_, -, h⟩ := Option.bind_eq_some_iff.mp h
  obtain ⟨⟨minute, _⟩, -, h⟩ := Option.bind_eq_some_iff.mp h
  obtain ⟨_, -, h⟩ := Option.bind_eq_some_iff.mp h
  obtain ⟨⟨second, _⟩, -, h⟩ := Option.bind_eq_some_iff.mp h
  obtain ⟨⟨nanosecond, _⟩, hfraction, h⟩ := Option.bind_eq_some_iff.mp h
  obtain ⟨⟨offset, _⟩, -, h⟩ := Option.bind_eq_some_iff.mp h
  dsimp only at h
  split at h
  next hguard =>
    cases h
    simp only [Bool.and_eq_true, decide_eq_true_eq] at hguard
    obtain ⟨⟨⟨-, hsecond⟩, hdate⟩, -⟩ := hguard
    obtain ⟨hhour, hminute⟩ := minusMinutes_bounds _ _
    exact ⟨hdate, hhour, hminute, hsecond, fraction?_lt hfraction⟩
  next => cases h

end Timestamp

end FailureTriage
