import FailureTriage.Proofs.Json.Numbers
import FailureTriage.Proofs.Json.Strings

/-!
# Documents are read

Every text that the grammar allows is read as the value that it writes.

* `Reads`: what the reader makes of each phrase of the grammar.
* `reads_of_writes`: every phrase, among other text.
* `read?_of_writes`: a whole document.
-/

namespace FailureTriage.Json

variable {phrase : Phrase} {text rest : List Char} {fuel : Nat} {value : Json}

/-! ## Blanks -/

/-- A character that is no blank. -/
def IsSolid (c : Char) : Prop :=
  c ≠ ' ' ∧ c ≠ '\n' ∧ c ≠ '\r' ∧ c ≠ '\t'

instance (c : Char) : Decidable (IsSolid c) :=
  inferInstanceAs (Decidable (_ ∧ _))

theorem skipBlanks_solid {c : Char} (h : IsSolid c) (rest : List Char) :
    skipBlanks (c :: rest) = c :: rest := by
  obtain ⟨hspace, hline, hreturn, htab⟩ := h
  exact List.dropWhile_cons_of_neg (by simp [hspace, hline, hreturn, htab])

theorem skipBlanks_blanks {blanks : List Char} (h : Blanks blanks) (text : List Char) :
    skipBlanks (blanks ++ text) = skipBlanks text := by
  refine List.dropWhile_append_of_pos fun c hc => ?_
  rcases h c hc with rfl | rfl | rfl | rfl
  · rfl
  · rfl
  · rfl
  · rfl

theorem EndsNumber.blanks {blanks : List Char} (hrest : EndsNumber rest) (h : Blanks blanks) :
    EndsNumber (blanks ++ rest) := by
  cases blanks with
  | nil => exact hrest
  | cons d blanks =>
      refine endsNumber_cons ?_ _
      rcases h d List.mem_cons_self with rfl | rfl | rfl | rfl
      · decide
      · decide
      · decide
      · decide

theorem skipBlanks_skipBlanks (text : List Char) :
    skipBlanks (skipBlanks text) = skipBlanks text := by
  induction text with
  | nil => rfl
  | cons c text ih =>
      by_cases hc : (c == ' ' || c == '\n' || c == '\r' || c == '\t') = true
      · have hskip : skipBlanks (c :: text) = skipBlanks text := List.dropWhile_cons_of_pos hc
        rw [hskip, ih]
      · have hkeep : skipBlanks (c :: text) = c :: text := List.dropWhile_cons_of_neg hc
        rw [hkeep, hkeep]

/-- A value is looked for after the blanks. -/
theorem readValue_skipBlanks (fuel : Nat) (text : List Char) :
    readValue fuel (skipBlanks text) = readValue fuel text := by
  cases fuel with
  | zero => rw [readValue, readValue]
  | succ fuel => rw [readValue, readValue, skipBlanks_skipBlanks]

theorem readItems_skipBlanks (fuel : Nat) (text : List Char) (found : List Json) :
    readItems fuel (skipBlanks text) found = readItems fuel text found := by
  cases fuel with
  | zero => rw [readItems, readItems]
  | succ fuel => rw [readItems, readItems, readValue_skipBlanks]

theorem readMembers_skipBlanks (fuel : Nat) (text : List Char)
    (found : List (Option String × Json)) :
    readMembers fuel (skipBlanks text) found = readMembers fuel text found := by
  cases fuel with
  | zero => rw [readMembers, readMembers]
  | succ fuel => rw [readMembers, readMembers, skipBlanks_skipBlanks]

/-! ## How a phrase starts -/

theorem StartsNumber.isSolid {c : Char} (h : StartsNumber c) : IsSolid c :=
  ⟨h.ne (by decide), h.ne (by decide), h.ne (by decide), h.ne (by decide)⟩

/-- Whether a character is no blank and closes no brackets. -/
def Opens (c : Char) : Prop :=
  IsSolid c ∧ c ≠ ']' ∧ c ≠ '}'

instance (c : Char) : Decidable (Opens c) :=
  inferInstanceAs (Decidable (_ ∧ _))

/-- Whatever blanks stand before it, a phrase starts with no character that closes brackets. -/
theorem Writes.starts (h : Writes phrase text) :
    ∃ blanks c more, text = blanks ++ c :: more ∧ Blanks blanks ∧ Opens c := by
  have hnone : Blanks [] := List.forall_mem_nil _
  induction h with
  | null => exact ⟨[], _, _, rfl, hnone, by decide⟩
  | true => exact ⟨[], _, _, rfl, hnone, by decide⟩
  | false => exact ⟨[], _, _, rfl, hnone, by decide⟩
  | number hn =>
      obtain ⟨c, more, htext, hc⟩ := hn.starts
      exact ⟨[], c, more, htext, hnone, hc.isSolid, hc.ne (by decide), hc.ne (by decide)⟩
  | string _ => exact ⟨[], _, _, rfl, hnone, by decide⟩
  | emptyArray _ => exact ⟨[], _, _, rfl, hnone, by decide⟩
  | array _ _ => exact ⟨[], _, _, rfl, hnone, by decide⟩
  | emptyObject _ => exact ⟨[], _, _, rfl, hnone, by decide⟩
  | object _ _ => exact ⟨[], _, _, rfl, hnone, by decide⟩
  | @element _ before _ after hbefore _ _ ih =>
      obtain ⟨blanks, c, more, rfl, hblanks, hc⟩ := ih
      refine ⟨before ++ blanks, c, more ++ after, ?_,
        List.forall_mem_append.mpr ⟨hbefore, hblanks⟩, hc⟩
      simp only [List.append_assoc, List.cons_append]
  | lastItem _ ih => exact ih
  | @items _ _ _ later _ _ ih _ =>
      obtain ⟨blanks, c, more, rfl, hblanks, hc⟩ := ih
      exact ⟨blanks, c, more ++ ',' :: later, by rw [List.append_assoc]; rfl, hblanks, hc⟩
  | @member _ _ before _ _ _ hbefore _ _ _ _ => exact ⟨before, _, _, rfl, hbefore, by decide⟩
  | lastMember _ ih => exact ih
  | @members _ _ _ _ later _ _ ih _ =>
      obtain ⟨blanks, c, more, rfl, hblanks, hc⟩ := ih
      exact ⟨blanks, c, more ++ ',' :: later, by rw [List.append_assoc]; rfl, hblanks, hc⟩

/-- The character that a phrase starts with is found behind the blanks. -/
theorem Writes.exists_skipBlanks (h : Writes phrase text) (rest : List Char) :
    ∃ c more, skipBlanks (text ++ rest) = c :: more ∧ Opens c := by
  obtain ⟨blanks, c, more, rfl, hblanks, hc⟩ := h.starts
  refine ⟨c, more ++ rest, ?_, hc⟩
  rw [List.append_assoc, skipBlanks_blanks hblanks, List.cons_append, skipBlanks_solid hc.1]

theorem Writes.length_pos (h : Writes phrase text) : 0 < text.length := by
  obtain ⟨blanks, c, more, rfl, -⟩ := h.starts
  rw [List.length_append, List.length_cons]
  omega

/-- What the reader makes of a phrase, if it has two steps for each character. -/
def Reads : Phrase → List Char → Prop
  | .value value, text => ∀ fuel rest, 2 * text.length ≤ fuel + 1 → EndsNumber rest →
      readValue (fuel + 1) (text ++ rest) = some (value, rest)
  | .element value, text => ∀ fuel rest, 2 * text.length ≤ fuel → EndsNumber rest →
      ∃ left, readValue fuel (text ++ rest) = some (value, left)
        ∧ skipBlanks left = skipBlanks rest
  | .items values, text => ∀ fuel rest found, 2 * text.length + 1 ≤ fuel →
      readItems fuel (text ++ ']' :: rest) found = some (.array (found.reverse ++ values), rest)
  | .member key value, text => ∀ fuel rest found, 2 * text.length ≤ fuel →
      readMembers (fuel + 1) (text ++ ',' :: rest) found
          = readMembers fuel rest ((key, value) :: found)
        ∧ readMembers (fuel + 1) (text ++ '}' :: rest) found
          = some (.object ((key, value) :: found).reverse, rest)
  | .members members, text => ∀ fuel rest found, 2 * text.length + 1 ≤ fuel →
      readMembers fuel (text ++ '}' :: rest) found
        = some (.object (found.reverse ++ members), rest)

/-- A number is no word, and no value of another sort. -/
theorem readValue_number {n : Numeral} (h : WritesNumber n text) (hrest : EndsNumber rest) :
    readValue (fuel + 1) (text ++ rest) = some (.number n, rest) := by
  have hnumber := readNumber_of_writes h hrest
  obtain ⟨c, more, rfl, hc⟩ := h.starts
  have hn : c ≠ 'n' := hc.ne (by decide)
  have ht : c ≠ 't' := hc.ne (by decide)
  have hf : c ≠ 'f' := hc.ne (by decide)
  have hscalar : readScalar (c :: more ++ rest) = some (.number n, rest) := by
    rw [List.cons_append, readScalar]
    · rw [← List.cons_append, hnumber]
      rfl
    · exact fun _ heq => absurd (List.cons.inj heq).1 hn
    · exact fun _ heq => absurd (List.cons.inj heq).1 ht
    · exact fun _ heq => absurd (List.cons.inj heq).1 hf
  rw [← hscalar, List.cons_append, readValue, skipBlanks_solid hc.isSolid]
  split
  · rename_i heq
    exact absurd (List.cons.inj heq).1 (hc.ne (by decide))
  · rename_i heq
    exact absurd (List.cons.inj heq).1 (hc.ne (by decide))
  · rename_i heq
    exact absurd (List.cons.inj heq).1 (hc.ne (by decide))
  · rfl

/-- An array whose text goes on with an item is read item by item. -/
theorem readValue_bracket {c : Char} {more : List Char} (h : skipBlanks text = c :: more)
    (hc : c ≠ ']') : readValue (fuel + 1) ('[' :: text) = readItems fuel text [] := by
  rw [readValue, skipBlanks_solid (by decide), ← readItems_skipBlanks]
  simp only [h]
  split
  · rename_i heq
    exact absurd (List.cons.inj heq).1 hc
  · rfl

/-- An object whose text goes on with a member is read member by member. -/
theorem readValue_brace {c : Char} {more : List Char} (h : skipBlanks text = c :: more)
    (hc : c ≠ '}') : readValue (fuel + 1) ('{' :: text) = readMembers fuel text [] := by
  rw [readValue, skipBlanks_solid (by decide), ← readMembers_skipBlanks]
  simp only [h]
  split
  · rename_i heq
    exact absurd (List.cons.inj heq).1 hc
  · rfl

/-- An item is read up to what follows it. -/
theorem Reads.item (h : Reads (.element value) text) (hfuel : 2 * text.length ≤ fuel)
    (rest : List Char) (found : List Json) :
    readItems (fuel + 1) (text ++ ',' :: rest) found = readItems fuel rest (value :: found)
      ∧ readItems (fuel + 1) (text ++ ']' :: rest) found
        = some (.array (value :: found).reverse, rest) := by
  constructor
  · obtain ⟨left, hread, hleft⟩ := h fuel (',' :: rest) hfuel (endsNumber_cons (by decide) rest)
    rw [readItems, hread]
    dsimp only
    rw [hleft, skipBlanks_solid (by decide)]
    rfl
  · obtain ⟨left, hread, hleft⟩ := h fuel (']' :: rest) hfuel (endsNumber_cons (by decide) rest)
    rw [readItems, hread]
    dsimp only
    rw [hleft, skipBlanks_solid (by decide)]
    rfl

/-- A member is read up to what follows it. -/
theorem Reads.of_member {key : Option String} {before body after : List Char}
    (hbefore : Blanks before) (hkey : IsString body key) (hafter : Blanks after)
    (hvalue : Reads (.element value) text) :
    Reads (.member key value) (before ++ '"' :: (body ++ '"' :: (after ++ ':' :: text))) := by
  intro fuel rest found hfuel
  have hshort : 2 * text.length ≤ fuel := by
    simp only [List.length_append, List.length_cons] at hfuel
    omega
  -- the separator behind the value decides how the reader goes on
  have hread : ∀ tail left, readValue fuel (text ++ tail) = some (value, left) →
      (skipBlanks left = ',' :: rest →
        readMembers (fuel + 1)
            (before ++ '"' :: (body ++ '"' :: (after ++ ':' :: text)) ++ tail) found
          = readMembers fuel rest ((key, value) :: found))
      ∧ (skipBlanks left = '}' :: rest →
        readMembers (fuel + 1)
            (before ++ '"' :: (body ++ '"' :: (after ++ ':' :: text)) ++ tail) found
          = some (.object ((key, value) :: found).reverse, rest)) := by
    intro tail left hleft
    simp only [List.append_assoc, List.cons_append]
    rw [readMembers, skipBlanks_blanks hbefore, skipBlanks_solid (by decide)]
    simp only [readString_of_isString hkey]
    rw [skipBlanks_blanks hafter, skipBlanks_solid (by decide)]
    simp only [hleft]
    constructor
    · intro hcomma
      simp only [hcomma]
    · intro hbrace
      simp only [hbrace]
  constructor
  · obtain ⟨left, hvalue, hleft⟩ := hvalue fuel (',' :: rest) hshort
      (endsNumber_cons (by decide) rest)
    exact (hread _ left hvalue).1 (hleft.trans (skipBlanks_solid (by decide) rest))
  · obtain ⟨left, hvalue, hleft⟩ := hvalue fuel ('}' :: rest) hshort
      (endsNumber_cons (by decide) rest)
    exact (hread _ left hvalue).2 (hleft.trans (skipBlanks_solid (by decide) rest))

/-- **Every phrase** is read as what it writes. -/
theorem reads_of_writes (h : Writes phrase text) : Reads phrase text := by
  induction h with
  | null => exact fun fuel rest _ _ => rfl
  | true => exact fun fuel rest _ _ => rfl
  | false => exact fun fuel rest _ _ => rfl
  | number hn => exact fun fuel rest _ hrest => readValue_number hn hrest
  | string hbody =>
      intro fuel rest _ _
      have hread := readString_of_isString hbody rest
      rw [List.cons_append, List.append_assoc, List.singleton_append, readValue,
        skipBlanks_solid (by decide)]
      simp only [hread]
      rfl
  | emptyArray hblanks =>
      intro fuel rest _ _
      rw [List.cons_append, List.append_assoc, List.singleton_append, readValue,
        skipBlanks_solid (by decide)]
      simp only
      rw [skipBlanks_blanks hblanks, skipBlanks_solid (by decide)]
      rfl
  | @array values text hitems ih =>
      intro fuel rest hfuel _
      obtain ⟨c, more, hskip, -, hclose, -⟩ := hitems.exists_skipBlanks (']' :: rest)
      have hshort : 2 * text.length + 1 ≤ fuel := by
        simp only [List.length_append, List.length_cons, List.length_nil] at hfuel
        omega
      rw [List.cons_append, List.append_assoc, List.singleton_append,
        readValue_bracket hskip hclose, ih fuel rest [] hshort]
      rfl
  | emptyObject hblanks =>
      intro fuel rest _ _
      rw [List.cons_append, List.append_assoc, List.singleton_append, readValue,
        skipBlanks_solid (by decide)]
      simp only
      rw [skipBlanks_blanks hblanks, skipBlanks_solid (by decide)]
      rfl
  | @object members text hmembers ih =>
      intro fuel rest hfuel _
      obtain ⟨c, more, hskip, -, -, hclose⟩ := hmembers.exists_skipBlanks ('}' :: rest)
      have hshort : 2 * text.length + 1 ≤ fuel := by
        simp only [List.length_append, List.length_cons, List.length_nil] at hfuel
        omega
      rw [List.cons_append, List.append_assoc, List.singleton_append,
        readValue_brace hskip hclose, ih fuel rest [] hshort]
      rfl
  | @element value before text after hbefore hvalue hafter ih =>
      intro fuel rest hfuel hrest
      have hpos := hvalue.length_pos
      simp only [List.length_append] at hfuel
      obtain ⟨fuel, rfl⟩ := Nat.exists_eq_add_of_lt (show 0 < fuel by omega)
      refine ⟨after ++ rest, ?_, skipBlanks_blanks hafter rest⟩
      rw [List.append_assoc, List.append_assoc, ← readValue_skipBlanks, skipBlanks_blanks hbefore,
        readValue_skipBlanks]
      exact ih _ (after ++ rest) (by omega) (hrest.blanks hafter)
  | lastItem _ ih =>
      intro fuel rest found hfuel
      obtain ⟨fuel, rfl⟩ := Nat.exists_eq_add_of_lt (show 0 < fuel by omega)
      rw [(Reads.item ih (by omega) rest found).2, List.reverse_cons]
  | items _ _ ih ihmore =>
      intro fuel rest found hfuel
      simp only [List.length_append, List.length_cons] at hfuel
      obtain ⟨fuel, rfl⟩ := Nat.exists_eq_add_of_lt (show 0 < fuel by omega)
      rw [List.append_assoc, List.cons_append, (Reads.item ih (by omega) _ found).1,
        ihmore _ rest _ (by omega), List.reverse_cons, List.append_assoc]
      rfl
  | member hbefore hkey hafter _ ih => exact Reads.of_member hbefore hkey hafter ih
  | lastMember _ ih =>
      intro fuel rest found hfuel
      obtain ⟨fuel, rfl⟩ := Nat.exists_eq_add_of_lt (show 0 < fuel by omega)
      rw [(ih _ rest found (by omega)).2, List.reverse_cons]
  | members _ _ ih ihmore =>
      intro fuel rest found hfuel
      simp only [List.length_append, List.length_cons] at hfuel
      obtain ⟨fuel, rfl⟩ := Nat.exists_eq_add_of_lt (show 0 < fuel by omega)
      rw [List.append_assoc, List.cons_append, (ih _ _ found (by omega)).1,
        ihmore _ rest _ (by omega), List.reverse_cons, List.append_assoc]
      rfl

/-- **A document** is read as the value that it writes. -/
theorem read?_of_writes {body : String} (h : Writes (.element value) body.toList) :
    read? body = some value := by
  obtain ⟨left, hread, hleft⟩ := reads_of_writes h (2 * body.toList.length + 2) [] (by omega)
    endsNumber_nil
  rw [List.append_nil] at hread
  rw [read?, hread]
  dsimp only
  rw [hleft]
  rfl

end FailureTriage.Json
