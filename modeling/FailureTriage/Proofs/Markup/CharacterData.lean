import FailureTriage.Proofs.Markup.Writing
import FailureTriage.Proofs.Text.Cutting
import Mathlib.Data.List.TakeWhile

/-!
# Character data read back

Resolving the references of an escaped text gives that text.

* `unescape?_append`: a text whose references are resolved may be followed by any other.
* `unescape?_escape`: escaping is undone by resolving references.
* `eq_inner_between`: a text is its inner part between blanks.
* `isSome_unescape?_inner`: blanks at the ends of a text neither make nor spoil a reference.
* `inner_escape`: blanks at the ends may be dropped before or after escaping.
-/

namespace FailureTriage.Markup

/-! ## One character at a time -/

private theorem unescapeFrom_plain {c : Char} (h : c ≠ '&') (rest found : List Char) :
    unescapeFrom (c :: rest) none found = unescapeFrom rest none (c :: found) := by
  rw [unescapeFrom]
  exact h

private theorem unescapeFrom_body {c : Char} (h1 : c ≠ '&') (h2 : c ≠ ';')
    (rest body found : List Char) :
    unescapeFrom (c :: rest) (some body) found = unescapeFrom rest (some (c :: body)) found := by
  rw [unescapeFrom]
  · exact h1
  · exact h2

private theorem unescapeFrom_semicolon (rest body found : List Char) :
    unescapeFrom (';' :: rest) (some body) found
      = (referenced? body.reverse).bind fun c => unescapeFrom rest none (c :: found) := by
  rw [unescapeFrom]
  cases referenced? body.reverse <;> rfl

/-- What has been found already stands before what is still found. -/
theorem unescapeFrom_found (text : List Char) (reference : Option (List Char))
    (found : List Char) :
    unescapeFrom text reference found
      = (unescapeFrom text reference []).map (found.reverse ++ ·) := by
  -- what is read of a reference grows with each character, as does what has been found
  induction text generalizing reference found with
  | nil => cases reference <;> simp [unescapeFrom]
  | cons c rest ih =>
      have hshift : ∀ d : Char, (unescapeFrom rest none [d]).map (found.reverse ++ ·)
          = unescapeFrom rest none (d :: found) := by
        intro d
        rw [ih none (d :: found), ih none [d], Option.map_map]
        congr 1
        funext r
        simp
      cases reference with
      | none =>
          by_cases h : c = '&'
          · subst h
            exact ih (some []) found
          · rw [unescapeFrom_plain h, unescapeFrom_plain h, hshift]
      | some body =>
          by_cases h1 : c = '&'
          · subst h1
            rfl
          · by_cases h2 : c = ';'
            · subst h2
              rw [unescapeFrom_semicolon, unescapeFrom_semicolon]
              cases referenced? body.reverse with
              | none => rfl
              | some d => exact (hshift d).symm
            · rw [unescapeFrom_body h1 h2, unescapeFrom_body h1 h2]
              exact ih (some (c :: body)) found

/-- Where all references of a text are resolved, the reading goes on after it. -/
theorem unescapeFrom_append {text plain : List Char} {reference : Option (List Char)}
    {found : List Char} (h : unescapeFrom text reference found = some plain) (rest : List Char) :
    unescapeFrom (text ++ rest) reference found = unescapeFrom rest none plain.reverse := by
  induction text generalizing reference found with
  | nil =>
      cases reference with
      | none =>
          have hp : found.reverse = plain := Option.some.inj h
          rw [List.nil_append, ← hp, List.reverse_reverse]
      | some body => cases h
  | cons c text ih =>
      rw [List.cons_append]
      cases reference with
      | none =>
          by_cases hc : c = '&'
          · subst hc
            have h' : unescapeFrom text (some []) found = some plain := h
            exact ih h'
          · rw [unescapeFrom_plain hc] at h ⊢
            exact ih h
      | some body =>
          by_cases h1 : c = '&'
          · -- no reference stands inside another one
            subst h1
            cases h
          · by_cases h2 : c = ';'
            · subst h2
              rw [unescapeFrom_semicolon] at h ⊢
              cases hr : referenced? body.reverse with
              | none => rw [hr] at h; cases h
              | some d =>
                  rw [hr] at h
                  exact ih h
            · rw [unescapeFrom_body h1 h2] at h ⊢
              exact ih h

/-- A text whose references are resolved may be followed by any other. -/
theorem unescape?_append {text plain : List Char} (h : unescape? text = some plain)
    (rest : List Char) : unescape? (text ++ rest) = (unescape? rest).map (plain ++ ·) := by
  rw [unescape?, unescapeFrom_append h, unescapeFrom_found, List.reverse_reverse]
  rfl

/-! ## Escaped text -/

/-- A character is escaped as the list of escapes says, or stands for itself. -/
theorem escapeChar_cases (c : Char) :
    (c, escapeChar c) ∈ escapes ∨ (c ∉ escapes.map Prod.fst ∧ escapeChar c = [c]) := by
  unfold escapeChar
  cases h : escapes.lookup c with
  | some written =>
      left
      obtain ⟨before, after, heq, -⟩ := List.lookup_eq_some_iff.mp h
      rw [heq]
      simp
  | none =>
      right
      refine ⟨?_, rfl⟩
      intro hmem
      obtain ⟨entry, hentry, hc⟩ := List.mem_map.mp hmem
      have hne := List.lookup_eq_none_iff.mp h entry hentry
      rw [hc] at hne
      exact absurd rfl (bne_iff_ne.mp hne)

/-- What stands for a character is resolved to that character. -/
theorem unescape?_escapeChar (c : Char) : unescape? (escapeChar c) = some [c] := by
  rcases escapeChar_cases c with hmem | ⟨hnot, heq⟩
  · have hall : ∀ entry ∈ escapes, unescape? entry.2 = some [entry.1] := by decide
    exact hall _ hmem
  · have hc : c ≠ '&' := by
      rintro rfl
      exact hnot (by decide)
    rw [heq, unescape?, unescapeFrom_plain hc]
    rfl

/-- **Escaping is undone** by resolving references. -/
theorem unescape?_escape (text : List Char) : unescape? (escape text) = some text := by
  induction text with
  | nil => rfl
  | cons c text ih =>
      rw [escape, List.flatMap_cons, unescape?_append (unescape?_escapeChar c)]
      show (unescape? (escape text)).map _ = _
      rw [ih]
      rfl

/-- No character with a meaning is left in escaped text, the ampersand apart. -/
theorem ne_of_mem_escape {c : Char} {text : List Char} (h : c ∈ escape text) :
    c ≠ '<' ∧ c ≠ '>' ∧ c ≠ '"' ∧ c ≠ '\'' := by
  obtain ⟨d, -, hd⟩ := List.mem_flatMap.mp h
  rcases escapeChar_cases d with hmem | ⟨hnot, heq⟩
  · have hall : escapes.all (fun entry => entry.2.all fun e =>
        e != '<' && (e != '>' && (e != '"' && e != '\''))) = true := by
      decide
    have hplain := List.all_eq_true.mp (List.all_eq_true.mp hall _ hmem) c hd
    simpa only [Bool.and_eq_true, bne_iff_ne] using hplain
  · rw [heq, List.mem_singleton] at hd
    subst hd
    refine ⟨?_, ?_, ?_, ?_⟩ <;> (rintro rfl; exact hnot (by decide))

/-! ## Blanks at the ends -/

private theorem isBlank_ne {c : Char} (h : isBlank c = true) : c ≠ '&' ∧ c ≠ ';' ∧ c ≠ '<' := by
  refine ⟨?_, ?_, ?_⟩ <;> (rintro rfl; revert h; decide)

/-- Blanks are resolved to themselves. -/
theorem unescape?_blanks {blanks : List Char} (h : ∀ c ∈ blanks, isBlank c = true) :
    unescape? blanks = some blanks := by
  induction blanks with
  | nil => rfl
  | cons c blanks ih =>
      have hc := isBlank_ne (h c List.mem_cons_self)
      have hone : unescape? [c] = some [c] := by
        rw [unescape?, unescapeFrom_plain hc.1]
        rfl
      rw [← List.singleton_append, unescape?_append hone,
        ih (fun d hd => h d (List.mem_cons_of_mem c hd))]
      rfl

/-- An unfinished reference stays unfinished if only blanks follow it. -/
private theorem unescapeFrom_blanks_of_open {blanks : List Char}
    (h : ∀ c ∈ blanks, isBlank c = true) (body found : List Char) :
    unescapeFrom blanks (some body) found = none := by
  induction blanks generalizing body with
  | nil => rfl
  | cons c blanks ih =>
      have hc := isBlank_ne (h c List.mem_cons_self)
      rw [unescapeFrom_body hc.1 hc.2.1]
      exact ih (fun d hd => h d (List.mem_cons_of_mem c hd)) (c :: body)

/-- A text with a wrong reference stays wrong if blanks follow it. -/
private theorem unescapeFrom_append_blanks {text blanks : List Char}
    {reference : Option (List Char)} {found : List Char}
    (h : ∀ c ∈ blanks, isBlank c = true) (hnone : unescapeFrom text reference found = none) :
    unescapeFrom (text ++ blanks) reference found = none := by
  induction text generalizing reference found with
  | nil =>
      cases reference with
      | none => cases hnone
      | some body => exact unescapeFrom_blanks_of_open h body found
  | cons c text ih =>
      rw [List.cons_append]
      cases reference with
      | none =>
          by_cases hc : c = '&'
          · subst hc
            have hnone' : unescapeFrom text (some []) found = none := hnone
            exact ih hnone'
          · rw [unescapeFrom_plain hc] at hnone ⊢
            exact ih hnone
      | some body =>
          by_cases h1 : c = '&'
          · subst h1
            rfl
          · by_cases h2 : c = ';'
            · subst h2
              rw [unescapeFrom_semicolon] at hnone ⊢
              cases hr : referenced? body.reverse with
              | none => rfl
              | some d =>
                  rw [hr] at hnone
                  exact ih hnone
            · rw [unescapeFrom_body h1 h2] at hnone ⊢
              exact ih hnone

/-- The blanks at the end of a text, behind those at its start. -/
def blankEnd (text : List Char) : List Char :=
  ((text.dropWhile isBlank).reverse.takeWhile isBlank).reverse

theorem isBlank_of_mem_blankEnd {text : List Char} {c : Char} (h : c ∈ blankEnd text) :
    isBlank c = true :=
  List.mem_takeWhile_imp (List.mem_reverse.mp h)

/-- A text is its inner part between blanks. -/
theorem eq_inner_between (text : List Char) :
    text = text.takeWhile isBlank ++ (inner text ++ blankEnd text) := by
  rw [inner, Text.dropEndWhile, blankEnd, ← List.reverse_append, List.takeWhile_append_dropWhile,
    List.reverse_reverse, List.takeWhile_append_dropWhile]

/-- Blanks at the ends of a text neither make nor spoil a reference. -/
theorem isSome_unescape?_inner (text : List Char) :
    (unescape? (inner text)).isSome = (unescape? text).isSome := by
  have hbefore : ∀ c ∈ text.takeWhile isBlank, isBlank c = true :=
    fun c hc => List.mem_takeWhile_imp hc
  have hafter : ∀ c ∈ blankEnd text, isBlank c = true := fun c hc => isBlank_of_mem_blankEnd hc
  have hstart : (unescape? text).isSome = (unescape? (inner text ++ blankEnd text)).isSome := by
    conv => lhs; rw [eq_inner_between text, unescape?_append (unescape?_blanks hbefore),
      Option.isSome_map]
  rw [hstart]
  -- only the blanks at the end can touch a reference, if it is left open
  cases hin : unescape? (inner text) with
  | some plain =>
      rw [unescape?_append hin, unescape?_blanks hafter]
      rfl
  | none => rw [unescape?, unescapeFrom_append_blanks hafter hin]

private theorem escapeChar_blank {c : Char} (h : isBlank c = true) : escapeChar c = [c] := by
  rcases escapeChar_cases c with hmem | ⟨-, heq⟩
  · have hall : ∀ entry ∈ escapes, isBlank entry.1 = false := by decide
    exact absurd h (by rw [hall _ hmem]; exact Bool.false_ne_true)
  · exact heq

/-- Neither end of what stands for a character that is not blank is blank. -/
private theorem escapeChar_not_blank {c : Char} (h : isBlank c = false) :
    (∃ d rest, escapeChar c = d :: rest ∧ isBlank d = false)
      ∧ ∃ d rest, (escapeChar c).reverse = d :: rest ∧ isBlank d = false := by
  have hends : ∀ s : List Char, s.head?.map isBlank = some false →
      ∃ d rest, s = d :: rest ∧ isBlank d = false := by
    intro s hs
    cases s with
    | nil => cases hs
    | cons d rest => exact ⟨d, rest, rfl, Option.some.inj hs⟩
  rcases escapeChar_cases c with hmem | ⟨-, heq⟩
  · have hall : ∀ entry ∈ escapes, entry.2.head?.map isBlank = some false
        ∧ entry.2.reverse.head?.map isBlank = some false := by decide
    exact ⟨hends _ (hall _ hmem).1, hends _ (hall _ hmem).2⟩
  · rw [heq]
    exact ⟨⟨c, [], rfl, h⟩, ⟨c, [], rfl, h⟩⟩

/-- Blanks at the ends may be dropped before or after escaping. -/
theorem inner_escape (text : List Char) : inner (escape text) = escape (inner text) := by
  have hreverse : ∀ s : List Char,
      (escape s).reverse = s.reverse.flatMap fun c => (escapeChar c).reverse := by
    intro s
    rw [escape, List.reverse_flatMap]
    rfl
  -- both ends are treated alike: the end of a text is the start of the reversed text
  rw [inner, inner, escape, Text.dropWhile_flatMap (fun c => escapeChar_blank)
    (fun c h => (escapeChar_not_blank h).1), Text.dropEndWhile, Text.dropEndWhile]
  show ((escape (text.dropWhile isBlank)).reverse.dropWhile isBlank).reverse = _
  rw [hreverse, Text.dropWhile_flatMap (fun c h => by rw [escapeChar_blank h]; rfl)
    (fun c h => (escapeChar_not_blank h).2), List.reverse_flatMap]
  show List.flatMap (List.reverse ∘ fun c => (escapeChar c).reverse) _ = List.flatMap escapeChar _
  congr 1
  funext c
  exact List.reverse_reverse _

end FailureTriage.Markup
