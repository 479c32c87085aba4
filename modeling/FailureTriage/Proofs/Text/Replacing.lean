import FailureTriage.Text.Find
import Mathlib.Data.List.Infix

/-!
# Texts with replaced fragments

The occurrences of a fragment are replaced from left to right, and what comes out of a replacement
is not looked at again.

* `replaceInduction`: a text is gone through as a replacement goes through it.
* `replace_append_cons`: a replacement cuts a text where no occurrence can lie across the cut.
* `replace_eq_self_iff`, `length_replace_lt`: when a replacement changes the text, and that it
  shortens the text then.
* `mem_of_mem_replace`: the characters of the outcome.
* `replace_singleton`: one character in the place of another.
-/

namespace FailureTriage.Text

variable {fragment replacement text : List Char}

/-- A text is empty, starts with the fragment, or has another character first. -/
@[elab_as_elim]
theorem replaceInduction (hne : fragment ≠ []) {motive : List Char → Prop} (text : List Char)
    (nil : motive []) (found : ∀ text, motive text → motive (fragment ++ text))
    (passed : ∀ c text, ¬ fragment <+: c :: text → motive text → motive (c :: text)) :
    motive text := by
  generalize hlength : text.length = length
  induction length using Nat.strong_induction_on generalizing text with
  | h length ih =>
      subst hlength
      cases text with
      | nil => exact nil
      | cons c text =>
          by_cases hstart : fragment <+: c :: text
          · obtain ⟨rest, hrest⟩ := hstart
            have hshort : rest.length < (c :: text).length := by
              rw [← hrest, List.length_append]
              exact Nat.lt_add_of_pos_left (List.length_pos_of_ne_nil hne)
            rw [← hrest]
            exact found rest (ih _ hshort rest rfl)
          · exact passed c text hstart (ih _ (Nat.lt_succ_self _) text rfl)

/-- A fragment at the start of two texts lies in the first one, or reaches into the second one. -/
theorem prefix_append_cases {tail : List Char} (h : fragment <+: text ++ tail) :
    fragment <+: text
      ∨ ∃ d rest, fragment = text ++ d :: rest ∧ d :: rest <+: tail := by
  rcases List.prefix_or_prefix_of_prefix h (List.prefix_append text tail) with hinside | ⟨rest, rfl⟩
  · exact Or.inl hinside
  · have hrest := (List.prefix_append_right_inj text).mp h
    cases rest with
    | nil => exact Or.inl (by rw [List.append_nil])
    | cons d rest => exact Or.inr ⟨d, rest, rfl, hrest⟩

/-- **A replacement cuts a text** at the first character of the fragment, if that stands nowhere
    else in the fragment. -/
theorem replace_append_cons {c : Char} {stem : List Char} (hc : c ∉ stem)
    (replacement text after : List Char) :
    replace (c :: stem) replacement (text ++ c :: after)
      = replace (c :: stem) replacement text ++ replace (c :: stem) replacement (c :: after) := by
  have hne : c :: stem ≠ [] := List.cons_ne_nil c stem
  induction text using replaceInduction hne with
  | nil => rfl
  | found text ih =>
      rw [List.append_assoc, replace_fragment_append hne, ih, replace_fragment_append hne,
        List.append_assoc]
  | passed d text hstart ih =>
      -- an occurrence across the cut would have its first character once more
      have hacross : ¬ c :: stem <+: d :: text ++ c :: after := by
        intro hprefix
        rcases prefix_append_cases hprefix with hinside | ⟨e, rest, hfragment, hrest⟩
        · exact hstart hinside
        · obtain rfl := (List.cons_prefix_cons.mp hrest).1
          rw [(List.cons.inj hfragment).2] at hc
          exact hc (List.mem_append_right text List.mem_cons_self)
      rw [List.cons_append] at hacross ⊢
      rw [replace_cons_eq_cons hacross, ih, replace_cons_eq_cons hstart,
        List.cons_append]

/-- The start of a text stays if the first character of the fragment is not in it. -/
theorem replace_append_of_not_mem {c : Char} {stem before : List Char} (hc : c ∉ before)
    (replacement text : List Char) :
    replace (c :: stem) replacement (before ++ text)
      = before ++ replace (c :: stem) replacement text := by
  induction before with
  | nil => rfl
  | cons d before ih =>
      rw [List.mem_cons, not_or] at hc
      rw [List.cons_append, replace_cons_eq_cons fun h => hc.1 (List.cons_prefix_cons.mp h).1,
        ih hc.2, List.cons_append]

/-- What a text ends with stays, if the fragment has no character in common with it. -/
theorem replace_append_of_disjoint {tail : List Char} (hne : fragment ≠ [])
    (htail : ∀ c ∈ tail, c ∉ fragment) (replacement text : List Char) :
    replace fragment replacement (text ++ tail) = replace fragment replacement text ++ tail := by
  induction text using replaceInduction hne with
  | nil =>
      obtain ⟨f, stem, rfl⟩ := List.exists_cons_of_ne_nil hne
      have hf : f ∉ tail := fun hmem => htail f hmem List.mem_cons_self
      have hkept := @replace_append_of_not_mem f stem tail hf replacement []
      rwa [List.append_nil, replace_nil, List.append_nil] at hkept
  | found text ih =>
      rw [List.append_assoc, replace_fragment_append hne, ih, replace_fragment_append hne,
        List.append_assoc]
  | passed c text hstart ih =>
      have hacross : ¬ fragment <+: c :: text ++ tail := by
        intro hprefix
        rcases prefix_append_cases hprefix with hinside | ⟨d, rest, rfl, hrest⟩
        · exact hstart hinside
        · exact htail d (hrest.subset List.mem_cons_self)
            (List.mem_append_right _ List.mem_cons_self)
      rw [List.cons_append] at hacross ⊢
      rw [replace_cons_eq_cons hacross, ih, replace_cons_eq_cons hstart,
        List.cons_append]

/-- A text with replacements has no other characters than the text and the replacement. -/
theorem mem_of_mem_replace (hne : fragment ≠ []) {c : Char}
    (h : c ∈ replace fragment replacement text) : c ∈ replacement ∨ c ∈ text := by
  induction text using replaceInduction hne with
  | nil => exact Or.inr h
  | found text ih =>
      rw [replace_fragment_append hne] at h
      rcases List.mem_append.mp h with h | h
      · exact Or.inl h
      · exact (ih h).imp_right (List.mem_append_right fragment)
  | passed d text hstart ih =>
      rw [replace_cons_eq_cons hstart] at h
      rcases List.mem_cons.mp h with rfl | h
      · exact Or.inr List.mem_cons_self
      · exact (ih h).imp_right (List.mem_cons_of_mem d)

/-! ## When a text is changed -/

/-- A replacement that is not longer makes no text longer. -/
theorem length_replace_le (hne : fragment ≠ []) (hlength : replacement.length ≤ fragment.length)
    (text : List Char) : (replace fragment replacement text).length ≤ text.length := by
  induction text using replaceInduction hne with
  | nil => exact Nat.le_refl 0
  | found text ih =>
      rw [replace_fragment_append hne, List.length_append, List.length_append]
      exact Nat.add_le_add hlength ih
  | passed c text hstart ih =>
      rw [replace_cons_eq_cons hstart]
      exact Nat.succ_le_succ ih

/-- A shorter replacement makes a text shorter in which the fragment occurs. -/
theorem length_replace_lt (hlength : replacement.length < fragment.length)
    (h : fragment <:+: text) : (replace fragment replacement text).length < text.length := by
  have hne : fragment ≠ [] := List.ne_nil_of_length_pos (Nat.zero_lt_of_lt hlength)
  induction text using replaceInduction hne with
  | nil => exact absurd (List.infix_nil.mp h) hne
  | found text ih =>
      rw [replace_fragment_append hne, List.length_append, List.length_append]
      exact Nat.add_lt_add_of_lt_of_le hlength (length_replace_le hne hlength.le text)
  | passed c text hstart ih =>
      rw [replace_cons_eq_cons hstart]
      exact Nat.succ_lt_succ (ih ((List.infix_cons_iff.mp h).resolve_left hstart))

/-- **A replacement leaves a text as it is** only where the fragment does not occur, if what is put
    there is another text that is not longer. -/
theorem replace_eq_self_iff (hne : fragment ≠ []) (hlength : replacement.length ≤ fragment.length)
    (hother : replacement ≠ fragment) :
    replace fragment replacement text = text ↔ ¬ fragment <:+: text := by
  induction text using replaceInduction hne with
  | nil => exact iff_of_true rfl fun h => hne (List.infix_nil.mp h)
  | found text ih =>
      refine iff_of_false (fun heq => hother ?_) fun h => h (List.prefix_append _ _).isInfix
      rw [replace_fragment_append hne] at heq
      have hboth := congrArg List.length heq
      have hrest := length_replace_le hne hlength text
      rw [List.length_append, List.length_append] at hboth
      exact List.append_inj_left heq (by omega)
  | passed c text hstart ih =>
      rw [replace_cons_eq_cons hstart, List.cons_inj_right, ih, List.infix_cons_iff, not_or,
        and_iff_right hstart]

/-- A character is replaced wherever it stands. -/
theorem replace_singleton (old new : Char) (text : List Char) :
    replace [old] [new] text = text.map fun c => if c = old then new else c := by
  induction text with
  | nil => rw [replace_nil, List.map_nil]
  | cons c text ih =>
      rw [List.map_cons]
      by_cases hc : c = old
      · have hfound := replace_fragment_append (List.cons_ne_nil old []) [new] text
        rw [hc, if_pos rfl, ← ih]
        exact hfound
      · have hpassed : ¬ [old] <+: c :: text := fun h => hc (List.cons_prefix_cons.mp h).1.symm
        rw [if_neg hc, replace_cons_eq_cons hpassed, ih]

end FailureTriage.Text
