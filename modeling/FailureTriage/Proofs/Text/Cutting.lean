import FailureTriage.Text.Blank
import FailureTriage.Text.Find
import Mathlib.Data.List.Basic

/-!
# Cutting a text

Where a text is cut at the first occurrence of a fragment, and what is left of it between the
blanks at its ends.

* `splitAtFirst?_append`: a text that ends at the first occurrence of a fragment is found whole.
* `splitAtFirst?_eq_none`: a text without the fragment is not cut.
* `FirstAt`, `firstAt_of_splitAtFirst?`: where a text is cut.
* `splitOn_append`, `splitOn_append_of_not_mem`: the parts between the separators of two texts.
* `splitOn_intercalate`: parts that are put together are found again.
* `suffix_of_getLast?_splitOn`: the last part is the whole text, or follows a separator.
* `dropWhile_flatMap`: dropping from the start commutes with a rewriting of single characters.
-/

namespace FailureTriage.Text

/-- A text starts with a fragment exactly if it is that fragment and what is left after it. -/
theorem dropFragment?_eq_some {fragment text rest : List Char} :
    dropFragment? fragment text = some rest ↔ text = fragment ++ rest := by
  induction fragment generalizing text with
  | nil =>
      rw [show dropFragment? [] text = some text from by cases text <;> rfl]
      exact Option.some_inj
  | cons f fragment ih =>
      cases text with
      | nil => simp [dropFragment?]
      | cons c text =>
          rw [dropFragment?]
          by_cases h : f = c
          · rw [if_pos h, ih, h]
            simp
          · rw [if_neg h]
            simp [Ne.symm h]

/-- A text does not start with a fragment exactly if that is no prefix of it. -/
theorem dropFragment?_eq_none {fragment text : List Char} :
    dropFragment? fragment text = none ↔ ¬ fragment <+: text := by
  rw [Option.eq_none_iff_forall_ne_some]
  constructor
  · rintro h ⟨tail, htail⟩
    exact h tail (dropFragment?_eq_some.mpr htail.symm)
  · intro h tail htail
    exact h ⟨tail, (dropFragment?_eq_some.mp htail).symm⟩

/-- A text ends with a fragment exactly if it is what is left before it and that fragment. -/
theorem dropFragmentEnd?_eq_some {fragment text rest : List Char} :
    dropFragmentEnd? fragment text = some rest ↔ text = rest ++ fragment := by
  rw [dropFragmentEnd?, Option.map_eq_some_iff]
  constructor
  · rintro ⟨reversed, hdrop, rfl⟩
    rw [dropFragment?_eq_some, List.reverse_eq_iff] at hdrop
    rw [hdrop, List.reverse_append, List.reverse_reverse]
  · rintro rfl
    refine ⟨rest.reverse, ?_, List.reverse_reverse rest⟩
    rw [dropFragment?_eq_some, List.reverse_append]

/-- A text does not end with a fragment exactly if that is no suffix of it. -/
theorem dropFragmentEnd?_eq_none {fragment text : List Char} :
    dropFragmentEnd? fragment text = none ↔ ¬ fragment <:+ text := by
  rw [dropFragmentEnd?, Option.map_eq_none_iff, dropFragment?_eq_none,
    List.reverse_prefix]

/-- A text holds a fragment exactly if the fragment is a part of it. -/
theorem contains_iff_infix {fragment text : List Char} :
    contains fragment text = true ↔ fragment <:+: text := by
  induction text with
  | nil => rw [contains, List.isEmpty_iff, List.infix_nil]
  | cons c text ih =>
      rw [contains, Bool.or_eq_true, List.isPrefixOf_iff_prefix, ih, List.infix_cons_iff]

/-- A fragment without a separator lies before it or behind it. -/
theorem infix_append_cons {fragment u v : List Char} {c : Char} (hc : c ∉ fragment)
    (h : fragment <:+: u ++ c :: v) : fragment <:+: u ∨ fragment <:+: v := by
  have hstart : ∀ start, c ∉ start → start <+: c :: v → start = [] := by
    intro start hnot hprefix
    cases start with
    | nil => rfl
    | cons d start =>
        rw [(List.cons_prefix_cons.mp hprefix).1] at hnot
        exact absurd List.mem_cons_self hnot
  rcases List.infix_append_iff.mp h with hu | hv | ⟨first, second, rfl, hfirst, hsecond⟩
  · exact Or.inl hu
  · rcases List.infix_cons_iff.mp hv with hprefix | hv
    · rw [hstart fragment hc hprefix]
      exact Or.inr List.nil_infix
    · exact Or.inr hv
  · rw [hstart second (fun hmem => hc (List.mem_append_right first hmem)) hsecond,
      List.append_nil]
    exact Or.inl hfirst.isInfix

/-- A fragment whose last character occurs in it only once cannot overlap with itself. -/
theorem prefix_of_overlap {stem : List Char} {c : Char} (hc : c ∉ stem)
    {before rest tail : List Char}
    (hne : before ≠ []) (h : before ++ (stem ++ [c]) ++ rest = (stem ++ [c]) ++ tail) :
    stem ++ [c] <+: before := by
  rw [List.append_assoc] at h
  rcases List.append_eq_append_iff.mp h with ⟨x, hx, hr⟩ | ⟨x, hx, -⟩
  · rcases List.eq_nil_or_concat x with rfl | ⟨y, d, rfl⟩
    · rw [List.append_nil] at hx
      exact hx ▸ List.prefix_refl _
    · -- the fragment sticks out of `before`, so its last character also stands inside its stem
      obtain ⟨hstem, hd⟩ : stem = before ++ y ∧ c = d := by
        have h' : stem ++ [c] = (before ++ y) ++ [d] := by rw [hx, List.append_assoc]; simp
        have := List.append_inj' h' rfl
        exact ⟨this.1, List.head_eq_of_cons_eq this.2⟩
      subst hd
      have hlen : y.length < stem.length := by
        have : 0 < before.length := List.length_pos_of_ne_nil hne
        rw [hstem, List.length_append]
        omega
      have hleft : y ++ [c] <+: (stem ++ [c]) ++ rest := ⟨tail, by rw [hr]; simp⟩
      have hright : stem <+: (stem ++ [c]) ++ rest := ⟨[c] ++ rest, by simp⟩
      have hpre : y ++ [c] <+: stem := by
        refine List.prefix_of_prefix_length_le hleft hright ?_
        rw [List.length_append, List.length_singleton]
        omega
      exact absurd (hpre.subset (by simp)) hc
  · exact ⟨x, hx.symm⟩

/-- The text before the first occurrence of a fragment, and the text after it. -/
theorem splitAtFirstFrom?_append {stem : List Char} {c : Char} (hc : c ∉ stem)
    {before : List Char} (h : ¬ stem ++ [c] <:+: before) (rest passed : List Char) :
    splitAtFirstFrom? (stem ++ [c]) (before ++ (stem ++ [c]) ++ rest) passed
      = some (passed.reverse ++ before, rest) := by
  induction before generalizing passed with
  | nil =>
      rw [List.nil_append, List.append_nil]
      unfold splitAtFirstFrom?
      rw [dropFragment?_eq_some.mpr rfl]
  | cons a before ih =>
      have hnone : dropFragment? (stem ++ [c]) (a :: before ++ (stem ++ [c]) ++ rest) = none := by
        refine Option.eq_none_iff_forall_ne_some.mpr ?_
        intro tail htail
        have hpre := prefix_of_overlap hc (List.cons_ne_nil a before)
          (dropFragment?_eq_some.mp htail)
        exact h hpre.isInfix
      have hrest : ¬ stem ++ [c] <:+: before :=
        fun hin => h (hin.trans (List.suffix_cons a before).isInfix)
      rw [splitAtFirstFrom?.eq_def, hnone]
      show splitAtFirstFrom? (stem ++ [c]) (before ++ (stem ++ [c]) ++ rest) (a :: passed) = _
      rw [ih hrest (a :: passed), List.reverse_cons, List.append_assoc]
      rfl

/-- A text without the fragment is what stands before the first occurrence of that fragment. -/
theorem splitAtFirst?_append (stem : List Char) (c : Char) (hc : c ∉ stem)
    {before : List Char} (h : ¬ stem ++ [c] <:+: before) (rest : List Char) :
    splitAtFirst? (stem ++ [c]) (before ++ (stem ++ [c]) ++ rest) = some (before, rest) :=
  splitAtFirstFrom?_append hc h rest []

/-- A text cannot be cut exactly if the fragment is no part of it. -/
theorem splitAtFirst?_eq_none {fragment text : List Char} :
    splitAtFirst? fragment text = none ↔ ¬ fragment <:+: text := by
  have hfrom : ∀ passed, splitAtFirstFrom? fragment text passed = none ↔ ¬ fragment <:+: text := by
    induction text with
    | nil =>
        intro passed
        rw [splitAtFirstFrom?, List.infix_nil]
        cases fragment with
        | nil => exact iff_of_false nofun (fun h => h rfl)
        | cons f fragment => exact iff_of_true rfl (List.cons_ne_nil f fragment)
    | cons c text ih =>
        intro passed
        rw [List.infix_cons_iff, not_or, ← dropFragment?_eq_none, splitAtFirstFrom?]
        cases dropFragment? fragment (c :: text) with
        | some rest => exact iff_of_false nofun (fun h => nomatch h.1)
        | none => exact (ih (c :: passed)).trans (and_iff_right rfl).symm
  exact hfrom []

/-- Whether a fragment starts after so many characters of a text. -/
def StartsAt (fragment text : List Char) (position : Nat) : Prop :=
  fragment <+: text.drop position

instance (fragment text : List Char) (position : Nat) :
    Decidable (StartsAt fragment text position) :=
  inferInstanceAs (Decidable (_ <+: _))

/-- Whether a fragment starts after so many characters of a text, and nowhere before. -/
def FirstAt (fragment text : List Char) (position : Nat) : Prop :=
  StartsAt fragment text position ∧ ∀ earlier < position, ¬ StartsAt fragment text earlier

instance (fragment text : List Char) (position : Nat) :
    Decidable (FirstAt fragment text position) :=
  inferInstanceAs (Decidable (_ ∧ _))

/-- A fragment that starts somewhere is a part of the text. -/
theorem StartsAt.occurs {fragment text : List Char} {position : Nat}
    (h : StartsAt fragment text position) : fragment <:+: text :=
  h.isInfix.trans (List.drop_suffix position text).isInfix

/-- A fragment starts first in one place only. -/
theorem FirstAt.unique {fragment text : List Char} {position other : Nat}
    (h : FirstAt fragment text position) (hother : FirstAt fragment text other) :
    position = other := by
  rcases Nat.lt_trichotomy position other with hlt | heq | hlt
  · exact absurd h.1 (hother.2 position hlt)
  · exact heq
  · exact absurd hother.1 (h.2 other hlt)

/-- **A text is cut** where the fragment starts first. -/
theorem firstAt_of_splitAtFirst? {fragment text before rest : List Char}
    (h : splitAtFirst? fragment text = some (before, rest)) :
    FirstAt fragment text before.length
      ∧ rest = text.drop (before.length + fragment.length) := by
  have hhere : ∀ text, dropFragment? fragment text = some rest →
      FirstAt fragment text 0 ∧ rest = text.drop (0 + fragment.length) := by
    intro text hdrop
    obtain rfl := dropFragment?_eq_some.mp hdrop
    refine ⟨⟨⟨rest, rfl⟩, nofun⟩, ?_⟩
    rw [Nat.zero_add, List.drop_left]
  have hfrom : ∀ passed, splitAtFirstFrom? fragment text passed = some (before, rest) →
      ∃ stem, before = passed.reverse ++ stem ∧ FirstAt fragment text stem.length
        ∧ rest = text.drop (stem.length + fragment.length) := by
    clear h
    induction text with
    | nil =>
        intro passed h
        rw [splitAtFirstFrom?] at h
        split at h
        · rename_i tail hdrop
          obtain ⟨rfl, rfl⟩ := Prod.mk.inj (Option.some.inj h)
          exact ⟨[], (List.append_nil _).symm, hhere _ hdrop⟩
        · cases h
    | cons c text ih =>
        intro passed h
        rw [splitAtFirstFrom?] at h
        split at h
        · rename_i tail hdrop
          obtain ⟨rfl, rfl⟩ := Prod.mk.inj (Option.some.inj h)
          exact ⟨[], (List.append_nil _).symm, hhere _ hdrop⟩
        · rename_i hnone
          obtain ⟨stem, hbefore, ⟨hstart, hfirst⟩, hrest⟩ := ih (c :: passed) h
          refine ⟨c :: stem, ?_, ⟨hstart, ?_⟩, ?_⟩
          · rw [hbefore, List.reverse_cons, List.append_assoc, List.singleton_append]
          · intro earlier hlt
            cases earlier with
            | zero => exact dropFragment?_eq_none.mp hnone
            | succ earlier => exact hfirst earlier (Nat.lt_of_succ_lt_succ hlt)
          · rw [hrest, List.length_cons, Nat.add_right_comm, List.drop_succ_cons]
  obtain ⟨stem, rfl, hstem⟩ := hfrom [] h
  exact hstem

/-- A cut leaves less than the whole text, by the fragment at least. -/
theorem length_of_splitAtFirstFrom? {fragment text passed before rest : List Char}
    (h : splitAtFirstFrom? fragment text passed = some (before, rest)) :
    rest.length + fragment.length ≤ text.length := by
  induction text generalizing passed with
  | nil =>
      rw [splitAtFirstFrom?] at h
      cases hd : dropFragment? fragment [] with
      | none => rw [hd] at h; cases h
      | some tail =>
          rw [hd] at h
          obtain ⟨-, rfl⟩ := Prod.mk.inj (Option.some.inj h)
          have hlen := congrArg List.length (dropFragment?_eq_some.mp hd)
          rw [List.length_append] at hlen
          omega
  | cons c text ih =>
      rw [splitAtFirstFrom?] at h
      cases hd : dropFragment? fragment (c :: text) with
      | none =>
          rw [hd] at h
          have := ih h
          rw [List.length_cons]
          omega
      | some tail =>
          rw [hd] at h
          obtain ⟨-, rfl⟩ := Prod.mk.inj (Option.some.inj h)
          have hlen := congrArg List.length (dropFragment?_eq_some.mp hd)
          rw [List.length_append] at hlen
          omega

/-! ## Blanks -/

/-- The numbers of all blanks: there are so few that each can be looked at. -/
def blankCodes : List Nat :=
  [0x20, 0x09, 0x0A, 0x0B, 0x0C, 0x0D, 0x85, 0xA0, 0x1680, 0x2000, 0x2001, 0x2002, 0x2003, 0x2004,
    0x2005, 0x2006, 0x2007, 0x2008, 0x2009, 0x200A, 0x2028, 0x2029, 0x202F, 0x205F, 0x3000]

theorem toNat_mem_blankCodes {c : Char} (h : isBlank c = true) : c.toNat ∈ blankCodes := by
  simp only [isBlank, Bool.or_eq_true, Bool.and_eq_true, beq_iff_eq, decide_eq_true_eq] at h
  simp only [blankCodes, List.mem_cons, List.not_mem_nil, or_false]
  omega

/-! ## The ends of a text -/

/-- Dropping from the start commutes with rewriting each character, if the characters that are
    dropped stay as they are and no other is rewritten to a text that starts with one. -/
theorem dropWhile_flatMap {p : Char → Bool} {f : Char → List Char}
    (hpos : ∀ c, p c = true → f c = [c])
    (hneg : ∀ c, p c = false → ∃ d rest, f c = d :: rest ∧ p d = false) (text : List Char) :
    (text.flatMap f).dropWhile p = (text.dropWhile p).flatMap f := by
  induction text with
  | nil => rfl
  | cons c text ih =>
      rw [List.flatMap_cons]
      cases hc : p c with
      | true =>
          rw [hpos c hc, List.singleton_append, List.dropWhile_cons_of_pos hc,
            List.dropWhile_cons_of_pos hc, ih]
      | false =>
          obtain ⟨d, rest, hf, hd⟩ := hneg c hc
          have hnot : ¬ p c = true := by rw [hc]; exact Bool.false_ne_true
          have hnot' : ¬ p d = true := by rw [hd]; exact Bool.false_ne_true
          rw [List.dropWhile_cons_of_neg hnot, List.flatMap_cons, hf, List.cons_append,
            List.dropWhile_cons_of_neg hnot']

/-- Nothing is dropped from the start if no character is to be dropped. -/
theorem dropWhile_eq_self {p : Char → Bool} {text : List Char} (h : ∀ c ∈ text, p c = false) :
    text.dropWhile p = text := by
  cases text with
  | nil => rfl
  | cons c text =>
      have hc : ¬ p c = true := by rw [h c List.mem_cons_self]; exact Bool.false_ne_true
      exact List.dropWhile_cons_of_neg hc

/-- Nothing is dropped from the end if no character is to be dropped. -/
theorem dropEndWhile_eq_self {p : Char → Bool} {text : List Char} (h : ∀ c ∈ text, p c = false) :
    dropEndWhile p text = text := by
  rw [dropEndWhile, dropWhile_eq_self (fun c hc => h c (List.mem_reverse.mp hc)),
    List.reverse_reverse]

/-- A text without blanks is not trimmed. -/
theorem trim_eq_self {text : List Char} (h : ∀ c ∈ text, isBlank c = false) : trim text = text := by
  rw [trim, trimEnd, trimStart, dropWhile_eq_self h, dropEndWhile_eq_self h]

/-! ## Parts between separators -/

section

variable {separator : Char}

theorem splitOn_cons_separator (text : List Char) :
    splitOn separator (separator :: text) = [] :: splitOn separator text :=
  if_pos rfl

/-- There is at least one part. -/
theorem exists_splitOn (separator : Char) (text : List Char) :
    ∃ first rest, splitOn separator text = first :: rest := by
  cases text with
  | nil => exact ⟨[], [], rfl⟩
  | cons c text =>
      rw [splitOn]
      split
      · exact ⟨_, _, rfl⟩
      · split
        · exact ⟨_, _, rfl⟩
        · exact ⟨_, _, rfl⟩

/-- A character other than the separator belongs to the first part. -/
theorem splitOn_cons {c : Char} (hc : c ≠ separator) {text first : List Char}
    {rest : List (List Char)} (h : splitOn separator text = first :: rest) :
    splitOn separator (c :: text) = (c :: first) :: rest := by
  rw [splitOn, if_neg hc, h]

/-- A separator between two texts separates their parts. -/
theorem splitOn_append (before after : List Char) :
    splitOn separator (before ++ separator :: after)
      = splitOn separator before ++ splitOn separator after := by
  induction before with
  | nil => exact splitOn_cons_separator after
  | cons c before ih =>
      rw [List.cons_append]
      by_cases hc : c = separator
      · subst hc
        rw [splitOn_cons_separator, splitOn_cons_separator, ih]
        rfl
      · obtain ⟨first, rest, hparts⟩ := exists_splitOn separator before
        rw [hparts] at ih
        rw [splitOn_cons hc ih, splitOn_cons hc hparts]
        rfl

/-- A text without a separator is one part. -/
theorem splitOn_of_not_mem {text : List Char} (h : separator ∉ text) :
    splitOn separator text = [text] := by
  induction text with
  | nil => rfl
  | cons c text ih =>
      have hc : c ≠ separator := fun heq => h (heq ▸ List.mem_cons_self)
      exact splitOn_cons hc (ih fun hmem => h (List.mem_cons_of_mem _ hmem))

/-- A text without a separator belongs to the last part. -/
theorem splitOn_append_of_not_mem {text : List Char} (h : separator ∉ text) (before : List Char) :
    ∃ parts last, splitOn separator before = parts ++ [last]
      ∧ splitOn separator (before ++ text) = parts ++ [last ++ text] := by
  induction before with
  | nil => exact ⟨[], [], rfl, splitOn_of_not_mem h⟩
  | cons c before ih =>
      obtain ⟨parts, last, hbefore, hboth⟩ := ih
      rw [List.cons_append]
      by_cases hc : c = separator
      · subst hc
        rw [splitOn_cons_separator, splitOn_cons_separator, hbefore, hboth]
        exact ⟨[] :: parts, last, rfl, rfl⟩
      · cases parts with
        | nil => exact ⟨[], c :: last, splitOn_cons hc hbefore, splitOn_cons hc hboth⟩
        | cons first parts =>
            exact ⟨(c :: first) :: parts, last, splitOn_cons hc hbefore, splitOn_cons hc hboth⟩

/-- The parts have no other characters than the text. -/
theorem mem_of_mem_splitOn {text part : List Char} (hpart : part ∈ splitOn separator text)
    {c : Char} (hc : c ∈ part) : c ∈ text := by
  induction text generalizing part with
  | nil =>
      rw [List.mem_singleton.mp hpart] at hc
      cases hc
  | cons d text ih =>
      by_cases hd : d = separator
      · rw [hd, splitOn_cons_separator] at hpart
        rcases List.mem_cons.mp hpart with rfl | hpart
        · cases hc
        · exact List.mem_cons_of_mem _ (ih hpart hc)
      · obtain ⟨first, rest, hparts⟩ := exists_splitOn separator text
        rw [splitOn_cons hd hparts] at hpart
        rw [hparts] at ih
        rcases List.mem_cons.mp hpart with rfl | hpart
        · rcases List.mem_cons.mp hc with rfl | hc
          · exact List.mem_cons_self
          · exact List.mem_cons_of_mem _ (ih List.mem_cons_self hc)
        · exact List.mem_cons_of_mem _ (ih (List.mem_cons_of_mem _ hpart) hc)

/-- No part has a separator in it. -/
theorem not_mem_of_mem_splitOn {text part : List Char} (h : part ∈ splitOn separator text) :
    separator ∉ part := by
  induction text generalizing part with
  | nil =>
      rw [List.mem_singleton.mp h]
      exact List.not_mem_nil
  | cons c text ih =>
      by_cases hc : c = separator
      · rw [hc, splitOn_cons_separator] at h
        rcases List.mem_cons.mp h with rfl | h
        · exact List.not_mem_nil
        · exact ih h
      · obtain ⟨first, rest, hparts⟩ := exists_splitOn separator text
        rw [splitOn_cons hc hparts] at h
        rw [hparts] at ih
        rcases List.mem_cons.mp h with rfl | h
        · rw [List.mem_cons, not_or]
          exact ⟨fun heq => hc heq.symm, ih List.mem_cons_self⟩
        · exact ih (List.mem_cons_of_mem _ h)

/-- The last part is the whole text, or what follows the last separator. -/
theorem suffix_of_getLast?_splitOn {text last : List Char}
    (h : (splitOn separator text).getLast? = some last) :
    last = text ∨ (separator :: last) <:+ text := by
  by_cases hmem : separator ∈ text
  · obtain ⟨after, before, hreverse, hafter⟩ :=
      List.eq_append_cons_of_mem (List.mem_reverse.mpr hmem)
    have htext : text = before.reverse ++ separator :: after.reverse := by
      rw [← List.reverse_reverse text, hreverse, List.reverse_append, List.reverse_cons,
        List.append_assoc, List.singleton_append]
    have hlast : separator ∉ after.reverse := fun h => hafter (List.mem_reverse.mp h)
    rw [htext, splitOn_append, splitOn_of_not_mem hlast, List.getLast?_concat] at h
    rw [htext, ← Option.some.inj h]
    exact Or.inr (List.suffix_append _ _)
  · rw [splitOn_of_not_mem hmem] at h
    exact Or.inl (Option.some.inj h).symm

/-- Parts that are put together with separators are the parts of the text. -/
theorem splitOn_intercalate {parts : List (List Char)} (hne : parts ≠ [])
    (h : ∀ part ∈ parts, separator ∉ part) :
    splitOn separator ([separator].intercalate parts) = parts := by
  induction parts with
  | nil => exact absurd rfl hne
  | cons first rest ih =>
      obtain ⟨hfirst, hrest⟩ := List.forall_mem_cons.mp h
      cases rest with
      | nil =>
          rw [List.intercalate_singleton]
          exact splitOn_of_not_mem hfirst
      | cons second rest =>
          rw [List.intercalate_cons_cons, List.append_assoc, List.singleton_append, splitOn_append,
            ih (List.cons_ne_nil _ _) hrest, splitOn_of_not_mem hfirst]
          rfl

end

end FailureTriage.Text
