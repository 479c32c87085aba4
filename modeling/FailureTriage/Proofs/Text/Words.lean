import FailureTriage.Proofs.Text.Cutting
import FailureTriage.Text.Word
import Mathlib.Data.List.DropRight

/-!
# Words of a text

Runs of characters of a class, and where they end in a text.

* `append_inj_of_class`: a text is cut in one way only where the characters of a class end.
* `exists_ending`: the run of characters of a class that a text ends with.
* `beforeFirst_eq_iff`, `afterLast_eq_iff`, `beforeLast?_eq_some_iff`: what stands before the first
  separator, and behind and before the last one.
* `StandsWhole`: a text occurs in another one and is not a part of a longer word there.
-/

namespace FailureTriage.Text

/-- A text is cut in one way only where the characters of a class end. -/
theorem append_inj_of_class {accept : Char → Bool} {u v x y : List Char}
    (hu : ∀ c ∈ u, accept c = true) (hv : ∀ c ∈ v, accept c = true)
    (hx : x.head?.any accept = false) (hy : y.head?.any accept = false) (h : u ++ x = v ++ y) :
    u = v ∧ x = y := by
  have htake : ∀ {u x : List Char}, (∀ c ∈ u, accept c = true) → x.head?.any accept = false →
      (u ++ x).takeWhile accept = u := by
    intro u x hu hx
    rw [List.takeWhile_append_of_pos hu]
    cases x with
    | nil => exact List.append_nil u
    | cons c x =>
        have hc : ¬ accept c = true := Bool.eq_false_iff.mp hx
        rw [List.takeWhile_cons_of_neg hc, List.append_nil]
  have huv : u = v := by rw [← htake hu hx, h, htake hv hy]
  subst huv
  exact ⟨rfl, List.append_cancel_left h⟩

/-- A text is cut in one way only where the characters of a class begin with which it ends. -/
theorem append_inj_of_class_end {accept : Char → Bool} {u v x y : List Char}
    (hx : ∀ c ∈ x, accept c = true) (hy : ∀ c ∈ y, accept c = true)
    (hu : u.getLast?.any accept = false) (hv : v.getLast?.any accept = false)
    (h : u ++ x = v ++ y) : u = v ∧ x = y := by
  have hreverse : x.reverse ++ u.reverse = y.reverse ++ v.reverse := by
    rw [← List.reverse_append, ← List.reverse_append, h]
  rw [← List.head?_reverse] at hu hv
  obtain ⟨hxy, huv⟩ := append_inj_of_class (fun c hc => hx c (List.mem_reverse.mp hc))
    (fun c hc => hy c (List.mem_reverse.mp hc)) hu hv hreverse
  exact ⟨List.reverse_inj.mp huv, List.reverse_inj.mp hxy⟩

/-- Behind the characters of a class that a text begins with stands none of them. -/
theorem any_head?_dropWhile (accept : Char → Bool) (text : List Char) :
    (text.dropWhile accept).head?.any accept = false := by
  have hend := List.head?_dropWhile_not accept text
  cases hhead : (text.dropWhile accept).head? with
  | none => rfl
  | some c =>
      rw [hhead] at hend
      exact hend

/-- The letters and digits of ASCII. -/
theorem toNat_lt_of_isAlphanum {c : Char} (h : c.isAlphanum = true) : c.toNat < 0x80 := by
  rcases Bool.or_eq_true_iff.mp h with hletter | hdigit
  · rcases Bool.or_eq_true_iff.mp hletter with hupper | hlower
    · have hrange : 65 ≤ c.toNat ∧ c.toNat ≤ 90 := of_decide_eq_true hupper
      omega
    · have hrange : 97 ≤ c.toNat ∧ c.toNat ≤ 122 :=
        (Bool.and_eq_true_iff.mp hlower).imp of_decide_eq_true of_decide_eq_true
      omega
  · have hrange : 48 ≤ c.toNat ∧ c.toNat ≤ 57 :=
      (Bool.and_eq_true_iff.mp hdigit).imp of_decide_eq_true of_decide_eq_true
    omega

/-- The letters and digits of ASCII are parts of words. -/
theorem isWord_of_isAlphanum {c : Char} (h : c.isAlphanum = true) : isWord c = true := by
  rw [isWord, if_pos (toNat_lt_of_isAlphanum h), h, Bool.true_or]

/-- No part of a word is a blank. -/
theorem isBlank_of_isWord {c : Char} (h : isWord c = true) : isBlank c = false := by
  refine Bool.eq_false_iff.mpr fun hblank => ?_
  have hnone : ∀ n ∈ blankCodes, isWord (Char.ofNat n) = false := by decide +kernel
  have hc := hnone _ (toNat_mem_blankCodes hblank)
  rw [Char.ofNat_toNat, h] at hc
  cases hc

/-- No blank is part of a word. -/
theorem isWord_of_isBlank {c : Char} (h : isBlank c = true) : isWord c = false :=
  Bool.eq_false_iff.mpr fun hword => by
    rw [isBlank_of_isWord hword] at h
    cases h

/-- Every text ends with a run of characters of a class, before which stands none of them. -/
theorem exists_ending (accept : Char → Bool) (text : List Char) :
    ∃ stem ending, text = stem ++ ending ∧ (∀ c ∈ ending, accept c = true)
      ∧ stem.getLast?.any accept = false := by
  refine ⟨text.rdropWhile accept, text.rtakeWhile accept, ?_, ?_, ?_⟩
  · exact List.rdropWhile_append_rtakeWhile.symm
  · exact fun c hc => List.mem_rtakeWhile_imp hc
  · by_cases hnone : text.rdropWhile accept = []
    · rw [hnone]
      rfl
    · rw [List.getLast?_eq_getLast_of_ne_nil hnone]
      exact Bool.eq_false_iff.mpr (List.rdropWhile_last_not accept text hnone)

/-- Where a text goes on, all of it before has been passed. -/
theorem length_take_of_drop {text : List Char} {position : Nat} (h : text.drop position ≠ []) :
    (text.take position).length = position := by
  have hpos := List.length_pos_iff.mpr h
  rw [List.length_drop] at hpos
  exact List.length_take_of_le (by omega)

/-! ## The first and the last separator -/

section

variable {separator : Char} {text before after : List Char}

/-- Whether a text is empty or begins with a separator. -/
theorem head?_any_bne : text.head?.any (· != separator) = false
    ↔ text = [] ∨ text.head? = some separator := by
  cases text with
  | nil => simp
  | cons c text => simp

theorem getLast?_any_bne : text.getLast?.any (· != separator) = false
    ↔ text = [] ∨ text.getLast? = some separator := by
  rw [← List.head?_reverse, head?_any_bne, List.reverse_eq_nil_iff]

theorem forall_bne : (∀ c ∈ text, (c != separator) = true) ↔ separator ∉ text := by
  simp only [bne_iff_ne]
  exact ⟨fun h hmem => h _ hmem rfl, fun h c hc heq => h (heq ▸ hc)⟩

/-- What a text ends in from a separator on stands behind the parts without separators. -/
theorem suffix_of_append_cons {part rest later : List Char} (hpart : separator ∉ part)
    (h : part ++ rest = before ++ separator :: later) : separator :: later <:+ rest := by
  rcases List.append_eq_append_iff.mp h with ⟨skipped, -, hrest⟩ | ⟨more, hmore, hrest⟩
  · exact ⟨skipped, hrest.symm⟩
  · cases more with
    | nil => exact ⟨[], hrest⟩
    | cons c more =>
        obtain ⟨rfl, -⟩ := List.cons.inj hrest
        exact absurd (hmore ▸ List.mem_append_right before List.mem_cons_self) hpart

/-- **What stands before the first separator** is the longest beginning without one. -/
theorem beforeFirst_eq_iff : beforeFirst separator text = before
    ↔ separator ∉ before ∧ ∃ after, text = before ++ after
      ∧ (after = [] ∨ after.head? = some separator) := by
  have hplain : separator ∉ beforeFirst separator text :=
    forall_bne.mp fun c hc => @List.mem_takeWhile_imp _ (· != separator) text c hc
  have hcut : text = beforeFirst separator text ++ text.dropWhile (· != separator) :=
    List.takeWhile_append_dropWhile.symm
  have hend := any_head?_dropWhile (· != separator) text
  constructor
  · rintro rfl
    exact ⟨hplain, _, hcut, head?_any_bne.mp hend⟩
  · rintro ⟨hbefore, after, htext, hafter⟩
    exact (append_inj_of_class (forall_bne.mpr hplain) (forall_bne.mpr hbefore) hend
      (head?_any_bne.mpr hafter) (hcut.symm.trans htext)).1

/-- **What stands behind the last separator** is the longest ending without one. -/
theorem afterLast_eq_iff : afterLast separator text = after
    ↔ separator ∉ after ∧ ∃ before, text = before ++ after
      ∧ (before = [] ∨ before.getLast? = some separator) := by
  rw [afterLast, List.reverse_eq_iff]
  refine beforeFirst_eq_iff.trans ?_
  rw [List.mem_reverse]
  refine and_congr_right fun _ => ?_
  constructor
  · rintro ⟨rest, htext, hrest⟩
    refine ⟨rest.reverse, ?_, ?_⟩
    · rw [List.reverse_eq_iff.mp htext, List.reverse_append, List.reverse_reverse]
    · rwa [List.reverse_eq_nil_iff, List.getLast?_reverse]
  · rintro ⟨before, rfl, hbefore⟩
    refine ⟨before.reverse, List.reverse_append, ?_⟩
    rwa [List.reverse_eq_nil_iff, List.head?_reverse]

/-- **What stands before the last separator** has no separator but that one behind it. -/
theorem beforeLast?_eq_some_iff : beforeLast? separator text = some before
    ↔ ∃ after, text = before ++ separator :: after ∧ separator ∉ after := by
  constructor
  · intro h
    exact ⟨_, eq_of_beforeLast? h, (afterLast_eq_iff.mp rfl).1⟩
  · rintro ⟨after, rfl, hafter⟩
    exact beforeLast?_append_cons hafter before

theorem beforeLast?_eq_none_iff : beforeLast? separator text = none ↔ separator ∉ text := by
  rw [Option.eq_none_iff_forall_ne_some]
  constructor
  · intro h hmem
    -- the last separator is the first one of the reversed text
    obtain ⟨after, before, hreverse, hafter⟩ :=
      List.eq_append_cons_of_mem (List.mem_reverse.mpr hmem)
    refine h before.reverse (beforeLast?_eq_some_iff.mpr ⟨after.reverse, ?_, ?_⟩)
    · rw [List.reverse_eq_iff.mp hreverse, List.reverse_append, List.reverse_cons,
        List.append_assoc, List.singleton_append]
    · exact fun hlater => hafter (List.mem_reverse.mp hlater)
  · intro hplain before h
    obtain ⟨after, rfl, -⟩ := beforeLast?_eq_some_iff.mp h
    exact hplain (List.mem_append_right before List.mem_cons_self)

end

/-! ## Whole words -/

/-- Whether a text occurs in another one with no part of a word beside it. -/
def StandsWhole (word text : List Char) : Prop :=
  ∃ before after, text = before ++ (word ++ after)
    ∧ before.getLast?.any isWord = false ∧ after.head?.any isWord = false

variable {word text : List Char}

/-- The places where a text may stand whole can be tried out. -/
theorem standsWhole_iff :
    StandsWhole word text
      ↔ ∃ position ∈ List.range (text.length + 1), word <+: text.drop position
        ∧ (text.take position).getLast?.any isWord = false
        ∧ (text.drop (position + word.length)).head?.any isWord = false := by
  constructor
  · rintro ⟨before, after, rfl, hbefore, hafter⟩
    refine ⟨before.length, List.mem_range.mpr ?_, ?_, ?_, ?_⟩
    · rw [List.length_append]
      omega
    · rw [List.drop_left]
      exact List.prefix_append word after
    · rwa [List.take_left]
    · rwa [← List.drop_drop, List.drop_left, List.drop_left]
  · rintro ⟨position, -, ⟨after, hafter⟩, hbefore, hend⟩
    refine ⟨text.take position, after, ?_, hbefore, ?_⟩
    · rw [hafter, List.take_append_drop]
    · rwa [← List.drop_drop, ← hafter, List.drop_left] at hend

instance : Decidable (StandsWhole word text) :=
  decidable_of_iff _ standsWhole_iff.symm

/-- What stands whole does so in a longer text, if no part of a word is added beside it. -/
theorem StandsWhole.append (h : StandsWhole word text) {left right : List Char}
    (hleft : left.getLast?.any isWord = false) (hright : right.head?.any isWord = false) :
    StandsWhole word (left ++ (text ++ right)) := by
  obtain ⟨before, after, rfl, hbefore, hafter⟩ := h
  refine ⟨left ++ before, after ++ right, ?_, ?_, ?_⟩
  · simp only [List.append_assoc]
  · rw [List.getLast?_append]
    cases hlast : before.getLast? with
    | none => exact hleft
    | some c =>
        rw [hlast] at hbefore
        exact hbefore
  · rw [List.head?_append]
    cases hhead : after.head? with
    | none => exact hright
    | some c =>
        rw [hhead] at hafter
        exact hafter

end FailureTriage.Text
