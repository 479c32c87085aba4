import FailureTriage.Proofs.Text.Cutting
import Mathlib.Data.List.TakeWhile

/-!
# Trimmed texts

What is left of a text between the blanks at its ends, and which texts are left as they are.

* `trim_eq_nil_iff`: nothing is left of blanks, and of nothing else.
* `trim_padded`: blanks around a text do not count.
* `Trimmed`: a text that neither starts nor ends with a blank, and what may stand before one.
* `trim_insert_eq_iff`: blanks that are put into a text are lost exactly at its ends.
* `Framed`, `trim_whole_eq_iff`: when the blanks around the parts of a text may be left out.
-/

namespace FailureTriage.Text

variable {text before after : List Char}

theorem trimStart_padded (hbefore : ∀ c ∈ before, isBlank c = true) (text : List Char) :
    trimStart (before ++ text) = trimStart text :=
  List.dropWhile_append_of_pos hbefore

theorem trimEnd_padded (hafter : ∀ c ∈ after, isBlank c = true) (text : List Char) :
    trimEnd (text ++ after) = trimEnd text := by
  rw [trimEnd, trimEnd, dropEndWhile, dropEndWhile, List.reverse_append,
    List.dropWhile_append_of_pos fun c hc => hafter c (List.mem_reverse.mp hc)]

/-- The first character that is left at the start is no blank. -/
theorem isBlank_head_trimStart {c : Char} {rest : List Char} (h : trimStart text = c :: rest) :
    isBlank c = false := by
  have hkept := List.head?_dropWhile_not isBlank text
  rw [← trimStart, h] at hkept
  exact hkept

/-- Nothing is left of a text exactly if it is blank. -/
theorem trim_eq_nil_iff : trim text = [] ↔ ∀ c ∈ text, isBlank c = true := by
  rw [trim, trimEnd, dropEndWhile, List.reverse_eq_nil_iff, List.dropWhile_eq_nil_iff]
  simp only [List.mem_reverse]
  constructor
  · intro h
    -- a text whose end is dropped whole has nothing at its start that would have been kept
    cases hstart : trimStart text with
    | nil => exact List.dropWhile_eq_nil_iff.mp hstart
    | cons c rest =>
        have hblank := h c (by rw [hstart]; exact List.mem_cons_self)
        rw [isBlank_head_trimStart hstart] at hblank
        cases hblank
  · exact fun h c hc => h c ((List.dropWhile_suffix isBlank).subset hc)

/-- Only the end is lost of a text whose start is trimmed. -/
theorem trim_prefix (text : List Char) : trim text <+: trimStart text := by
  rw [trim, trimEnd, dropEndWhile, ← List.reverse_suffix, List.reverse_reverse]
  exact List.dropWhile_suffix isBlank

/-- The first character that is left is no blank. -/
theorem isBlank_head_trim {c : Char} {rest : List Char} (h : trim text = c :: rest) :
    isBlank c = false := by
  obtain ⟨tail, htail⟩ := trim_prefix text
  rw [h, List.cons_append] at htail
  exact isBlank_head_trimStart htail.symm

/-- Blanks around a text do not count. -/
theorem trim_padded (hbefore : ∀ c ∈ before, isBlank c = true)
    (hafter : ∀ c ∈ after, isBlank c = true) (text : List Char) :
    trim (before ++ text ++ after) = trim text := by
  rw [List.append_assoc, trim, trimStart_padded hbefore, trim]
  cases hstart : trimStart text with
  | nil =>
      have hblank := List.dropWhile_eq_nil_iff.mp hstart
      rw [trimStart_padded hblank, trimStart, List.dropWhile_eq_nil_iff.mpr hafter]
  | cons c rest =>
      have hkept : trimStart (text ++ after) = trimStart text ++ after := by
        rw [trimStart, List.dropWhile_append, ← trimStart, hstart]
        rfl
      rw [hkept, trimEnd_padded hafter, hstart]

/-! ## Texts without blanks at their ends -/

/-- Whether a text neither starts nor ends with a blank. -/
def Trimmed (text : List Char) : Prop :=
  trim text = text

instance : Decidable (Trimmed text) :=
  inferInstanceAs (Decidable (_ = _))

/-- A trimmed text has no blank at its start. -/
theorem Trimmed.isBlank_head {c : Char} (h : Trimmed (c :: text)) : isBlank c = false :=
  isBlank_head_trim h

theorem trimmed_singleton {c : Char} (h : isBlank c = false) : Trimmed [c] :=
  trim_eq_self fun _ hd => List.mem_singleton.mp hd ▸ h

/-- A trimmed text has no blank at its end. -/
theorem Trimmed.trimEnd_eq (h : Trimmed text) : trimEnd text = text := by
  -- nothing is lost in the end, so nothing is lost at the start
  have hstart : trimStart text <:+ text := List.dropWhile_suffix isBlank
  have hend := trim_prefix text
  rw [h] at hend
  have hsame := hstart.eq_of_length (Nat.le_antisymm hstart.length_le hend.length_le)
  rw [← hsame, ← trim, h, hsame]

/-- A trimmed text stays trimmed behind one that starts with no blank. -/
theorem Trimmed.append {c : Char} {start : List Char} (h : Trimmed text) (hne : text ≠ [])
    (hc : isBlank c = false) : Trimmed (c :: start ++ text) := by
  have hstart : trimStart (c :: start ++ text) = c :: start ++ text :=
    List.dropWhile_cons_of_neg (by rw [hc]; exact Bool.false_ne_true)
  have hkept : text.reverse.dropWhile isBlank = text.reverse := by
    have hend := h.trimEnd_eq
    rw [trimEnd, dropEndWhile, List.reverse_eq_iff] at hend
    exact hend
  rw [Trimmed, trim, hstart, trimEnd, dropEndWhile, List.reverse_append, List.dropWhile_append,
    hkept, if_neg (by simpa using hne), ← List.reverse_append, List.reverse_reverse]

/-! ## Blanks inside of a text -/

/-- Whether a text has a character that is no blank. -/
def HasText (text : List Char) : Prop :=
  ∃ c ∈ text, isBlank c = false

theorem not_hasText_iff : ¬ HasText text ↔ ∀ c ∈ text, isBlank c = true := by
  simp [HasText]

theorem hasText_append : HasText (before ++ after) ↔ HasText before ∨ HasText after := by
  simp [HasText, or_and_right, exists_or]

/-- A text with something in it is left as it is, up to its start. -/
theorem trimStart_append (h : HasText before) (text : List Char) :
    trimStart (before ++ text) = trimStart before ++ text := by
  obtain ⟨c, hmem, hc⟩ := h
  have hne : (before.dropWhile isBlank).isEmpty = false := by
    rw [List.isEmpty_eq_false_iff]
    intro hnil
    have hblank := List.dropWhile_eq_nil_iff.mp hnil c hmem
    rw [hc] at hblank
    cases hblank
  rw [trimStart, trimStart, List.dropWhile_append, hne]
  rfl

/-- A text with something in it is left as it is, up to its end. -/
theorem trimEnd_append (h : HasText after) (text : List Char) :
    trimEnd (text ++ after) = text ++ trimEnd after := by
  obtain ⟨c, hmem, hc⟩ := h
  have hreverse : HasText after.reverse := ⟨c, List.mem_reverse.mpr hmem, hc⟩
  have hstart := trimStart_append hreverse text.reverse
  rw [trimStart, trimStart] at hstart
  rw [trimEnd, trimEnd, dropEndWhile, dropEndWhile, List.reverse_append, hstart,
    List.reverse_append, List.reverse_reverse]

/-- Two texts with something in them are trimmed at their outer ends. -/
theorem trim_append (hbefore : HasText before) (hafter : HasText after) :
    trim (before ++ after) = trimStart before ++ trimEnd after := by
  rw [trim, trimStart_append hbefore, trimEnd_append hafter]

/-- Blanks that are put at an end of a text are lost when it is trimmed. -/
theorem trim_insert_eq {blanks : List Char} (hblanks : ∀ c ∈ blanks, isBlank c = true)
    (h : blanks ≠ [] → HasText before → ¬ HasText after) :
    trim (before ++ (blanks ++ after)) = trim (before ++ after) := by
  by_cases hnil : blanks = []
  · rw [hnil, List.nil_append]
  by_cases hbefore : HasText before
  · have hnone : ∀ c ∈ ([] : List Char), isBlank c = true := fun _ hmem => nomatch hmem
    have hend := not_hasText_iff.mp (h hnil hbefore)
    have hlong := trim_padded hnone (List.forall_mem_append.mpr ⟨hblanks, hend⟩) before
    have hshort := trim_padded hnone hend before
    rw [List.nil_append] at hlong hshort
    rw [hlong, hshort]
  · have hstart := not_hasText_iff.mp hbefore
    rw [trim, trim, trimStart_padded hstart, trimStart_padded hstart, trimStart_padded hblanks]

/-- Blanks that are put between two texts with something in them stay. -/
theorem length_trim_insert {blanks : List Char} (hne : blanks ≠ []) (hbefore : HasText before)
    (hafter : HasText after) :
    (trim (before ++ after)).length < (trim (before ++ (blanks ++ after))).length := by
  have hboth : HasText (blanks ++ after) := hasText_append.mpr (Or.inr hafter)
  have hpos := List.length_pos_iff.mpr hne
  rw [trim_append hbefore hboth, trim_append hbefore hafter, trimEnd_append hafter]
  simp only [List.length_append]
  omega

/-- Whether a text is another one, or shorter. -/
def Within (short long : List Char) : Prop :=
  long = short ∨ short.length < long.length

/-- A text that has been made shorter twice is as it was only if it has not been made shorter. -/
theorem Within.eq_iff {short middle long : List Char} (hlong : Within middle long)
    (hshort : Within short middle) : long = short ↔ long = middle ∧ middle = short := by
  refine ⟨fun heq => ?_, fun ⟨hfirst, hsecond⟩ => hfirst.trans hsecond⟩
  rcases hlong with rfl | hlong
  · exact ⟨rfl, heq⟩
  · have hle : short.length ≤ middle.length := by
      rcases hshort with rfl | hshort
      · exact Nat.le_refl _
      · exact Nat.le_of_lt hshort
    rw [heq] at hlong
    exact absurd hle (Nat.not_le.mpr hlong)

theorem Within.trans {short middle long : List Char} (hlong : Within middle long)
    (hshort : Within short middle) : Within short long := by
  rcases hlong with rfl | hlong
  · exact hshort
  rcases hshort with rfl | hshort
  · exact Or.inr hlong
  · exact Or.inr (Nat.lt_trans hshort hlong)

/-- **Blanks that are put into a text** are lost when it is trimmed, exactly if they stand at one of
    its ends. -/
theorem trim_insert_eq_iff {blanks : List Char} (hblanks : ∀ c ∈ blanks, isBlank c = true) :
    trim (before ++ (blanks ++ after)) = trim (before ++ after)
      ↔ (blanks ≠ [] → HasText before → ¬ HasText after) := by
  refine ⟨fun heq hne hbefore hafter => ?_, trim_insert_eq hblanks⟩
  exact absurd (congrArg List.length heq) (Nat.ne_of_gt (length_trim_insert hne hbefore hafter))

/-- A text with more blanks in it is not shorter when it is trimmed. -/
theorem within_trim_insert {blanks : List Char} (hblanks : ∀ c ∈ blanks, isBlank c = true)
    (before after : List Char) :
    Within (trim (before ++ after)) (trim (before ++ (blanks ++ after))) := by
  by_cases h : blanks ≠ [] → HasText before → ¬ HasText after
  · exact Or.inl (trim_insert_eq hblanks h)
  · simp only [Classical.not_imp, Classical.not_not] at h
    exact Or.inr (length_trim_insert h.1 h.2.1 h.2.2)

/-! ## Texts in parts -/

/-- A part of a text, with the blanks before and behind it. -/
structure Framed where
  lead : List Char
  core : List Char
  trail : List Char

namespace Framed

/-- The text that some parts make up. -/
def whole (parts : List Framed) : List Char :=
  parts.flatMap fun p => p.lead ++ (p.core ++ p.trail)

/-- The text without the blanks around its parts. -/
def cores (parts : List Framed) : List Char :=
  parts.flatMap (·.core)

/-- Whether a part has only blanks around it. -/
structure Blank (p : Framed) : Prop where
  lead : ∀ c ∈ p.lead, isBlank c = true
  trail : ∀ c ∈ p.trail, isBlank c = true

/-- Whether no blanks are lost around a part between two texts, except at the ends of all. -/
structure FaithfulIn (p : Framed) (before after : List Char) : Prop where
  lead : p.lead ≠ [] → HasText before → ¬ HasText (p.core ++ after)
  trail : p.trail ≠ [] → HasText (before ++ p.core) → ¬ HasText after

variable {parts : List Framed}

theorem hasText_whole (hblank : ∀ p ∈ parts, p.Blank) :
    HasText (whole parts) ↔ HasText (cores parts) := by
  induction parts with
  | nil => exact Iff.rfl
  | cons p parts ih =>
      obtain ⟨hp, hparts⟩ := List.forall_mem_cons.mp hblank
      have hlead := not_hasText_iff.mpr hp.lead
      have htrail := not_hasText_iff.mpr hp.trail
      rw [whole, cores, List.flatMap_cons, List.flatMap_cons, hasText_append, hasText_append,
        hasText_append, hasText_append, ← whole, ← cores, ih hparts, or_iff_right hlead,
        or_iff_left htrail]

/-- What holds at every place of a list, told from its first item on. -/
theorem forall_split_cons {α : Type} {holds : List α → α → List α → Prop} {first : α}
    {rest : List α} :
    (∀ before item after, first :: rest = before ++ item :: after → holds before item after)
      ↔ holds [] first rest
        ∧ ∀ before item after, rest = before ++ item :: after →
            holds (first :: before) item after := by
  constructor
  · intro h
    refine ⟨h [] first rest rfl, ?_⟩
    rintro before item after rfl
    exact h (first :: before) item after rfl
  · rintro ⟨hfirst, hrest⟩ before item after heq
    cases before with
    | nil =>
        obtain ⟨rfl, rfl⟩ := List.cons.inj heq
        exact hfirst
    | cons other before =>
        obtain ⟨rfl, rfl⟩ := List.cons.inj heq
        exact hrest before item after rfl

/-- What is lost between a text before them and the end of some parts. -/
private theorem trim_append_whole (hblank : ∀ p ∈ parts, p.Blank) (start : List Char) :
    Within (trim (start ++ cores parts)) (trim (start ++ whole parts))
      ∧ (trim (start ++ whole parts) = trim (start ++ cores parts)
        ↔ ∀ before p after, parts = before ++ p :: after →
            p.FaithfulIn (start ++ cores before) (cores after)) := by
  induction parts generalizing start with
  | nil =>
      refine ⟨Or.inl rfl, iff_of_true rfl ?_⟩
      intro before p after heq
      exact absurd heq.symm (List.append_ne_nil_of_right_ne_nil before (List.cons_ne_nil p after))
  | cons p parts ih =>
      obtain ⟨hp, hparts⟩ := List.forall_mem_cons.mp hblank
      obtain ⟨hrest, hlater⟩ := ih hparts (start ++ p.core)
      have hwhole : whole (p :: parts) = p.lead ++ (p.core ++ (p.trail ++ whole parts)) := by
        rw [whole, List.flatMap_cons, ← whole, List.append_assoc, List.append_assoc]
      have hcores : ∀ others, start ++ cores (p :: others) = start ++ p.core ++ cores others := by
        intro others
        rw [cores, List.flatMap_cons, ← cores, List.append_assoc]
      have hstart : start ++ cores [] = start := List.append_nil start
      have htext : HasText (p.core ++ (p.trail ++ whole parts))
          ↔ HasText (p.core ++ cores parts) := by
        rw [hasText_append, hasText_append, hasText_append, hasText_whole hparts,
          or_iff_right (not_hasText_iff.mpr hp.trail)]
      -- first the blanks before the part are left out, then those behind it, then all others
      have hlead := within_trim_insert hp.lead start (p.core ++ (p.trail ++ whole parts))
      have htrail := within_trim_insert hp.trail (start ++ p.core) (whole parts)
      have hleadIff := @trim_insert_eq_iff start (p.core ++ (p.trail ++ whole parts)) _ hp.lead
      have htrailIff := @trim_insert_eq_iff (start ++ p.core) (whole parts) _ hp.trail
      rw [← List.append_assoc start p.core] at hlead hleadIff
      rw [htext] at hleadIff
      rw [hasText_whole hparts] at htrailIff
      rw [hwhole, hcores, forall_split_cons, hlead.eq_iff (htrail.trans hrest),
        htrail.eq_iff hrest, hleadIff, htrailIff, hlater, hstart, ← and_assoc]
      refine ⟨hlead.trans (htrail.trans hrest), and_congr ?_ ?_⟩
      · exact ⟨fun h => ⟨h.1, h.2⟩, fun h => ⟨h.lead, h.trail⟩⟩
      · simp only [hcores]

/-- **A text in parts** is the same as without the blanks around them, up to the blanks at its ends,
    exactly if no part has blanks beside it with something on both sides of them. -/
theorem trim_whole_eq_iff (hblank : ∀ p ∈ parts, p.Blank) :
    trim (whole parts) = trim (cores parts)
      ↔ ∀ before p after, parts = before ++ p :: after →
          p.FaithfulIn (cores before) (cores after) :=
  (trim_append_whole hblank []).2

end Framed

end FailureTriage.Text
