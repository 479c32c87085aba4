import FailureTriage.Proofs.Markup.Elements

/-!
# Where a document is cut

A document that is cut short ends inside a piece of markup, inside a reference of its text, inside
elements, or between all of these.

* `InMarkup`, `InReference`, `InElement` tell where the cut lies, and `closedBefore` how many
  elements it leaves whole.
* `offset_succ_le_iff`: a cut in a run of text lies behind a piece of markup exactly if that piece
  comes before the run.
* `inElement_iff_open`: it lies in an element exactly if a tag is open before the run.
-/

namespace FailureTriage.Markup

/-- The cut is inside a piece of markup. -/
def InMarkup (ps : List Piece) (cut : Nat) : Prop :=
  ∃ k < ps.length, ps[k]?.any (·.isMarkup) ∧ offset ps k < cut ∧ cut < offset ps (k + 1)

/-- The cut leaves a run of text with a reference that is unfinished. -/
def InReference (ps : List Piece) (cut : Nat) : Prop :=
  ∃ k < ps.length,
    ps[k]?.any (fun p => !p.isMarkup && (unescape? (p.text.take (cut - offset ps k))).isNone)
      ∧ offset ps k < cut ∧ cut < offset ps (k + 1)

/-- The cut is inside an element of a name, behind its first piece and before the end of its last
    one. -/
def InElement (ps : List Piece) (name : String) (cut : Nat) : Prop :=
  ∃ e ∈ elements ps name, offset ps (e.1 + 1) ≤ cut ∧ cut < offset ps (e.2 + 1)

/-- How many elements of a name end before the cut. -/
def closedBefore (ps : List Piece) (name : String) (cut : Nat) : Nat :=
  (elements ps name).countP fun e => offset ps (e.2 + 1) ≤ cut

variable {ps : List Piece} {p : Piece} {i j k cut : Nat} {name : String}

instance : Decidable (InMarkup ps cut) :=
  inferInstanceAs (Decidable (∃ k, k < ps.length ∧ _))

instance : Decidable (InReference ps cut) :=
  inferInstanceAs (Decidable (∃ k, k < ps.length ∧ _))

instance : Decidable (InElement ps name cut) :=
  inferInstanceAs (Decidable (∃ e, e ∈ elements ps name ∧ _))

/-- A cut strictly inside one piece is in no other one. -/
private theorem eq_of_inside (hlow : offset ps i < cut) (hhigh : cut < offset ps (i + 1))
    (hk : offset ps k ≤ cut) (hk' : cut ≤ offset ps (k + 1)) : i = k := by
  rcases Nat.lt_trichotomy i k with hlt | heq | hlt
  · have hbefore : offset ps (i + 1) ≤ offset ps k := offset_mono ps hlt
    omega
  · exact heq
  · have hafter : offset ps (k + 1) ≤ offset ps i := offset_mono ps hlt
    omega

/-- Whether a cut is strictly inside a piece with some property is decided by the piece that it is
    in. -/
private theorem exists_inside_iff (test : Nat → Piece → Bool) (hp : ps[k]? = some p)
    (hlow : offset ps k ≤ cut) (hhigh : cut ≤ offset ps (k + 1)) :
    (∃ i < ps.length, ps[i]?.any (test i) ∧ offset ps i < cut ∧ cut < offset ps (i + 1))
      ↔ test k p = true ∧ offset ps k < cut ∧ cut < offset ps (k + 1) := by
  constructor
  · rintro ⟨i, -, htest, hi, hi'⟩
    obtain rfl := eq_of_inside hi hi' hlow hhigh
    rw [hp] at htest
    exact ⟨htest, hi, hi'⟩
  · rintro ⟨htest, hinside⟩
    exact ⟨k, (List.getElem?_eq_some_iff.mp hp).1, by rw [hp]; exact htest, hinside⟩

theorem inMarkup_iff (hp : ps[k]? = some p) (hlow : offset ps k ≤ cut)
    (hhigh : cut ≤ offset ps (k + 1)) :
    InMarkup ps cut ↔ p.isMarkup = true ∧ offset ps k < cut ∧ cut < offset ps (k + 1) :=
  exists_inside_iff (fun _ p => p.isMarkup) hp hlow hhigh

theorem inReference_iff (hp : ps[k]? = some p) (hlow : offset ps k ≤ cut)
    (hhigh : cut ≤ offset ps (k + 1)) :
    InReference ps cut ↔
      (!p.isMarkup && (unescape? (p.text.take (cut - offset ps k))).isNone) = true
        ∧ offset ps k < cut ∧ cut < offset ps (k + 1) :=
  exists_inside_iff (fun k p => !p.isMarkup && (unescape? (p.text.take (cut - offset ps k))).isNone)
    hp hlow hhigh

/-! ## Cuts in a run of text -/

/-- A piece of markup takes up room. -/
theorem offset_lt_succ (hp : ps[k]? = some p) (hmarkup : p.isMarkup = true) :
    offset ps k < offset ps (k + 1) := by
  have hpos : 0 < p.text.length := by
    rw [List.length_pos_iff]
    intro hnil
    rw [Piece.isMarkup, hnil] at hmarkup
    cases hmarkup
  rw [offset_succ hp]
  exact Nat.lt_add_of_pos_right hpos

/-- A cut in a run of text lies behind a piece of markup exactly if that piece comes before the
    run. -/
theorem offset_succ_le_iff (hp : ps[k]? = some p) (hplain : p.isMarkup = false)
    (hlow : offset ps k ≤ cut) (hhigh : cut ≤ offset ps (k + 1))
    (hmarkup : ∃ q, ps[i]? = some q ∧ q.isMarkup = true) :
    offset ps (i + 1) ≤ cut ↔ i < k := by
  obtain ⟨q, hq, hmarkup⟩ := hmarkup
  constructor
  · intro hle
    rcases Nat.lt_trichotomy i k with hlt | rfl | hlt
    · exact hlt
    · rw [hp] at hq
      rw [Option.some.inj hq, hmarkup] at hplain
      cases hplain
    · have hroom := offset_lt_succ hq hmarkup
      have hafter : offset ps (k + 1) ≤ offset ps i := offset_mono ps hlt
      omega
  · intro hlt
    exact Nat.le_trans (offset_mono ps hlt) hlow

namespace Reads

variable {openNames : List (List Char)} {text : List Char}

/-- What is no text has been read from a piece of markup. -/
theorem exists_markup (h : Reads openNames text ps) {event : Event}
    (hevent : eventAt? ps i = some event) (hne : ∀ raw, event ≠ .text raw) :
    ∃ p, ps[i]? = some p ∧ p.isMarkup = true := by
  obtain ⟨p, hp, hpiece⟩ := Option.bind_eq_some_iff.mp hevent
  refine ⟨p, hp, ?_⟩
  cases hplain : p.isMarkup with
  | true => rfl
  | false =>
      rw [h.event_of_plain (List.mem_of_getElem? hp) hplain] at hpiece
      rcases textEvent?_cases p.text with hnone | ⟨raw, hraw⟩
      · rw [hnone] at hpiece
        cases hpiece
      · rw [hraw] at hpiece
        exact absurd (Option.some.inj hpiece).symm (hne raw)

/-- An element starts and ends with a piece of markup. -/
theorem markup_of_element (h : Reads openNames text ps) (he : (i, j) ∈ elements ps name) :
    (∃ p, ps[i]? = some p ∧ p.isMarkup = true) ∧ ∃ p, ps[j]? = some p ∧ p.isMarkup = true := by
  obtain ⟨-, ⟨rfl, attributes, hevent⟩ | ⟨hevent, rest, hopen⟩⟩ :=
    elementEnding?_eq_some (mem_elements.mp he)
  · have hmarkup := h.exists_markup hevent fun raw heq => nomatch heq
    exact ⟨hmarkup, hmarkup⟩
  · refine ⟨?_, h.exists_markup hevent fun raw heq => nomatch heq⟩
    obtain ⟨hlt, tag, hname⟩ := exists_startName? (hopen ▸ List.mem_cons_self)
    obtain ⟨attributes, hstart⟩ := startName?_eq_some.mp hname
    rw [← @eventAt?_append (ps.take j) (ps.drop j) i hlt, List.take_append_drop] at hstart
    exact h.exists_markup hstart fun raw heq => nomatch heq

/-- Which elements a cut in a run of text lies in. -/
theorem inElement_iff (h : Reads openNames text ps) (hp : ps[k]? = some p)
    (hplain : p.isMarkup = false) (hlow : offset ps k ≤ cut) (hhigh : cut ≤ offset ps (k + 1)) :
    InElement ps name cut ↔ ∃ i j, (i, j) ∈ elements ps name ∧ i < k ∧ k ≤ j := by
  constructor
  · rintro ⟨⟨i, j⟩, he, hi, hj⟩
    obtain ⟨hfirst, hlast⟩ := h.markup_of_element he
    refine ⟨i, j, he, (offset_succ_le_iff hp hplain hlow hhigh hfirst).mp hi, ?_⟩
    refine Nat.not_lt.mp fun hlt => ?_
    have := (offset_succ_le_iff hp hplain hlow hhigh hlast).mpr hlt
    exact absurd hj (Nat.not_lt.mpr this)
  · rintro ⟨i, j, he, hi, hj⟩
    obtain ⟨hfirst, hlast⟩ := h.markup_of_element he
    refine ⟨(i, j), he, (offset_succ_le_iff hp hplain hlow hhigh hfirst).mpr hi, ?_⟩
    refine Nat.not_le.mp fun hle => ?_
    exact absurd hj (Nat.not_le.mpr ((offset_succ_le_iff hp hplain hlow hhigh hlast).mp hle))

/-- **A cut in a run of text lies in an element** exactly if its tag is open before the run,
    provided that every element is closed in the end. -/
theorem inElement_iff_open (h : Reads [] text ps) (hclosed : openNamed ps name = [])
    (hp : ps[k]? = some p) (hplain : p.isMarkup = false) (hlow : offset ps k ≤ cut)
    (hhigh : cut ≤ offset ps (k + 1)) :
    InElement ps name cut ↔ openNamed (ps.take k) name ≠ [] := by
  have hk : k < ps.length := (List.getElem?_eq_some_iff.mp hp).1
  have hname : ∀ {i}, i < k → startName? (ps.take k) i = startName? ps i := by
    intro i hi
    have hlength : i < (ps.take k).length := by
      rw [List.length_take]
      exact Nat.lt_min.mpr ⟨hi, Nat.lt_trans hi hk⟩
    rw [← @startName?_append (ps.take k) (ps.drop k) i hlength, List.take_append_drop]
  rw [h.inElement_iff hp hplain hlow hhigh]
  constructor
  · rintro ⟨i, j, he, hi, hj⟩
    have hopen := open_of_element he hi hj
    obtain ⟨-, ⟨rfl, -⟩ | ⟨hevent, rest, hrest⟩⟩ := elementEnding?_eq_some (mem_elements.mp he)
    · exact absurd (Nat.lt_of_lt_of_le hi hj) (Nat.lt_irrefl _)
    · obtain ⟨inner, others, hinner, hstart⟩ := h.nested _ _ hevent
      obtain ⟨rfl, -⟩ := List.cons.inj (hrest ▸ hinner)
      exact List.ne_nil_of_mem (mem_openNamed.mpr ⟨hopen, (hname hi).trans hstart⟩)
  · intro hne
    obtain ⟨i, hmem⟩ := List.exists_mem_of_ne_nil _ hne
    obtain ⟨hopen, hstart⟩ := mem_openNamed.mp hmem
    have hi : i < k := lt_of_mem_openTags_take hopen
    have hwhole : ps.take k ++ ps.drop k = ps := List.take_append_drop k ps
    have hnested : Nested (ps.take k ++ ps.drop k) := hwhole.symm ▸ h.nested
    have hlater := open_or_closed hnested hopen hstart
    rw [hwhole] at hlater
    rcases hlater with hstill | ⟨j, hj, he⟩
    · have : i ∈ openNamed ps name := mem_openNamed.mpr ⟨hstill, (hname hi).symm.trans hstart⟩
      rw [hclosed] at this
      cases this
    · rw [List.length_take, Nat.min_eq_left (Nat.le_of_lt hk)] at hj
      exact ⟨i, j, he, hi, hj⟩

/-- The elements that end before a cut in a run of text are those of the pieces before the run. -/
theorem closedBefore_eq (h : Reads openNames text ps) (hp : ps[k]? = some p)
    (hplain : p.isMarkup = false) (hlow : offset ps k ≤ cut) (hhigh : cut ≤ offset ps (k + 1)) :
    closedBefore ps name cut = (elements (ps.take k) name).length := by
  have hk : k < ps.length := (List.getElem?_eq_some_iff.mp hp).1
  obtain ⟨later, heq, hlater⟩ := elements_append (ps.take k) (ps.drop k) name
  rw [List.take_append_drop] at heq
  have hbehind : ∀ e ∈ elements ps name, (offset ps (e.2 + 1) ≤ cut ↔ e.2 < k) := fun e he =>
    offset_succ_le_iff hp hplain hlow hhigh (h.markup_of_element he).2
  have hearly : ∀ e ∈ elements (ps.take k) name, offset ps (e.2 + 1) ≤ cut := by
    intro e he
    refine (hbehind e (heq ▸ List.mem_append_left _ he)).mpr ?_
    obtain ⟨-, hlast⟩ := elementEnding?_eq_some (mem_elements.mp he)
    have hlt : e.2 < (ps.take k).length := by
      rcases hlast with ⟨-, attributes, hevent⟩ | ⟨hevent, -⟩
      · exact lt_of_eventAt? hevent
      · exact lt_of_eventAt? hevent
    exact Nat.lt_of_lt_of_le hlt (List.length_take_le _ _)
  have hlate : ∀ e ∈ later, ¬ offset ps (e.2 + 1) ≤ cut := by
    intro e he hle
    have hlt := (hbehind e (heq ▸ List.mem_append_right _ he)).mp hle
    have hle := hlater e he
    rw [List.length_take, Nat.min_eq_left (Nat.le_of_lt hk)] at hle
    exact absurd hlt (Nat.not_lt.mpr hle)
  rw [closedBefore, heq, List.countP_append, List.countP_eq_length.mpr (by simpa using hearly),
    List.countP_eq_zero.mpr (by simpa using hlate), Nat.add_zero]

end Reads

end FailureTriage.Markup
