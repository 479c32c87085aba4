import FailureTriage.Proofs.Pattern.Preferred

/-!
# Successive matches

Which matches of a pattern are found in a text, one after the other.

* `exists_mem_findAll`: a match at a place is found, unless a match is found that covers the place.
* `findAllFrom_pass`, `findAllFrom_take`: what a search passes over, and what it takes.
* `FoundAt.findAll_eq_filterMap`: the matches that are found are those at some places, if every
  other match starts inside of one of them.
* `Apart.findAll_eq_filterMap`: successive matches that cannot overlap are the matches at all
  places.
-/

namespace FailureTriage

namespace Pattern

variable {β : Type} {p : Pattern} {b : β}

/-! ## What is found -/

/-- What a search from a place on finds is a match at a place. -/
theorem exists_matchAt?_of_findFrom? {index : Nat} {before : Option Char} {rest : List Char}
    {m : Match} (h : p.findFrom? index before rest = some m) : ∃ a, p.matchAt? a = some m := by
  induction rest generalizing index before with
  | nil =>
      rw [findFrom?] at h
      cases hm : p.matchAt? ⟨index, before, []⟩ with
      | some hit =>
          rw [hm] at h
          exact ⟨_, hm.trans h⟩
      | none =>
          rw [hm] at h
          cases h
  | cons c rest ih =>
      rw [findFrom?] at h
      cases hm : p.matchAt? ⟨index, before, c :: rest⟩ with
      | some hit =>
          rw [hm] at h
          exact ⟨_, hm.trans h⟩
      | none =>
          rw [hm] at h
          exact ih h

/-- **The match that a search finds** is the preferred one at the leftmost place. -/
theorem exists_leftmost_of_find? {text : List Char} {m : Match} (h : p.find? text = some m) :
    ∃ position, p.matchAt? (Place.inText text position) = some m ∧ p.IsLeftmost text position := by
  obtain ⟨position, hstart, hleftmost⟩ := start_of_find? h
  obtain ⟨a, hm⟩ := exists_matchAt?_of_findFrom? h
  obtain ⟨way, -, heq⟩ := Option.map_eq_some_iff.mp hm
  have ha : m.span.start = a := heq ▸ rfl
  exact ⟨position, hstart ▸ ha ▸ hm, hleftmost⟩

/-- The preferred match at the leftmost place is the one that a search finds. -/
theorem find?_of_isLeftmost {text : List Char} {position : Nat} {m : Match}
    (hleftmost : p.IsLeftmost text position)
    (hm : p.matchAt? (Place.inText text position) = some m) : p.find? text = some m := by
  cases hfind : p.find? text with
  | none => exact absurd hleftmost.1 (find?_eq_none_iff.mp hfind position)
  | some found =>
      obtain ⟨other, hfound, hother⟩ := exists_leftmost_of_find? hfind
      obtain rfl := hleftmost.unique hother
      exact hfound.symm.trans hm

/-- The matches that have been found stay. -/
theorem subset_findAllFrom (index : Nat) (before : Option Char) (rest : List Char) (resume : Nat)
    (found : List Match) : found ⊆ p.findAllFrom index before rest resume found := by
  induction rest generalizing index before resume found with
  | nil =>
      intro m hm
      rw [findAllFrom]
      exact List.mem_reverse.mpr (List.mem_append_right _ hm)
  | cons c rest ih =>
      intro m hm
      rw [findAllFrom]
      exact ih _ _ _ _ (List.mem_append_right _ hm)

/-- What is found at a place is a match there. -/
private theorem exists_of_mem_hit {done rest : List Char} {resume : Nat} {m : Match}
    (h : m ∈ (if done.length < resume then none
      else p.matchAt? ⟨done.length, done.getLast?, rest⟩).toList) :
    ∃ position ≤ (done ++ rest).length,
      p.matchAt? (Place.inText (done ++ rest) position) = some m := by
  refine ⟨done.length, by rw [List.length_append]; exact Nat.le_add_right _ _, ?_⟩
  rw [inText_append]
  split at h
  · cases h
  · exact Option.mem_toList.mp h

/-- A match that is found from a place on was found before, or is one at a place of the text. -/
theorem exists_of_mem_findAllFrom {done rest : List Char} {resume : Nat} {found : List Match}
    {m : Match} (h : m ∈ p.findAllFrom done.length done.getLast? rest resume found) :
    m ∈ found ∨ ∃ position ≤ (done ++ rest).length,
      p.matchAt? (Place.inText (done ++ rest) position) = some m := by
  induction rest generalizing done resume found with
  | nil =>
      rw [findAllFrom] at h
      exact (List.mem_append.mp (List.mem_reverse.mp h)).symm.imp_right exists_of_mem_hit
  | cons c rest ih =>
      have hlength : (done ++ [c]).length = done.length + 1 := by
        rw [List.length_append, List.length_singleton]
      rw [findAllFrom, ← hlength, ← @List.getLast?_concat _ done c] at h
      rcases ih h with hmem | hlater
      · exact (List.mem_append.mp hmem).symm.imp_right exists_of_mem_hit
      · rw [← List.append_cons] at hlater
        exact Or.inr hlater

/-- **What is found** are matches at places of the text. -/
theorem exists_of_mem_findAll {text : List Char} {m : Match} (h : m ∈ p.findAll text) :
    ∃ position ≤ text.length, p.matchAt? (Place.inText text position) = some m :=
  (@exists_of_mem_findAllFrom p [] text 0 [] m h).resolve_left List.not_mem_nil

/-- A match at the place where the search is to go on is found. -/
theorem mem_findAllFrom_of_matchAt? {index resume : Nat} {before : Option Char}
    {rest : List Char} {m : Match} (hresume : resume ≤ index)
    (h : p.matchAt? ⟨index, before, rest⟩ = some m) (found : List Match) :
    m ∈ p.findAllFrom index before rest resume found := by
  have hmem : m ∈ (p.matchAt? ⟨index, before, rest⟩).toList ++ found := by
    rw [h]
    exact List.mem_cons_self
  cases rest with
  | nil =>
      rw [findAllFrom, if_neg (Nat.not_lt.mpr hresume)]
      exact List.mem_reverse.mpr hmem
  | cons c rest =>
      rw [findAllFrom, if_neg (Nat.not_lt.mpr hresume)]
      exact subset_findAllFrom _ _ _ _ _ hmem

/-- A match at a place that is to be looked at is found, or another one that covers the place. -/
theorem exists_mem_findAllFrom {done rest : List Char} {resume position : Nat} {m : Match}
    (found : List Match) (hge : done.length ≤ position) (hle : position ≤ (done ++ rest).length)
    (hresume : resume ≤ position)
    (h : p.matchAt? (Place.inText (done ++ rest) position) = some m) :
    ∃ start ≤ position,
      ∃ hit ∈ p.findAllFrom done.length done.getLast? rest resume found,
        p.matchAt? (Place.inText (done ++ rest) start) = some hit
          ∧ (start = position ∨ position < hit.span.stop) := by
  induction rest generalizing done resume found with
  | nil =>
      rw [List.append_nil] at hle
      obtain rfl := Nat.le_antisymm hge hle
      refine ⟨done.length, Nat.le_refl _, m, ?_, h, Or.inl rfl⟩
      rw [inText_append] at h
      exact mem_findAllFrom_of_matchAt? hresume h found
  | cons c rest ih =>
      rcases Nat.eq_or_lt_of_le hge with rfl | hlater
      · refine ⟨done.length, Nat.le_refl _, m, ?_, h, Or.inl rfl⟩
        rw [inText_append] at h
        exact mem_findAllFrom_of_matchAt? hresume h found
      have hlength : (done ++ [c]).length = done.length + 1 := by
        rw [List.length_append, List.length_singleton]
      have hgo : ∀ resume ≤ position, ∀ found, ∃ start ≤ position,
          ∃ hit ∈ p.findAllFrom (done.length + 1) (some c) rest resume found,
            p.matchAt? (Place.inText (done ++ c :: rest) start) = some hit
              ∧ (start = position ∨ position < hit.span.stop) := by
        intro resume hresume found
        rw [List.append_cons] at hle h ⊢
        rw [← hlength, ← @List.getLast?_concat _ done c]
        exact ih found (hlength ▸ hlater) hle hresume h
      rw [findAllFrom]
      cases hhit : (if done.length < resume then none
        else p.matchAt? ⟨done.length, done.getLast?, c :: rest⟩) with
      | none => exact hgo resume hresume _
      | some hit =>
          -- the search resumes behind the place, or what is found here covers it
          by_cases hcovered : position < hit.span.stop
          · have hhere : p.matchAt? ⟨done.length, done.getLast?, c :: rest⟩ = some hit := by
              split at hhit
              · cases hhit
              · exact hhit
            refine ⟨done.length, hge, hit, ?_, ?_, Or.inr hcovered⟩
            · exact subset_findAllFrom _ _ _ _ _ List.mem_cons_self
            · rwa [inText_append]
          · exact hgo _ (Nat.max_le.mpr ⟨Nat.not_lt.mp hcovered, hlater⟩) _

/-- **A match at a place** is found, or another one that starts before the place and covers it. -/
theorem exists_mem_findAll {text : List Char} {position : Nat} {m : Match}
    (hle : position ≤ text.length) (h : p.matchAt? (Place.inText text position) = some m) :
    ∃ start ≤ position, ∃ hit ∈ p.findAll text,
      p.matchAt? (Place.inText text start) = some hit
        ∧ (start = position ∨ position < hit.span.stop) :=
  @exists_mem_findAllFrom p [] text 0 position m [] (Nat.zero_le _) hle (Nat.zero_le _) h

/-! ## A search going on -/

/-- The matches that have been found come first. -/
theorem findAllFrom_found (index : Nat) (before : Option Char) (rest : List Char) (resume : Nat)
    (found : List Match) :
    p.findAllFrom index before rest resume found
      = found.reverse ++ p.findAllFrom index before rest resume [] := by
  induction rest generalizing index before resume found with
  | nil => rw [findAllFrom, findAllFrom, List.append_nil, List.reverse_append]
  | cons c rest ih =>
      rw [findAllFrom, findAllFrom, ih, ih _ _ _ (_ ++ []), List.append_nil, List.reverse_append,
        List.append_assoc]

/-- A search passes over characters at which it does not look or no match starts. -/
theorem findAllFrom_pass {done passed : List Char} {resume : Nat} (rest : List Char)
    (h : ∀ before after, passed = before ++ after → after ≠ [] →
      (done ++ before).length < resume
        ∨ p.matchAt? ⟨(done ++ before).length, (done ++ before).getLast?, after ++ rest⟩ = none) :
    p.findAllFrom done.length done.getLast? (passed ++ rest) resume []
      = p.findAllFrom (done ++ passed).length (done ++ passed).getLast? rest resume [] := by
  induction passed generalizing done with
  | nil => rw [List.nil_append, List.append_nil]
  | cons c passed ih =>
      have hnone : (if done.length < resume then none
          else p.matchAt? ⟨done.length, done.getLast?, c :: (passed ++ rest)⟩) = none := by
        have hfirst := h [] (c :: passed) rfl (List.cons_ne_nil c passed)
        rw [List.append_nil] at hfirst
        rcases hfirst with hlt | hnone
        · exact if_pos hlt
        · exact ite_eq_left_iff.mpr fun _ => hnone
      have hnext := @ih (done ++ [c]) fun before after hpassed hne => by
        have hlater := h (c :: before) after (congrArg (c :: ·) hpassed) hne
        rwa [List.append_cons] at hlater
      rw [List.cons_append, findAllFrom, hnone]
      rw [List.length_append, List.length_singleton, List.getLast?_concat, ← List.append_cons]
        at hnext
      exact hnext

/-- A search takes a match that starts where it looks, and goes on behind it. -/
theorem findAllFrom_take {done taken : List Char} {resume : Nat} {rest : List Char} {m : Match}
    (hresume : resume ≤ done.length) (hne : taken ≠ [])
    (hm : p.matchAt? ⟨done.length, done.getLast?, taken ++ rest⟩ = some m)
    (hstop : m.span.stop = (done ++ taken).length) :
    p.findAllFrom done.length done.getLast? (taken ++ rest) resume []
      = m :: p.findAllFrom (done ++ taken).length (done ++ taken).getLast? rest
          (done ++ taken).length [] := by
  obtain ⟨c, taken, rfl⟩ := List.exists_cons_of_ne_nil hne
  have hlength : (done ++ [c]).length = done.length + 1 := by
    rw [List.length_append, List.length_singleton]
  have hlater : max m.span.stop (done.length + 1) = (done ++ c :: taken).length := by
    rw [hstop, List.length_append, List.length_cons]
    omega
  have hpass := @findAllFrom_pass p (done ++ [c]) taken (done ++ c :: taken).length rest
    fun before after hpassed hafter => Or.inl (by
      have hpos := List.length_pos_iff.mpr hafter
      rw [hpassed, ← List.append_cons, List.length_append, List.length_append, List.length_cons,
        List.length_cons, List.length_append]
      omega)
  rw [hlength, List.getLast?_concat, ← List.append_cons] at hpass
  rw [List.cons_append] at hm ⊢
  rw [findAllFrom, if_neg (Nat.not_lt.mpr hresume), hm, findAllFrom_found]
  dsimp only
  rw [hlater, hpass]
  rfl

/-! ## Matches at some places -/

/-- Whether the matches that start at some places of a text are those that a search finds: none of
    them starts inside of another, and every other match starts inside of one of them. -/
structure FoundAt (p : Pattern) (text : List Char) (starts : Nat → Bool) : Prop where
  apart : ∀ position m, starts position = true →
    p.matchAt? (Place.inText text position) = some m →
      ∀ later, position < later → later < m.span.stop → starts later = true →
        p.matchAt? (Place.inText text later) = none
  covered : ∀ position m, starts position = false →
    p.matchAt? (Place.inText text position) = some m →
      ∃ earlier < position, starts earlier = true
        ∧ ∃ hit, p.matchAt? (Place.inText text earlier) = some hit ∧ position < hit.span.stop

section

variable {text : List Char} {starts : Nat → Bool}

/-- The match at a place, if it is one of those where matches are found. -/
def hitAt? (p : Pattern) (text : List Char) (starts : Nat → Bool) (position : Nat) :
    Option Match :=
  if starts position then p.matchAt? (Place.inText text position) else none

/-- A match at the place where the search stands is taken exactly if it is one of those. -/
theorem FoundAt.hit_eq (h : p.FoundAt text starts) {done rest : List Char} {resume : Nat}
    (htext : done ++ rest = text)
    (hpassed : ∀ earlier < done.length, ∀ hit, p.hitAt? text starts earlier = some hit →
      hit.span.stop ≤ resume)
    (hmissed : ∀ later, done.length ≤ later → later < resume → p.hitAt? text starts later = none) :
    (if done.length < resume then none else p.matchAt? ⟨done.length, done.getLast?, rest⟩)
      = p.hitAt? text starts done.length := by
  have hplace : Place.inText text done.length = ⟨done.length, done.getLast?, rest⟩ :=
    htext ▸ inText_append done rest
  rw [← hplace]
  split
  · rename_i hlt
    exact (hmissed _ (Nat.le_refl _) hlt).symm
  rename_i hge
  cases hstart : starts done.length with
  | true => rw [hitAt?, if_pos hstart]
  | false =>
      rw [hitAt?, if_neg (Bool.eq_false_iff.mp hstart), ← Option.not_isSome_iff_eq_none,
        Option.isSome_iff_exists]
      rintro ⟨m, hm⟩
      obtain ⟨earlier, hlt, hearlier, hit, hhit, hcovers⟩ := h.covered _ m hstart hm
      have hstop := hpassed earlier hlt hit (by rw [hitAt?, if_pos hearlier, hhit])
      omega

/-- The search goes on with the matches at the places that are left, if it has gone past the matches
    before and no match starts where it does not look. -/
theorem FoundAt.findAllFrom_eq (h : p.FoundAt text starts) {done rest : List Char} {resume : Nat}
    (htext : done ++ rest = text)
    (hpassed : ∀ earlier < done.length, ∀ hit, p.hitAt? text starts earlier = some hit →
      hit.span.stop ≤ resume)
    (hmissed : ∀ later, done.length ≤ later → later < resume → p.hitAt? text starts later = none) :
    p.findAllFrom done.length done.getLast? rest resume []
      = (List.range' done.length (rest.length + 1)).filterMap (p.hitAt? text starts) := by
  induction rest generalizing done resume with
  | nil =>
      rw [findAllFrom, h.hit_eq htext hpassed hmissed, List.length_nil, List.range'_one]
      cases hhere : p.hitAt? text starts done.length with
      | none => rw [List.filterMap_cons_none hhere]; rfl
      | some m => rw [List.filterMap_cons_some hhere]; rfl
  | cons c rest ih =>
      have hlength : (done ++ [c]).length = done.length + 1 := by
        rw [List.length_append, List.length_singleton]
      have hgo := @ih (done ++ [c])
      rw [hlength, List.getLast?_concat, ← List.append_cons] at hgo
      rw [findAllFrom, h.hit_eq htext hpassed hmissed, findAllFrom_found, List.length_cons,
        List.range'_succ]
      cases hhere : p.hitAt? text starts done.length with
      | none =>
          rw [List.filterMap_cons_none hhere]
          refine hgo htext (fun earlier hlt hit hhit => ?_) fun later hge hlt =>
            hmissed later (Nat.le_of_succ_le hge) hlt
          rcases Nat.lt_succ_iff_lt_or_eq.mp hlt with hlt | rfl
          · exact hpassed earlier hlt hit hhit
          · exact nomatch hhere.symm.trans hhit
      | some m =>
          rw [List.filterMap_cons_some hhere]
          dsimp only
          obtain ⟨hstart, hm⟩ := Option.ite_none_right_eq_some.mp hhere
          -- the search looked here, so it was to resume here or before
          have hresume : resume ≤ done.length := Nat.not_lt.mp fun hlt =>
            nomatch hhere.symm.trans (hmissed _ (Nat.le_refl _) hlt)
          refine congrArg (m :: ·)
            (hgo htext (fun earlier hlt hit hhit => ?_) fun later hge hlt => ?_)
          · rcases Nat.lt_succ_iff_lt_or_eq.mp hlt with hbefore | rfl
            · have hstop := hpassed earlier hbefore hit hhit
              omega
            · obtain rfl := Option.some.inj (hhere.symm.trans hhit)
              exact Nat.le_max_left _ _
          · refine ite_eq_right_iff.mpr fun hlater => ?_
            exact h.apart _ m hstart hm later hge (by omega) hlater

/-- **The matches that are found** are those at the places of the text where matches are found. -/
theorem FoundAt.findAll_eq_filterMap (h : p.FoundAt text starts) :
    p.findAll text = (List.range (text.length + 1)).filterMap (p.hitAt? text starts) := by
  rw [List.range_eq_range']
  exact h.findAllFrom_eq (List.nil_append text) (fun earlier hlt => absurd hlt (Nat.not_lt_zero _))
    fun later _ hlt => absurd hlt (Nat.not_lt_zero _)

end

/-! ## Matches that cannot overlap -/

/-- Whether no match in a text starts between two places. -/
def Bare (p : Pattern) (text : List Char) (first resume : Nat) : Prop :=
  ∀ position, first ≤ position → position < resume →
    p.matchAt? (Place.inText text position) = none

/-- Whether no match in a text starts inside of another. -/
def Apart (p : Pattern) (text : List Char) : Prop :=
  ∀ position m, p.matchAt? (Place.inText text position) = some m →
    p.Bare text (position + 1) m.span.stop

/-- Matches that cannot overlap are found at all places. -/
theorem Apart.foundAt {text : List Char} (h : p.Apart text) : p.FoundAt text fun _ => true where
  apart position m _ hm later hlt hstop _ := h position m hm later hlt hstop
  covered _ _ hnot := nomatch hnot

/-- What is found first in a range. -/
theorem findSome?_range {f : Nat → Option β} {n : Nat} :
    (List.range n).findSome? f = some b
      ↔ ∃ i < n, f i = some b ∧ ∀ earlier < i, f earlier = none := by
  induction n with
  | zero => exact iff_of_false nofun fun ⟨i, hi, _⟩ => Nat.not_lt_zero i hi
  | succ n ih =>
      rw [List.range_succ, List.findSome?_append, Option.or_eq_some_iff, ih,
        List.findSome?_singleton]
      constructor
      · rintro (⟨i, hi, hb, hearlier⟩ | ⟨hnone, hb⟩)
        · exact ⟨i, Nat.lt_succ_of_lt hi, hb, hearlier⟩
        · refine ⟨n, Nat.lt_succ_self n, hb, fun earlier hlt => ?_⟩
          exact List.findSome?_eq_none_iff.mp hnone earlier (List.mem_range.mpr hlt)
      · rintro ⟨i, hi, hb, hearlier⟩
        rcases Nat.lt_succ_iff_lt_or_eq.mp hi with hlt | rfl
        · exact Or.inl ⟨i, hlt, hb, hearlier⟩
        · refine Or.inr ⟨List.findSome?_eq_none_iff.mpr fun earlier hlt => ?_, hb⟩
          exact hearlier earlier (List.mem_range.mp hlt)

/-- **Successive matches** that cannot overlap are the matches at all places of a text. -/
theorem Apart.findAll_eq_filterMap {text : List Char} (h : p.Apart text) :
    p.findAll text = (List.range (text.length + 1)).filterMap fun position =>
      p.matchAt? (Place.inText text position) :=
  h.foundAt.findAll_eq_filterMap

/-- What is found in the successive matches, one after the other, is found at the places of the
    text, one after the other. -/
theorem Apart.findSome?_eq {text : List Char} (h : p.Apart text) (f : Match → Option β) :
    (p.findAll text).findSome? f = (List.range (text.length + 1)).findSome? fun position =>
      (p.matchAt? (Place.inText text position)).bind f := by
  rw [h.findAll_eq_filterMap, ← List.head?_filterMap, List.filterMap_filterMap,
    List.head?_filterMap]

/-- **The first successive match** with some property stands at the first place where one does. -/
theorem Apart.findSome?_eq_some_iff {text : List Char} (h : p.Apart text) {f : Match → Option β} :
    (p.findAll text).findSome? f = some b
      ↔ ∃ position ≤ text.length, (p.matchAt? (Place.inText text position)).bind f = some b
        ∧ ∀ earlier < position, (p.matchAt? (Place.inText text earlier)).bind f = none := by
  rw [h.findSome?_eq, findSome?_range]
  simp only [Nat.lt_succ_iff]

/-- A match with some property is not overlooked. -/
theorem Apart.isSome_findSome? {text : List Char} (h : p.Apart text) {f : Match → Option β}
    {position : Nat} (hle : position ≤ text.length)
    (hsome : ((p.matchAt? (Place.inText text position)).bind f).isSome = true) :
    ((p.findAll text).findSome? f).isSome = true := by
  rw [h.findSome?_eq, List.isSome_findSome?, List.any_eq_true]
  exact ⟨position, List.mem_range.mpr (Nat.lt_succ_of_le hle), hsome⟩

end Pattern

end FailureTriage
