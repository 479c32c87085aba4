import FailureTriage.Proofs.Pattern.Matching
import FailureTriage.Proofs.Text.Words
import Mathlib.Data.List.Forall2
import Mathlib.Data.List.TakeWhile

/-!
# Preferred matches

Which of the ways to match a pattern is preferred, with the parts that its groups match.  A pattern
is followed from left to right: `thenTry` is what comes next, for the first way through the pattern
that can go on.

* `thenTry_seq` and its kin: one equation a constructor.
* `thenTry_run_eq_some_iff`, `thenTry_oneOrMore_eq_some_iff`: how far a repetition goes.
* `matchAt?_eq_thenTry`: the preferred match at a place.
-/

namespace FailureTriage

namespace Pattern

variable {β : Type} {p q : Pattern} {next : Way → Option β} {way : Way} {a : Place}
  {groups : List (Nat × Span)} {accept : Char → Bool} {b : β}

/-! ## Following a pattern -/

/-- What comes next, for the first way through a pattern that can go on. -/
def thenTry (p : Pattern) (next : Way → Option β) (way : Way) : Option β :=
  (p.ends way).findSome? next

theorem thenTry_empty (next : Way → Option β) (way : Way) : empty.thenTry next way = next way := by
  rw [thenTry, ends, List.findSome?_singleton]

theorem thenTry_one (next : Way → Option β) (a : Place) (groups : List (Nat × Span)) :
    (one accept).thenTry next ⟨a, groups⟩ = match a.rest with
      | c :: rest => if accept c then next ⟨a.past [c] rest, groups⟩ else none
      | [] => none := by
  rw [thenTry, ends]
  cases a.rest with
  | nil => rfl
  | cons c rest =>
      by_cases hc : accept c = true
      · simp [hc, Place.past_singleton]
      · simp [hc]

theorem thenTry_seq (p q : Pattern) (next : Way → Option β) (way : Way) :
    (seq p q).thenTry next way = p.thenTry (q.thenTry next) way := by
  rw [thenTry, thenTry, ends]
  -- induction on the ways through the first pattern, each of which the second goes on from
  induction p.ends way with
  | nil => rfl
  | cons first others ih =>
      rw [List.flatMap_cons, List.findSome?_append, List.findSome?_cons, ih]
      rw [thenTry]
      cases (q.ends first).findSome? next <;> rfl

theorem thenTry_alt (p q : Pattern) (next : Way → Option β) (way : Way) :
    (alt p q).thenTry next way = (p.thenTry next way).or (q.thenTry next way) :=
  List.findSome?_append

theorem thenTry_group (number : Nat) (p : Pattern) (next : Way → Option β) (way : Way) :
    (group number p).thenTry next way = p.thenTry (fun after =>
      next ⟨after.place, (number, ⟨way.place, after.place.index⟩) :: after.groups⟩) way :=
  List.findSome?_map

theorem thenTry_sequence_cons (p : Pattern) (ps : List Pattern) (next : Way → Option β)
    (way : Way) :
    (sequence (p :: ps)).thenTry next way = p.thenTry ((sequence ps).thenTry next) way := by
  cases ps with
  | nil =>
      have hnil : (sequence []).thenTry next = next := funext fun way => thenTry_empty next way
      rw [hnil]
      rfl
  | cons q ps => exact thenTry_seq p _ next way

/-- Some alternative goes on exactly if none before it does. -/
theorem thenTry_anyOf (ps : List Pattern) (next : Way → Option β) (way : Way) :
    (anyOf ps).thenTry next way = ps.findSome? fun p => p.thenTry next way := by
  induction ps with
  | nil =>
      rw [anyOf, thenTry_one]
      cases way.place.rest <;> rfl
  | cons p ps ih =>
      rw [List.findSome?_cons]
      cases ps with
      | nil =>
          rw [anyOf]
          cases p.thenTry next way <;> rfl
      | cons q ps =>
          rw [anyOf, thenTry_alt, ih]
          · cases p.thenTry next way <;> rfl
          · exact fun h => nomatch h

/-- The preferred match at a place. -/
theorem matchAt?_eq_thenTry (p : Pattern) (a : Place) :
    p.matchAt? a = p.thenTry (fun way => some ⟨⟨a, way.place.index⟩, way.groups⟩) ⟨a, []⟩ := by
  rw [matchAt?, thenTry]
  cases p.ends ⟨a, []⟩ <;> rfl

/-- Where a pattern does not match, nothing comes next. -/
theorem thenTry_eq_none (h : ∀ z, ¬ p.Matches way.place z) : p.thenTry next way = none := by
  have hnone : p.ends way = [] := by
    refine List.eq_nil_iff_forall_not_mem.mpr fun after hafter => h after.place ?_
    exact (mem_ends_iff way.groups).mp ⟨after.groups, hafter⟩
  rw [thenTry, hnone]
  rfl

/-- Whether what comes next fails wherever a character of a class follows. -/
def FailsOn (accept : Char → Bool) (next : Way → Option β) : Prop :=
  ∀ way c rest, way.place.rest = c :: rest → accept c = true → next way = none

/-- Nothing comes next where a pattern cannot start. -/
theorem StartsIn.thenTry_eq_none {start : Char → Prop} (h : p.StartsIn start)
    (hnot : ∀ c, way.place.rest.head? = some c → ¬ start c) : p.thenTry next way = none := by
  refine Pattern.thenTry_eq_none fun z hz => ?_
  obtain ⟨c, hhead, hc⟩ := h way.place z hz
  exact hnot c hhead hc

theorem StartsIn.failsOn {start : Char → Prop} (h : p.StartsIn start)
    (hnot : ∀ c, accept c = true → ¬ start c) (next : Way → Option β) :
    FailsOn accept (p.thenTry next) := by
  intro way c rest hrest hc
  refine h.thenTry_eq_none fun d hd => ?_
  rw [hrest, List.head?_cons] at hd
  exact Option.some.inj hd ▸ hnot c hc

/-! ## Characters one by one -/

/-- Characters of given classes are passed one by one. -/
theorem thenTry_ones {accepts : List (Char → Bool)} :
    (sequence (accepts.map one)).thenTry next ⟨a, groups⟩ = some b
      ↔ ∃ passed rest, a.rest = passed ++ rest
        ∧ List.Forall₂ (fun accept c => accept c = true) accepts passed
        ∧ next ⟨a.past passed rest, groups⟩ = some b := by
  induction accepts generalizing a with
  | nil =>
      rw [List.map_nil, sequence, thenTry_empty]
      constructor
      · intro h
        exact ⟨[], a.rest, rfl, .nil, h⟩
      · rintro ⟨passed, rest, hrest, hpassed, h⟩
        obtain rfl := List.forall₂_nil_left_iff.mp hpassed
        rwa [← List.nil_append rest, ← hrest] at h
  | cons accept accepts ih =>
      rw [List.map_cons, thenTry_sequence_cons, thenTry_one]
      cases hrest : a.rest with
      | nil =>
          refine ⟨nofun, ?_⟩
          rintro ⟨passed, rest, happ, hpassed, -⟩
          obtain ⟨c, tail, -, -, rfl⟩ := List.forall₂_cons_left_iff.mp hpassed
          cases happ
      | cons c tail =>
          dsimp only
          constructor
          · intro h
            split at h
            · rename_i hc
              obtain ⟨passed, rest, htail, hpassed, hnext⟩ := ih.mp h
              refine ⟨c :: passed, rest, congrArg (c :: ·) htail, .cons hc hpassed, ?_⟩
              rwa [Place.past_past] at hnext
            · cases h
          · rintro ⟨passed, rest, happ, hpassed, hnext⟩
            obtain ⟨d, more, hd, hmore, rfl⟩ := List.forall₂_cons_left_iff.mp hpassed
            obtain ⟨rfl, rfl⟩ := List.cons.inj happ
            rw [if_pos hd]
            refine ih.mpr ⟨more, rest, rfl, hmore, ?_⟩
            rwa [Place.past_past]

/-- A fixed text is passed. -/
theorem thenTry_literal {text : List Char} :
    (literal text).thenTry next ⟨a, groups⟩ = some b
      ↔ ∃ rest, a.rest = text ++ rest ∧ next ⟨a.past text rest, groups⟩ = some b := by
  have hsame : ∀ passed : List Char,
      List.Forall₂ (fun accept c => accept c = true) (text.map fun c d => d == c) passed
        ↔ passed = text := by
    induction text with
    | nil => exact fun passed => List.forall₂_nil_left_iff
    | cons c text ih =>
        intro passed
        rw [List.map_cons, List.forall₂_cons_left_iff]
        constructor
        · rintro ⟨d, more, hd, hmore, rfl⟩
          rw [eq_of_beq hd, (ih more).mp hmore]
        · rintro rfl
          exact ⟨c, text, beq_self_eq_true c, (ih text).mpr rfl, rfl⟩
  have hones : text.map (fun c => one (· == c)) = (text.map fun c d => d == c).map one :=
    (List.map_map ..).symm
  rw [literal, hones, thenTry_ones]
  constructor
  · rintro ⟨passed, rest, hrest, hpassed, h⟩
    obtain rfl := (hsame passed).mp hpassed
    exact ⟨rest, hrest, h⟩
  · rintro ⟨rest, hrest, h⟩
    exact ⟨text, rest, hrest, (hsame text).mpr rfl, h⟩

/-- Of words that are made of a class of characters only one can go on, if what comes next cannot
    start with such a character. -/
theorem thenTry_words {words : List String} (hwords : ∀ w ∈ words, ∀ c ∈ w.toList, accept c = true)
    (h : FailsOn accept next) :
    (anyOf (words.map word)).thenTry next ⟨a, groups⟩ = some b
      ↔ ∃ w ∈ words, ∃ rest, a.rest = w.toList ++ rest
        ∧ next ⟨a.past w.toList rest, groups⟩ = some b := by
  -- a word that can go on is all of the text up to the first character outside of the class
  have hone : ∀ w ∈ words, ∀ b, (word w).thenTry next ⟨a, groups⟩ = some b →
      w.toList = a.rest.takeWhile accept := by
    intro w hw b hb
    obtain ⟨rest, hrest, hb⟩ := thenTry_literal.mp hb
    rw [hrest, List.takeWhile_append_of_pos (hwords w hw)]
    cases rest with
    | nil => exact (List.append_nil _).symm
    | cons c rest =>
        have hc : ¬ accept c = true := by
          intro hc
          rw [h _ c rest rfl hc] at hb
          cases hb
        rw [List.takeWhile_cons_of_neg hc, List.append_nil]
  rw [thenTry_anyOf, List.findSome?_map]
  constructor
  · intro hb
    obtain ⟨w, hw, hb⟩ := List.exists_of_findSome?_eq_some hb
    exact ⟨w, hw, thenTry_literal.mp hb⟩
  · rintro ⟨w, hw, hb⟩
    have hb : (word w).thenTry next ⟨a, groups⟩ = some b := thenTry_literal.mpr hb
    cases hfound : words.findSome? ((fun p => p.thenTry next ⟨a, groups⟩) ∘ word) with
    | none => exact absurd (hb.symm.trans (List.findSome?_eq_none_iff.mp hfound w hw)) nofun
    | some b' =>
        obtain ⟨w', hw', hb'⟩ := List.exists_of_findSome?_eq_some hfound
        obtain rfl := String.toList_inj.mp ((hone w hw b hb).trans (hone w' hw' b' hb').symm)
        exact hb'.symm.trans hb

/-! ## Repetitions of characters -/

/-- The place behind as many characters of a class as there are. -/
def farthest (accept : Char → Bool) (a : Place) : Place :=
  a.past (a.rest.takeWhile accept) (a.rest.dropWhile accept)

/-- At the farthest place no character of the class follows. -/
theorem head?_rest_farthest (accept : Char → Bool) (a : Place) :
    (farthest accept a).rest.head?.any accept = false :=
  Text.any_head?_dropWhile accept a.rest

/-- The farthest place comes first, and from all others one could go on. -/
theorem exists_runPlaces (accept : Char → Bool) (rest : List Char) (index : Nat)
    (before : Option Char) (found : List Place) :
    ∃ others, runPlaces accept index before rest found
        = farthest accept ⟨index, before, rest⟩ :: (others ++ found)
      ∧ ∀ place ∈ others, ∃ c rest, place.rest = c :: rest ∧ accept c = true := by
  induction rest generalizing index before found with
  | nil => exact ⟨[], rfl, List.forall_mem_nil _⟩
  | cons c rest ih =>
      rw [runPlaces]
      split
      · rename_i hc
        -- the place itself is the nearest one, so it comes last
        obtain ⟨others, hplaces, hothers⟩ := ih (index + 1) (some c)
          (⟨index, before, c :: rest⟩ :: found)
        refine ⟨others ++ [⟨index, before, c :: rest⟩], ?_, ?_⟩
        · rw [hplaces, farthest, farthest, List.takeWhile_cons_of_pos hc,
            List.dropWhile_cons_of_pos hc, List.append_assoc, List.singleton_append,
            ← Place.past_singleton ⟨index, before, c :: rest⟩, Place.past_past,
            List.singleton_append]
          rfl
        · exact List.forall_mem_append.mpr
            ⟨hothers, List.forall_mem_singleton.mpr ⟨c, rest, rfl, hc⟩⟩
      · rename_i hc
        refine ⟨[], ?_, List.forall_mem_nil _⟩
        rw [farthest, List.takeWhile_cons_of_neg hc, List.dropWhile_cons_of_neg hc]
        rfl

/-- A repetition tries the places behind the next character first. -/
theorem runPlaces_eq (accept : Char → Bool) (index : Nat) (before : Option Char)
    (rest : List Char) (found : List Place) :
    runPlaces accept index before rest found
      = runPlaces accept index before rest [] ++ found := by
  induction rest generalizing index before found with
  | nil => rfl
  | cons c rest ih =>
      rw [runPlaces, runPlaces]
      split
      · rw [ih, ih _ _ [_], List.append_assoc, List.singleton_append]
      · rfl

/-- A repetition goes on past a character of its class, if it can go on from there. -/
theorem thenTry_run_cons {c : Char} {rest : List Char} (hrest : a.rest = c :: rest)
    (hc : accept c = true) :
    (run accept false).thenTry next ⟨a, groups⟩
      = ((run accept false).thenTry next ⟨a.past [c] rest, groups⟩).or (next ⟨a, groups⟩) := by
  obtain ⟨index, before, _⟩ := a
  obtain rfl := hrest
  rw [thenTry, ends, runPlaces, if_pos hc, runPlaces_eq]
  simp only [Bool.false_eq_true, ↓reduceIte, List.map_append, List.map_cons, List.map_nil,
    List.findSome?_append, List.findSome?_cons, List.findSome?_nil]
  rw [Place.past_singleton, thenTry, ends, if_neg Bool.false_ne_true]
  cases next _ <;> rfl

/-- A repetition stays where it is, if no character of its class follows. -/
theorem thenTry_run_of_end (hend : a.rest.head?.any accept = false) :
    (run accept false).thenTry next ⟨a, groups⟩ = next ⟨a, groups⟩ := by
  obtain ⟨index, before, rest⟩ := a
  have hplaces : runPlaces accept index before rest [] = [⟨index, before, rest⟩] := by
    cases rest with
    | nil => rfl
    | cons c rest => exact if_neg (Bool.eq_false_iff.mp hend)
  rw [thenTry, ends, hplaces]
  exact List.findSome?_singleton

/-- **A repetition goes as far as it can**, if what comes next can go on from there. -/
theorem thenTry_run_of_isSome (h : (next ⟨farthest accept a, groups⟩).isSome = true) :
    (run accept false).thenTry next ⟨a, groups⟩ = next ⟨farthest accept a, groups⟩ := by
  obtain ⟨others, hplaces, -⟩ := exists_runPlaces accept a.rest a.index a.before []
  obtain ⟨b, hb⟩ := Option.isSome_iff_exists.mp h
  rw [thenTry, ends, if_neg Bool.false_ne_true, hplaces, List.map_cons, List.findSome?_cons, hb]

/-- **A repetition goes as far as it can**, if what comes next cannot start inside it. -/
theorem thenTry_run_of_none
    (h : FailsOn accept next) :
    (run accept false).thenTry next ⟨a, groups⟩ = next ⟨farthest accept a, groups⟩ := by
  obtain ⟨others, hplaces, hothers⟩ := exists_runPlaces accept a.rest a.index a.before []
  rw [thenTry, ends, if_neg Bool.false_ne_true, hplaces, List.append_nil, List.map_cons,
    List.findSome?_cons]
  have hnone : (others.map fun place => (⟨place, groups⟩ : Way)).findSome? next = none := by
    rw [List.findSome?_eq_none_iff, List.forall_mem_map]
    intro place hplace
    obtain ⟨c, rest, hrest, hc⟩ := hothers place hplace
    exact h _ c rest hrest hc
  rw [hnone]
  cases next ⟨farthest accept a, groups⟩ <;> rfl

/-- Where the characters of a class end is where no more of them follow. -/
theorem farthest_eq {passed rest : List Char} (hrest : a.rest = passed ++ rest)
    (hpassed : ∀ c ∈ passed, accept c = true) (hend : rest.head?.any accept = false) :
    farthest accept a = a.past passed rest := by
  have hnone : rest.takeWhile accept = [] ∧ rest.dropWhile accept = rest := by
    cases rest with
    | nil => exact ⟨rfl, rfl⟩
    | cons c rest =>
        have hc : ¬ accept c = true := Bool.eq_false_iff.mp hend
        exact ⟨List.takeWhile_cons_of_neg hc, List.dropWhile_cons_of_neg hc⟩
  rw [farthest, hrest, List.takeWhile_append_of_pos hpassed, List.dropWhile_append_of_pos hpassed,
    hnone.1, hnone.2, List.append_nil]

/-- A fixed text at the start of a sequence is passed. -/
theorem thenTry_sequence_word {ps : List Pattern} {text : String} {rest : List Char}
    (hrest : a.rest = text.toList ++ rest)
    (hb : (sequence ps).thenTry next ⟨a.past text.toList rest, groups⟩ = some b) :
    (sequence (word text :: ps)).thenTry next ⟨a, groups⟩ = some b := by
  rw [thenTry_sequence_cons]
  exact thenTry_literal.mpr ⟨rest, hrest, hb⟩

/-- All blanks at the start of a sequence are passed, if one can go on behind them. -/
theorem thenTry_sequence_blanks {ps : List Pattern} {passed rest : List Char}
    (hrest : a.rest = passed ++ rest) (hpassed : ∀ c ∈ passed, Text.isBlank c = true)
    (hend : rest.head?.any Text.isBlank = false)
    (hb : (sequence ps).thenTry next ⟨a.past passed rest, groups⟩ = some b) :
    (sequence (blanks :: ps)).thenTry next ⟨a, groups⟩ = some b := by
  have hfar := farthest_eq hrest hpassed hend
  rw [thenTry_sequence_cons, blanks, zeroOrMore, thenTry_run_of_isSome, hfar, hb]
  rw [hfar, hb]
  rfl

/-- The text that a repetition passes, if what comes next cannot start inside it. -/
theorem thenTry_run_eq_some_iff
    (h : FailsOn accept next) :
    (run accept false).thenTry next ⟨a, groups⟩ = some b
      ↔ ∃ passed rest, a.rest = passed ++ rest ∧ (∀ c ∈ passed, accept c = true)
        ∧ next ⟨a.past passed rest, groups⟩ = some b := by
  rw [thenTry_run_of_none h]
  constructor
  · intro hb
    exact ⟨_, _, List.takeWhile_append_dropWhile.symm, fun c hc => List.mem_takeWhile_imp hc, hb⟩
  · rintro ⟨passed, rest, hrest, hpassed, hb⟩
    have hend : rest.head?.any accept = false := by
      cases rest with
      | nil => rfl
      | cons c rest =>
          refine Bool.eq_false_iff.mpr fun hc => ?_
          rw [h ⟨a.past passed (c :: rest), groups⟩ c rest rfl hc] at hb
          cases hb
    rwa [farthest_eq hrest hpassed hend]

/-- A repetition of at least one character goes as far as it can, if nothing can fail after it. -/
theorem thenTry_oneOrMore_eq_some_iff (h : ∀ way, (next way).isSome = true) :
    (oneOrMore accept).thenTry next ⟨a, groups⟩ = some b
      ↔ ∃ passed rest, a.rest = passed ++ rest ∧ passed ≠ [] ∧ (∀ c ∈ passed, accept c = true)
        ∧ rest.head?.any accept = false ∧ next ⟨a.past passed rest, groups⟩ = some b := by
  rw [oneOrMore, thenTry_seq, thenTry_one]
  cases hrest : a.rest with
  | nil =>
      refine ⟨nofun, ?_⟩
      rintro ⟨passed, rest, happ, hne, -⟩
      exact absurd (List.append_eq_nil_iff.mp happ.symm).1 hne
  | cons c tail =>
      dsimp only
      constructor
      · intro hb
        split at hb
        · rename_i hc
          rw [thenTry_run_of_isSome (h _), farthest, Place.past_past] at hb
          refine ⟨_, _, ?_, List.cons_ne_nil c (tail.takeWhile accept), ?_, ?_, hb⟩
          · exact congrArg (c :: ·) List.takeWhile_append_dropWhile.symm
          · exact List.forall_mem_cons.mpr ⟨hc, fun d hd => List.mem_takeWhile_imp hd⟩
          · exact head?_rest_farthest accept (a.past [c] tail)
        · cases hb
      · rintro ⟨passed, rest, happ, hne, hpassed, hend, hb⟩
        obtain ⟨d, more, rfl⟩ := List.exists_cons_of_ne_nil hne
        obtain ⟨rfl, rfl⟩ := List.cons.inj happ
        obtain ⟨hc, hmore⟩ := List.forall_mem_cons.mp hpassed
        rw [if_pos hc, thenTry_run_of_isSome (h _), farthest_eq rfl hmore hend, Place.past_past]
        exact hb

end Pattern

end FailureTriage
