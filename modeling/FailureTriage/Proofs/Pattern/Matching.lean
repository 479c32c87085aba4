import FailureTriage.Pattern.Search
import FailureTriage.Proofs.Text.Cutting
import Mathlib.Logic.Relation

/-!
# What patterns match

Which parts of a text a pattern matches, said without an order of preference and without a limit
on repetitions, and where the search for a pattern finds it.

* `Pattern.Matches`: the places between which a pattern matches.
* `Pattern.Spells`: the texts that a pattern matches wherever they stand.
* `Pattern.StartsIn`: the characters that a match can start with.
* `Pattern.mem_ends_iff`: the ways to match are found, all of them and no others.
* `Pattern.MatchesAt`, `Pattern.IsLeftmost`: where in a text a pattern matches.
* `Pattern.find?_eq_none_iff`, `Pattern.start_of_find?`: what a search finds.
-/

namespace FailureTriage

/-- The place in a text after so many characters. -/
def Place.inText (text : List Char) (index : Nat) : Place :=
  ⟨index, (text.take index).getLast?, text.drop index⟩

/-- Whether one character of a class stands between two places. -/
def Place.Passes (accept : Char → Bool) (a z : Place) : Prop :=
  ∃ c rest, a.rest = c :: rest ∧ accept c = true ∧ z = ⟨a.index + 1, some c, rest⟩

/-- The place behind a text that has been passed, with the rest of the text. -/
def Place.past (a : Place) (passed rest : List Char) : Place :=
  ⟨a.index + passed.length, passed.getLast?.or a.before, rest⟩

namespace Place

theorem past_past (a : Place) (first second rest rest' : List Char) :
    (a.past first rest').past second rest = a.past (first ++ second) rest := by
  simp only [past, List.length_append, Nat.add_assoc, List.getLast?_append, Option.or_assoc]

theorem past_index (a : Place) (passed rest : List Char) :
    (a.past passed rest).index = a.index + passed.length := rfl

/-- One character is passed. -/
theorem past_singleton (a : Place) (c : Char) (rest : List Char) :
    a.past [c] rest = ⟨a.index + 1, some c, rest⟩ := rfl

end Place

namespace Pattern

variable {p : Pattern} {a b z : Place} {text : List Char} {position : Nat}

/-- Whether a pattern matches what stands between two places. -/
def Matches : Pattern → Place → Place → Prop
  | .empty, a, z => z = a
  | .one accept, a, z => a.Passes accept z
  | .run accept _, a, z => Relation.ReflTransGen (Place.Passes accept) a z
  | .seq first second, a, z => ∃ b, first.Matches a b ∧ second.Matches b z
  | .alt first second, a, z => first.Matches a z ∨ second.Matches a z
  | .many body, a, z => Relation.ReflTransGen body.Matches a z
  | .group _ body, a, z => body.Matches a z
  | .textStart, a, z => z = a ∧ a.before = none
  | .lineStart, a, z => z = a ∧ (a.before = none ∨ a.before = some '\n')
  | .wordEdge, a, z => z = a ∧ a.before.any Text.isWord ≠ a.rest.head?.any Text.isWord

/-! ## Matches go forward -/

theorem Passes.shorter {accept : Char → Bool} (h : a.Passes accept z) :
    z.rest.length < a.rest.length := by
  obtain ⟨c, rest, hrest, -, rfl⟩ := h
  rw [hrest, List.length_cons]
  exact Nat.lt_succ_self _

/-- Steps that go forward or stay do so together. -/
theorem shorter_of_steps {step : Place → Place → Prop}
    (hstep : ∀ a z, step a z → z = a ∨ z.rest.length < a.rest.length)
    (h : Relation.ReflTransGen step a z) : z = a ∨ z.rest.length < a.rest.length := by
  induction h with
  | refl => exact Or.inl rfl
  | tail _ hlast ih =>
      rcases hstep _ _ hlast with rfl | hlast
      · exact ih
      · rcases ih with rfl | ih
        · exact Or.inr hlast
        · exact Or.inr (Nat.lt_trans hlast ih)

/-- **A match** ends where it starts, or farther on in the text. -/
theorem Matches.shorter (h : p.Matches a z) : z = a ∨ z.rest.length < a.rest.length := by
  induction p generalizing a z with
  | empty => exact Or.inl h
  | one accept => exact Or.inr (Passes.shorter h)
  | run accept lazily => exact shorter_of_steps (fun _ _ hstep => Or.inr (Passes.shorter hstep)) h
  | seq first second ih ih' =>
      obtain ⟨b, hfirst, hsecond⟩ := h
      rcases ih hfirst with rfl | hfirst
      · exact ih' hsecond
      · rcases ih' hsecond with rfl | hsecond
        · exact Or.inr hfirst
        · exact Or.inr (Nat.lt_trans hsecond hfirst)
  | alt first second ih ih' => exact h.elim ih ih'
  | many body ih => exact shorter_of_steps (fun _ _ hstep => ih hstep) h
  | group number body ih => exact ih h
  | textStart => exact Or.inl h.1
  | lineStart => exact Or.inl h.1
  | wordEdge => exact Or.inl h.1

/-! ## Patterns that look at their own text only -/

/-- Whether a pattern matches the texts of a class, wherever they stand. -/
def Spells (p : Pattern) (texts : List Char → Prop) : Prop :=
  ∀ a z, p.Matches a z
    ↔ ∃ passed rest, a.rest = passed ++ rest ∧ texts passed ∧ z = a.past passed rest

section

variable {q : Pattern} {texts others : List Char → Prop} {accept : Char → Bool}

/-- A text of the class is matched. -/
theorem Spells.matches_past (h : p.Spells texts) {passed rest : List Char}
    (hpassed : texts passed) (hrest : a.rest = passed ++ rest) :
    p.Matches a (a.past passed rest) :=
  (h a _).mpr ⟨passed, rest, hrest, hpassed, rfl⟩

theorem Spells.congr (h : p.Spells texts) (hsame : ∀ text, texts text ↔ others text) :
    p.Spells others := by
  rwa [← show texts = others from funext fun text => propext (hsame text)]

theorem spells_empty : empty.Spells fun text => text = [] := by
  intro a z
  constructor
  · exact fun h => ⟨[], a.rest, rfl, rfl, h⟩
  · rintro ⟨passed, rest, hrest, rfl, rfl⟩
    rw [← List.nil_append rest, ← hrest]
    rfl

theorem spells_one : (one accept).Spells fun text => ∃ c, text = [c] ∧ accept c = true := by
  intro a z
  constructor
  · rintro ⟨c, rest, hrest, hc, hz⟩
    exact ⟨[c], rest, hrest, ⟨c, rfl, hc⟩, hz⟩
  · rintro ⟨passed, rest, hrest, ⟨c, rfl, hc⟩, hz⟩
    exact ⟨c, rest, hrest, hc, hz⟩

theorem Spells.seq (hp : p.Spells texts) (hq : q.Spells others) :
    (Pattern.seq p q).Spells fun text => ∃ u v, text = u ++ v ∧ texts u ∧ others v := by
  intro a z
  constructor
  · rintro ⟨b, hfirst, hsecond⟩
    obtain ⟨u, rest, hrest, hu, rfl⟩ := (hp a b).mp hfirst
    obtain ⟨v, tail, rfl, hv, rfl⟩ := (hq _ z).mp hsecond
    refine ⟨u ++ v, tail, ?_, ⟨u, v, rfl, hu, hv⟩, Place.past_past ..⟩
    rw [hrest, List.append_assoc]
  · rintro ⟨passed, tail, hrest, ⟨u, v, rfl, hu, hv⟩, rfl⟩
    rw [List.append_assoc] at hrest
    refine ⟨a.past u (v ++ tail), (hp _ _).mpr ⟨u, _, hrest, hu, rfl⟩, ?_⟩
    exact (hq _ _).mpr ⟨v, tail, rfl, hv, (Place.past_past ..).symm⟩

theorem Spells.alt (hp : p.Spells texts) (hq : q.Spells others) :
    (Pattern.alt p q).Spells fun text => texts text ∨ others text := by
  intro a z
  rw [Matches, hp a z, hq a z]
  constructor
  · rintro (⟨passed, rest, hrest, h, hz⟩ | ⟨passed, rest, hrest, h, hz⟩)
    · exact ⟨passed, rest, hrest, Or.inl h, hz⟩
    · exact ⟨passed, rest, hrest, Or.inr h, hz⟩
  · rintro ⟨passed, rest, hrest, h | h, hz⟩
    · exact Or.inl ⟨passed, rest, hrest, h, hz⟩
    · exact Or.inr ⟨passed, rest, hrest, h, hz⟩

/-- Repetitions of characters of a class. -/
theorem spells_run {lazily : Bool} :
    (run accept lazily).Spells fun text => ∀ c ∈ text, accept c = true := by
  intro a z
  constructor
  · -- the steps are added to the text one by one at its end
    intro h
    induction h with
    | refl => exact ⟨[], a.rest, rfl, List.forall_mem_nil _, rfl⟩
    | tail _ hlast ih =>
        obtain ⟨passed, rest, hrest, hpassed, rfl⟩ := ih
        obtain ⟨c, tail, rfl, hc, rfl⟩ := hlast
        refine ⟨passed ++ [c], tail, ?_, ?_, ?_⟩
        · rw [hrest, List.append_assoc]
          rfl
        · exact List.forall_mem_append.mpr ⟨hpassed, List.forall_mem_singleton.mpr hc⟩
        · rw [← Place.past_past a passed [c] tail (c :: tail)]
          rfl
  · rintro ⟨passed, rest, hrest, hpassed, rfl⟩
    induction passed generalizing a with
    | nil =>
        rw [← List.nil_append rest, ← hrest]
        exact .refl
    | cons c passed ih =>
        obtain ⟨hc, hpassed⟩ := List.forall_mem_cons.mp hpassed
        refine .head (b := a.past [c] (passed ++ rest)) ⟨c, passed ++ rest, hrest, hc, rfl⟩ ?_
        have hmore := ih (a.past [c] (passed ++ rest)) rfl hpassed
        rwa [Place.past_past] at hmore

theorem spells_oneOrMore :
    (oneOrMore accept).Spells fun text => text ≠ [] ∧ ∀ c ∈ text, accept c = true := by
  refine (spells_one.seq spells_run).congr fun text => ?_
  constructor
  · rintro ⟨_, v, rfl, ⟨c, rfl, hc⟩, hv⟩
    exact ⟨List.cons_ne_nil c v, List.forall_mem_cons.mpr ⟨hc, hv⟩⟩
  · rintro ⟨hne, hall⟩
    obtain ⟨c, v, rfl⟩ := List.exists_cons_of_ne_nil hne
    obtain ⟨hc, hv⟩ := List.forall_mem_cons.mp hall
    exact ⟨[c], v, rfl, ⟨c, rfl, hc⟩, hv⟩

/-- Repetitions of a pattern that looks at its own text only. -/
theorem Spells.many (h : p.Spells texts) :
    (Pattern.many p).Spells fun text => ∃ parts : List (List Char), text = parts.flatten
      ∧ ∀ part ∈ parts, texts part := by
  intro a z
  constructor
  · -- the repetitions are added to the text one by one at its end
    intro hsteps
    induction hsteps with
    | refl => exact ⟨[], a.rest, rfl, ⟨[], rfl, List.forall_mem_nil _⟩, rfl⟩
    | tail _ hlast ih =>
        obtain ⟨_, rest, hrest, ⟨parts, rfl, hparts⟩, rfl⟩ := ih
        obtain ⟨part, tail, rfl, hpart, rfl⟩ := (h _ _).mp hlast
        refine ⟨parts.flatten ++ part, tail, ?_, ⟨parts ++ [part], ?_, ?_⟩, Place.past_past ..⟩
        · rw [hrest, List.append_assoc]
        · rw [List.flatten_concat]
        · exact List.forall_mem_append.mpr ⟨hparts, List.forall_mem_singleton.mpr hpart⟩
  · rintro ⟨_, rest, hrest, ⟨parts, rfl, hparts⟩, rfl⟩
    induction parts generalizing a with
    | nil =>
        rw [List.flatten_nil] at hrest ⊢
        rw [← List.nil_append rest, ← hrest]
        exact .refl
    | cons part parts ih =>
        obtain ⟨hpart, hparts⟩ := List.forall_mem_cons.mp hparts
        rw [List.flatten_cons, List.append_assoc] at hrest
        refine .head (b := a.past part (parts.flatten ++ rest)) ?_ ?_
        · exact (h _ _).mpr ⟨part, _, hrest, hpart, rfl⟩
        · have hmore := ih (a.past part (parts.flatten ++ rest)) hparts rfl
          rwa [Place.past_past] at hmore

theorem spells_opt {p : Pattern} {texts : List Char → Prop} (h : p.Spells texts) :
    (opt p).Spells fun text => texts text ∨ text = [] :=
  h.alt spells_empty

/-- One pattern after the other is matched one after the other. -/
theorem matches_sequence_cons {ps : List Pattern} {a z : Place} :
    (sequence (p :: ps)).Matches a z ↔ ∃ b, p.Matches a b ∧ (sequence ps).Matches b z := by
  cases ps with
  | cons q ps => exact Iff.rfl
  | nil =>
      constructor
      · exact fun h => ⟨z, h, rfl⟩
      · rintro ⟨b, h, rfl⟩
        exact h

theorem matches_sequence_append {ps qs : List Pattern} {a z : Place} :
    (sequence (ps ++ qs)).Matches a z
      ↔ ∃ b, (sequence ps).Matches a b ∧ (sequence qs).Matches b z := by
  induction ps generalizing a with
  | nil =>
      constructor
      · exact fun h => ⟨a, rfl, h⟩
      · rintro ⟨b, rfl, h⟩
        exact h
  | cons p ps ih =>
      simp only [List.cons_append, matches_sequence_cons, ih]
      constructor
      · rintro ⟨b, hp, c, hps, hqs⟩
        exact ⟨c, ⟨b, hp, hps⟩, hqs⟩
      · rintro ⟨c, ⟨b, hp, hps⟩, hqs⟩
        exact ⟨b, hp, c, hps, hqs⟩

theorem Spells.sequence_cons {ps : List Pattern} (hp : p.Spells texts)
    (hps : (sequence ps).Spells others) :
    (sequence (p :: ps)).Spells fun text => ∃ u v, text = u ++ v ∧ texts u ∧ others v :=
  fun a z => matches_sequence_cons.trans (hp.seq hps a z)

theorem spells_literal (text : List Char) : (literal text).Spells fun other => other = text := by
  induction text with
  | nil => exact spells_empty
  | cons c text ih =>
      refine (Spells.sequence_cons spells_one ih).congr fun other => ?_
      constructor
      · rintro ⟨_, _, rfl, ⟨d, rfl, hd⟩, rfl⟩
        rw [eq_of_beq hd]
        rfl
      · rintro rfl
        exact ⟨[c], text, rfl, ⟨c, rfl, beq_self_eq_true c⟩, rfl⟩

theorem spells_blanks : blanks.Spells fun text => ∀ c ∈ text, Text.isBlank c = true :=
  spells_run

theorem spells_blanks1 :
    blanks1.Spells fun text => text ≠ [] ∧ ∀ c ∈ text, Text.isBlank c = true :=
  spells_oneOrMore

/-- A sequence may have one pattern only. -/
theorem Spells.sequence_singleton {p : Pattern} {texts : List Char → Prop} (h : p.Spells texts) :
    (sequence [p]).Spells texts :=
  h

theorem spells_word (text : String) : (word text).Spells fun other => other = text.toList :=
  spells_literal text.toList

/-- Characters of a class between two fixed texts. -/
theorem spells_between (first last : String) {lazily : Bool} :
    (sequence [word first, .run accept lazily, word last]).Spells fun text =>
      ∃ inner, text = first.toList ++ (inner ++ last.toList) ∧ ∀ c ∈ inner, accept c = true := by
  refine ((spells_word first).sequence_cons <| spells_run.sequence_cons
    (spells_word last).sequence_singleton).congr fun text => ?_
  constructor
  · rintro ⟨_, _, rfl, rfl, inner, _, rfl, hinner, rfl⟩
    exact ⟨inner, rfl, hinner⟩
  · rintro ⟨inner, rfl, hinner⟩
    exact ⟨_, _, rfl, rfl, inner, _, rfl, hinner, rfl⟩

/-- One of some words is matched. -/
theorem spells_anyOf_word (words : List String) :
    (anyOf (words.map word)).Spells fun text => ∃ known ∈ words, text = known.toList := by
  induction words with
  | nil => exact spells_one.congr fun text => by simp
  | cons first words ih =>
      cases words with
      | nil => exact (spells_word first).congr fun text => by simp
      | cons second words =>
          refine ((spells_word first).alt ih).congr fun text => ?_
          rw [List.exists_mem_cons_iff (a := first)]

end

/-! ## Where matches start -/

section

variable {q : Pattern} {accept : Char → Prop}

/-- Whether every match of a pattern starts with a character of a class. -/
def StartsIn (p : Pattern) (accept : Char → Prop) : Prop :=
  ∀ a z, p.Matches a z → ∃ c, a.rest.head? = some c ∧ accept c

theorem startsIn_one {test : Char → Bool} (h : ∀ c, test c = true → accept c) :
    (one test).StartsIn accept := by
  rintro a z ⟨c, rest, hrest, hc, -⟩
  exact ⟨c, hrest ▸ rfl, h c hc⟩

theorem StartsIn.seq (h : p.StartsIn accept) (q : Pattern) : (Pattern.seq p q).StartsIn accept := by
  rintro a z ⟨b, hfirst, -⟩
  exact h a b hfirst

theorem StartsIn.alt (hp : p.StartsIn accept) (hq : q.StartsIn accept) :
    (Pattern.alt p q).StartsIn accept := by
  rintro a z (hfirst | hsecond)
  · exact hp a z hfirst
  · exact hq a z hsecond

/-- Characters of a class are skipped, or one of them comes first. -/
theorem StartsIn.run_seq {test : Char → Bool} {lazily : Bool}
    (hp : ∀ c, test c = true → accept c) (hq : q.StartsIn accept) :
    (Pattern.seq (.run test lazily) q).StartsIn accept := by
  rintro a z ⟨b, hsteps, hlast⟩
  rcases Relation.ReflTransGen.cases_head hsteps with rfl | ⟨next, hfirst, -⟩
  · exact hq a z hlast
  · exact startsIn_one hp a next hfirst

theorem StartsIn.sequence (h : p.StartsIn accept) (ps : List Pattern) :
    (Pattern.sequence (p :: ps)).StartsIn accept := by
  cases ps with
  | nil => exact h
  | cons q ps => exact h.seq _

theorem startsIn_anyOf {ps : List Pattern} (h : ∀ p ∈ ps, p.StartsIn accept) :
    (anyOf ps).StartsIn accept := by
  induction ps with
  | nil => exact startsIn_one fun c hc => nomatch hc
  | cons p ps ih =>
      have hfirst := h p List.mem_cons_self
      cases ps with
      | nil => exact hfirst
      | cons q ps => exact hfirst.alt (ih fun r hr => h r (List.mem_cons_of_mem _ hr))

theorem startsIn_word {text : String} {c : Char} (hhead : text.toList.head? = some c)
    (hc : accept c) : (word text).StartsIn accept := by
  obtain ⟨rest, htext⟩ := List.head?_eq_some_iff.mp hhead
  rw [word, literal, htext, List.map_cons]
  exact (startsIn_one fun d hd => eq_of_beq hd ▸ hc).sequence _

end

/-! ## All ways are found -/

/-- The places after any number of characters of a class. -/
theorem mem_runPlaces {accept : Char → Bool} {rest : List Char} {index : Nat}
    {before : Option Char} {found : List Place} :
    z ∈ runPlaces accept index before rest found
      ↔ Relation.ReflTransGen (Place.Passes accept) ⟨index, before, rest⟩ z ∨ z ∈ found := by
  induction rest generalizing index before found with
  | nil =>
      have hstay : Relation.ReflTransGen (Place.Passes accept) ⟨index, before, []⟩ z
          ↔ z = ⟨index, before, []⟩ := by
        constructor
        · intro h
          rcases Relation.ReflTransGen.cases_head h with rfl | ⟨b, ⟨c, rest, hrest, -⟩, -⟩
          · rfl
          · cases hrest
        · rintro rfl
          exact .refl
      rw [runPlaces, List.mem_cons, hstay]
  | cons c rest ih =>
      have hsteps : Relation.ReflTransGen (Place.Passes accept) ⟨index, before, c :: rest⟩ z
          ↔ z = ⟨index, before, c :: rest⟩ ∨ accept c = true
            ∧ Relation.ReflTransGen (Place.Passes accept) ⟨index + 1, some c, rest⟩ z := by
        constructor
        · intro h
          rcases Relation.ReflTransGen.cases_head h with rfl | ⟨b, ⟨d, tail, hrest, hd, rfl⟩, h⟩
          · exact Or.inl rfl
          · obtain ⟨rfl, rfl⟩ := List.cons.inj hrest
            exact Or.inr ⟨hd, h⟩
        · rintro (rfl | ⟨hc, h⟩)
          · exact .refl
          · exact .head ⟨c, rest, rfl, hc, rfl⟩ h
      rw [runPlaces, hsteps]
      split
      · rename_i hc
        rw [ih, List.mem_cons, and_iff_right hc, or_left_comm, or_assoc]
      · rename_i hc
        rw [List.mem_cons, or_iff_left fun h : accept c = true ∧ _ => hc h.1]

/-- A repetition that is found is one. -/
theorem steps_of_mem_repeatWays {step : Way → List Way} {body : Place → Place → Prop}
    (hstep : ∀ way, ∀ next ∈ step way, body way.place next.place) {fuel : List Char}
    {way last : Way} (h : last ∈ repeatWays step fuel way) :
    Relation.ReflTransGen body way.place last.place := by
  induction fuel generalizing way with
  | nil =>
      rw [List.mem_singleton.mp h]
  | cons c fuel ih =>
      rcases List.mem_append.mp h with h | h
      · obtain ⟨next, hnext, hlast⟩ := List.mem_flatMap.mp h
        exact .head (hstep way next hnext) (ih hlast)
      · rw [List.mem_singleton.mp h]

/-- Every repetition is found: one that stays where it is may be left out, and of the others there
    are no more than characters. -/
theorem exists_mem_repeatWays {step : Way → List Way} {body : Place → Place → Prop}
    (hstep : ∀ a z groups, body a z → ∃ groups', ⟨z, groups'⟩ ∈ step ⟨a, groups⟩)
    (hshorter : ∀ a z, body a z → z = a ∨ z.rest.length < a.rest.length)
    (h : Relation.ReflTransGen body a z) {fuel : List Char} (hfuel : a.rest.length ≤ fuel.length)
    (groups : List (Nat × Span)) :
    ∃ groups', ⟨z, groups'⟩ ∈ repeatWays step fuel ⟨a, groups⟩ := by
  induction h using Relation.ReflTransGen.head_induction_on generalizing fuel groups with
  | refl =>
      refine ⟨groups, ?_⟩
      cases fuel with
      | nil => exact List.mem_singleton_self _
      | cons c fuel => exact List.mem_append_right _ (List.mem_singleton_self _)
  | head hfirst _ ih =>
      rcases hshorter _ _ hfirst with rfl | hlt
      · exact ih hfuel groups
      · cases fuel with
        | nil => exact absurd (Nat.lt_of_lt_of_le hlt hfuel) (Nat.not_lt_zero _)
        | cons c fuel =>
            obtain ⟨groups', hnext⟩ := hstep _ _ groups hfirst
            obtain ⟨groups'', hlast⟩ :=
              @ih fuel (Nat.le_of_lt_succ (Nat.lt_of_lt_of_le hlt hfuel)) groups'
            exact ⟨groups'', List.mem_append_left _ (List.mem_flatMap.mpr ⟨_, hnext, hlast⟩)⟩

/-- A place is at the edge of a word if just one of the characters beside it is part of a word. -/
theorem ends_wordEdge (way : Way) :
    wordEdge.ends way
      = if way.place.before.any Text.isWord != way.place.rest.head?.any Text.isWord then [way]
        else [] := by
  obtain ⟨⟨index, before, rest⟩, groups⟩ := way
  cases before <;> cases rest <;> rfl

/-- **All ways are found**, and no others. -/
theorem mem_ends_iff (groups : List (Nat × Span)) :
    (∃ groups', ⟨z, groups'⟩ ∈ p.ends ⟨a, groups⟩) ↔ p.Matches a z := by
  induction p generalizing a z groups with
  | empty => simp [ends, Matches]
  | one accept =>
      obtain ⟨index, before, rest⟩ := a
      cases rest with
      | nil => simp [ends, Matches, Place.Passes]
      | cons c rest =>
          by_cases hc : accept c = true
          · simp only [ends, if_pos hc, Matches]
            constructor
            · rintro ⟨groups', hway⟩
              obtain ⟨rfl, -⟩ := Way.mk.inj (List.mem_singleton.mp hway)
              exact ⟨c, rest, rfl, hc, rfl⟩
            · rintro ⟨d, tail, hrest, -, rfl⟩
              obtain ⟨rfl, rfl⟩ := List.cons.inj hrest
              exact ⟨groups, List.mem_singleton_self _⟩
          · simp [ends, Matches, Place.Passes, hc]
  | run accept lazily =>
      have hfound : z ∈ runPlaces accept a.index a.before a.rest []
          ↔ Relation.ReflTransGen (Place.Passes accept) a z := by
        rw [mem_runPlaces, or_iff_left List.not_mem_nil]
      rw [Matches, ← hfound, ends]
      constructor
      · rintro ⟨groups', hway⟩
        obtain ⟨y, hy, heq⟩ := List.mem_map.mp hway
        obtain ⟨rfl, -⟩ := Way.mk.inj heq
        cases lazily with
        | false => exact hy
        | true => exact List.mem_reverse.mp hy
      · intro hz
        refine ⟨groups, List.mem_map.mpr ⟨z, ?_, rfl⟩⟩
        cases lazily with
        | false => exact hz
        | true => exact List.mem_reverse.mpr hz
  | seq first second ih ih' =>
      constructor
      · rintro ⟨groups', hway⟩
        obtain ⟨⟨b, groupsb⟩, hfirst, hsecond⟩ := List.mem_flatMap.mp hway
        exact ⟨b, (ih groups).mp ⟨groupsb, hfirst⟩, (ih' groupsb).mp ⟨groups', hsecond⟩⟩
      · rintro ⟨b, hfirst, hsecond⟩
        obtain ⟨groupsb, hfirst⟩ := (ih groups).mpr hfirst
        obtain ⟨groups', hsecond⟩ := (ih' groupsb).mpr hsecond
        exact ⟨groups', List.mem_flatMap.mpr ⟨_, hfirst, hsecond⟩⟩
  | alt first second ih ih' =>
      simp only [ends, List.mem_append, exists_or, ih, ih', Matches]
  | many body ih =>
      constructor
      · rintro ⟨groups', hway⟩
        exact steps_of_mem_repeatWays (fun way next hnext => (ih way.groups).mp ⟨_, hnext⟩) hway
      · intro h
        exact exists_mem_repeatWays (fun b y groupsb hstep => (ih groupsb).mpr hstep)
          (fun b y hstep => hstep.shorter) h (Nat.le_refl _) groups
  | group number body ih =>
      rw [Matches, ← ih groups]
      constructor
      · rintro ⟨groups', hway⟩
        obtain ⟨⟨y, groupsy⟩, hbody, heq⟩ := List.mem_map.mp hway
        obtain ⟨rfl, -⟩ := Way.mk.inj heq
        exact ⟨groupsy, hbody⟩
      · rintro ⟨groupsz, hbody⟩
        exact ⟨_, List.mem_map.mpr ⟨_, hbody, rfl⟩⟩
  | textStart =>
      cases hbefore : a.before with
      | none => simp [ends, Matches, hbefore]
      | some c => simp [ends, Matches, hbefore]
  | lineStart =>
      cases hbefore : a.before with
      | none => simp [ends, Matches, hbefore]
      | some c =>
          by_cases hc : c = '\n'
          · simp [ends, Matches, hbefore, hc]
          · simp [ends, Matches, hbefore, hc]
  | wordEdge =>
      rw [ends_wordEdge, Matches]
      by_cases hedge : a.before.any Text.isWord = a.rest.head?.any Text.isWord
      · simp [hedge]
      · simp [hedge]

/-! ## The leftmost match -/

/-- Whether a match of a pattern starts after so many characters of a text. -/
def MatchesAt (p : Pattern) (text : List Char) (position : Nat) : Prop :=
  position ≤ text.length ∧ ∃ z, p.Matches (Place.inText text position) z

/-- Whether a match of a pattern starts after so many characters of a text, and none before. -/
def IsLeftmost (p : Pattern) (text : List Char) (position : Nat) : Prop :=
  p.MatchesAt text position ∧ ∀ earlier < position, ¬ p.MatchesAt text earlier

theorem inText_append (done rest : List Char) :
    Place.inText (done ++ rest) done.length = ⟨done.length, done.getLast?, rest⟩ := by
  rw [Place.inText, List.take_left, List.drop_left]

/-- A match is the leftmost one if no match can start with a character before it. -/
theorem StartsIn.isLeftmost {accept : Char → Prop} (h : p.StartsIn accept) {done rest : List Char}
    (hdone : ∀ c ∈ done, ¬ accept c) {z : Place}
    (hmatch : p.Matches ⟨done.length, done.getLast?, rest⟩ z) :
    p.IsLeftmost (done ++ rest) done.length := by
  refine ⟨⟨?_, z, by rwa [inText_append]⟩, fun earlier hlt => ?_⟩
  · rw [List.length_append]
    exact Nat.le_add_right _ _
  rintro ⟨-, z, hz⟩
  obtain ⟨c, hhead, hc⟩ := h _ z hz
  have hhead : ((done ++ rest).drop earlier).head? = some c := hhead
  rw [List.head?_drop, List.getElem?_append_left hlt] at hhead
  exact hdone c (List.mem_of_getElem? hhead) hc

/-- A sequence that begins with a fixed text matches only where that text starts. -/
theorem startsAt_of_matchesAt {fixed : String} {ps : List Pattern} {text : List Char}
    {position : Nat} (h : (sequence (word fixed :: ps)).MatchesAt text position) :
    Text.StartsAt fixed.toList text position := by
  obtain ⟨-, z, hz⟩ := h
  obtain ⟨b, hfixed, -⟩ := matches_sequence_cons.mp hz
  obtain ⟨_, rest, hrest, rfl, -⟩ := (spells_word fixed _ b).mp hfixed
  exact ⟨rest, hrest.symm⟩

/-- Only at the start of a text nothing stands before. -/
theorem start_of_inText {text : List Char} {position : Nat} (hle : position ≤ text.length)
    (h : (Place.inText text position).before = none) : position = 0 := by
  have htake : text.take position = [] := List.getLast?_eq_none_iff.mp h
  have hlength := congrArg List.length htake
  rwa [List.length_take, Nat.min_eq_left hle] at hlength

/-- What matches at a place starts there. -/
theorem start_of_matchAt? {done rest : List Char} {m : Match}
    (h : p.matchAt? ⟨done.length, done.getLast?, rest⟩ = some m) :
    m.span.start = Place.inText (done ++ rest) done.length
      ∧ p.MatchesAt (done ++ rest) done.length := by
  obtain ⟨way, hway, rfl⟩ := Option.map_eq_some_iff.mp h
  rw [MatchesAt, inText_append]
  refine ⟨rfl, ?_, way.place, (mem_ends_iff []).mp ⟨way.groups, List.mem_of_head? hway⟩⟩
  rw [List.length_append]
  exact Nat.le_add_right _ _

/-- Where a pattern matches, some match is preferred. -/
theorem exists_matchAt?_of_matches (h : p.Matches a z) : ∃ m, p.matchAt? a = some m := by
  obtain ⟨groups, hway⟩ := (mem_ends_iff []).mpr h
  cases hm : p.matchAt? a with
  | some m => exact ⟨m, rfl⟩
  | none =>
      rw [matchAt?, Option.map_eq_none_iff, List.head?_eq_none_iff] at hm
      exact absurd hway (hm ▸ List.not_mem_nil)

theorem not_matchesAt_of_matchAt? {done rest : List Char}
    (h : p.matchAt? ⟨done.length, done.getLast?, rest⟩ = none) :
    ¬ p.MatchesAt (done ++ rest) done.length := by
  rintro ⟨-, z, hz⟩
  rw [inText_append] at hz
  obtain ⟨m, hm⟩ := exists_matchAt?_of_matches hz
  exact nomatch h.symm.trans hm

/-- Going on past a character, the search starts after one more of the text. -/
theorem findFrom?_cons (done : List Char) (c : Char) (rest : List Char) :
    p.findFrom? done.length done.getLast? (c :: rest)
      = (p.matchAt? ⟨done.length, done.getLast?, c :: rest⟩).or
          (p.findFrom? (done ++ [c]).length (done ++ [c]).getLast? rest) := by
  rw [findFrom?, List.length_append, List.getLast?_concat]
  cases p.matchAt? ⟨done.length, done.getLast?, c :: rest⟩ <;> rfl

theorem findFrom?_nil (done : List Char) :
    p.findFrom? done.length done.getLast? [] = p.matchAt? ⟨done.length, done.getLast?, []⟩ := by
  rw [findFrom?]
  cases p.matchAt? ⟨done.length, done.getLast?, []⟩ <;> rfl

/-- Where nothing is found from a place on, no match starts there or later. -/
theorem not_matchesAt_of_findFrom? {done rest : List Char}
    (h : p.findFrom? done.length done.getLast? rest = none) (hlate : done.length ≤ position) :
    ¬ p.MatchesAt (done ++ rest) position := by
  induction rest generalizing done with
  | nil =>
      rw [findFrom?_nil] at h
      intro hmatch
      have hle := hmatch.1
      rw [List.append_nil] at hle
      obtain rfl := Nat.le_antisymm hle hlate
      exact not_matchesAt_of_matchAt? h hmatch
  | cons c rest ih =>
      rw [findFrom?_cons, Option.or_eq_none_iff] at h
      rcases Nat.eq_or_lt_of_le hlate with rfl | hlater
      · exact not_matchesAt_of_matchAt? h.1
      · rw [List.append_cons]
        refine ih h.2 ?_
        rw [List.length_append]
        exact hlater

/-- What is found from a place on starts there or later, and no match starts between. -/
theorem start_of_findFrom? {done rest : List Char} {m : Match}
    (h : p.findFrom? done.length done.getLast? rest = some m) :
    ∃ position, m.span.start = Place.inText (done ++ rest) position
      ∧ p.MatchesAt (done ++ rest) position
      ∧ ∀ earlier, done.length ≤ earlier → earlier < position
        → ¬ p.MatchesAt (done ++ rest) earlier := by
  induction rest generalizing done with
  | nil =>
      rw [findFrom?_nil] at h
      obtain ⟨hstart, hmatch⟩ := start_of_matchAt? h
      exact ⟨_, hstart, hmatch, fun earlier hge hlt => absurd hge (Nat.not_le.mpr hlt)⟩
  | cons c rest ih =>
      rw [findFrom?_cons, Option.or_eq_some_iff] at h
      rcases h with h | ⟨hnone, h⟩
      · obtain ⟨hstart, hmatch⟩ := start_of_matchAt? h
        exact ⟨_, hstart, hmatch, fun earlier hge hlt => absurd hge (Nat.not_le.mpr hlt)⟩
      · obtain ⟨position, hstart, hmatch, hfirst⟩ := ih h
        rw [← List.append_cons] at hstart hmatch hfirst
        refine ⟨position, hstart, hmatch, fun earlier hge hlt => ?_⟩
        rcases Nat.eq_or_lt_of_le hge with rfl | hlater
        · exact not_matchesAt_of_matchAt? hnone
        · refine hfirst earlier ?_ hlt
          rw [List.length_append]
          exact hlater

/-- **A search fails** only where the pattern matches nowhere. -/
theorem find?_eq_none_iff : p.find? text = none ↔ ∀ position, ¬ p.MatchesAt text position := by
  constructor
  · intro h position
    exact @not_matchesAt_of_findFrom? p position [] text h (Nat.zero_le _)
  · intro h
    cases hfind : p.find? text with
    | none => rfl
    | some m =>
        obtain ⟨position, -, hmatch, -⟩ := @start_of_findFrom? p [] text m hfind
        exact absurd hmatch (h position)

/-- **A search finds** the leftmost place where the pattern matches. -/
theorem start_of_find? {m : Match} (h : p.find? text = some m) :
    ∃ position, m.span.start = Place.inText text position ∧ p.IsLeftmost text position := by
  obtain ⟨position, hstart, hmatch, hfirst⟩ := @start_of_findFrom? p [] text m h
  exact ⟨position, hstart, hmatch, fun earlier hlt => hfirst earlier (Nat.zero_le _) hlt⟩

/-- **A pattern occurs** in a text exactly if it matches somewhere. -/
theorem occursIn_iff : p.occursIn text = true ↔ ∃ position, p.MatchesAt text position := by
  rw [occursIn, Option.isSome_iff_ne_none, Ne, find?_eq_none_iff, Classical.not_forall_not]

/-- There is only one leftmost match. -/
theorem IsLeftmost.unique {other : Nat} (h : p.IsLeftmost text position)
    (hother : p.IsLeftmost text other) : position = other := by
  rcases Nat.lt_trichotomy position other with hlt | heq | hlt
  · exact absurd h.1 (hother.2 position hlt)
  · exact heq
  · exact absurd hother.1 (h.2 other hlt)

end Pattern

end FailureTriage
