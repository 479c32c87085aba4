import FailureTriage.Proofs.Pattern.Preferred

/-!
# Groups of patterns

Which texts the groups of a pattern keep.

* `isPlain`, `thenTry_eq_some_of_spells`: a pattern without groups is passed like a text.
* `thenTry_run_of_longest`: how far a repetition goes where what comes next may fail.
* `bodies`, `exists_body_of_group?`: a group keeps a text that its body matches.
-/

namespace FailureTriage

/-- What is passed from a place on is the text between the two places. -/
theorem Span.text_past {a : Place} {passed rest : List Char} (h : a.rest = passed ++ rest) :
    (Span.mk a (a.past passed rest).index).text = passed := by
  rw [Span.text, Place.past_index, Nat.add_sub_cancel_left, h, List.take_left]

namespace Pattern

variable {β : Type} {p : Pattern} {next : Way → Option β} {way last : Way} {a : Place}
  {groups : List (Nat × Span)} {b : β} {texts : List Char → Prop} {number : Nat}
  {ps : List Pattern} {accept : Char → Bool}

/-- Repetitions lead from way to way. -/
theorem reachable_of_mem_repeatWays {step : Way → List Way} {fuel : List Char}
    (h : last ∈ repeatWays step fuel way) :
    Relation.ReflTransGen (fun way next => next ∈ step way) way last := by
  induction fuel generalizing way with
  | nil => rw [List.mem_singleton.mp h]
  | cons c fuel ih =>
      rcases List.mem_append.mp h with h | h
      · obtain ⟨next, hnext, hlast⟩ := List.mem_flatMap.mp h
        exact .head hnext (ih hlast)
      · rw [List.mem_singleton.mp h]

/-! ## Patterns without groups -/

/-- Whether a pattern has no groups. -/
def isPlain : Pattern → Bool
  | .seq first second | .alt first second => first.isPlain && second.isPlain
  | .many body => body.isPlain
  | .group _ _ => false
  | _ => true

/-- A pattern without groups keeps no texts. -/
theorem groups_eq_of_isPlain (hplain : p.isPlain = true) (h : last ∈ p.ends way) :
    last.groups = way.groups := by
  induction p generalizing way last with
  | empty => rw [List.mem_singleton.mp h]
  | one accept =>
      rw [ends] at h
      split at h
      · split at h
        · rw [List.mem_singleton.mp h]
        · cases h
      · cases h
  | run accept lazily =>
      obtain ⟨place, -, rfl⟩ := List.mem_map.mp h
      rfl
  | seq first second ih ih' =>
      obtain ⟨hfirst, hsecond⟩ := Bool.and_eq_true_iff.mp hplain
      obtain ⟨middle, hmiddle, hlast⟩ := List.mem_flatMap.mp h
      exact (ih' hsecond hlast).trans (ih hfirst hmiddle)
  | alt first second ih ih' =>
      obtain ⟨hfirst, hsecond⟩ := Bool.and_eq_true_iff.mp hplain
      exact (List.mem_append.mp h).elim (ih hfirst) (ih' hsecond)
  | many body ih =>
      have hsteps := reachable_of_mem_repeatWays h
      clear h
      induction hsteps with
      | refl => rfl
      | tail _ hstep hbefore => exact (ih hplain hstep).trans hbefore
  | group number body => cases hplain
  | textStart | lineStart | wordEdge =>
      rw [ends] at h
      split at h
      · rw [List.mem_singleton.mp h]
      · cases h

/-- A pattern without groups is passed where it matches. -/
theorem thenTry_eq_some_of_isPlain (hplain : p.isPlain = true)
    (h : p.thenTry next ⟨a, groups⟩ = some b) :
    ∃ z, p.Matches a z ∧ next ⟨z, groups⟩ = some b := by
  obtain ⟨⟨z, groups'⟩, hway, hnext⟩ := List.exists_of_findSome?_eq_some h
  obtain rfl : groups' = groups := groups_eq_of_isPlain hplain hway
  exact ⟨z, (mem_ends_iff groups').mp ⟨_, hway⟩, hnext⟩

/-- **A pattern without groups** that matches texts of a class is passed like one of them. -/
theorem thenTry_eq_some_of_spells (hplain : p.isPlain = true) (hspells : p.Spells texts)
    (h : p.thenTry next ⟨a, groups⟩ = some b) :
    ∃ passed rest, a.rest = passed ++ rest ∧ texts passed
      ∧ next ⟨a.past passed rest, groups⟩ = some b := by
  obtain ⟨z, hmatch, hnext⟩ := thenTry_eq_some_of_isPlain hplain h
  obtain ⟨passed, rest, hrest, hpassed, rfl⟩ := (hspells a z).mp hmatch
  exact ⟨passed, rest, hrest, hpassed, hnext⟩

/-- The first pattern of a sequence is passed like a text, if it has no groups. -/
theorem thenTry_sequence_of_spells (hplain : p.isPlain = true) (hspells : p.Spells texts)
    (h : (sequence (p :: ps)).thenTry next ⟨a, groups⟩ = some b) :
    ∃ passed rest, a.rest = passed ++ rest ∧ texts passed
      ∧ (sequence ps).thenTry next ⟨a.past passed rest, groups⟩ = some b := by
  rw [thenTry_sequence_cons] at h
  exact thenTry_eq_some_of_spells hplain hspells h

/-- The first pattern of a sequence is passed like a text, and the text is kept. -/
theorem thenTry_sequence_group_of_spells (hplain : p.isPlain = true) (hspells : p.Spells texts)
    (h : (sequence (.group number p :: ps)).thenTry next ⟨a, groups⟩ = some b) :
    ∃ passed rest, a.rest = passed ++ rest ∧ texts passed
      ∧ (sequence ps).thenTry next
          ⟨a.past passed rest, (number, ⟨a, (a.past passed rest).index⟩) :: groups⟩ = some b := by
  rw [thenTry_sequence_cons, thenTry_group] at h
  exact thenTry_eq_some_of_spells hplain hspells h

/-- **A repetition goes as far as it can go on**: to the farthest place where what comes next does
    not fail. -/
theorem thenTry_run_of_longest {passed rest : List Char} (hrest : a.rest = passed ++ rest)
    (hpassed : ∀ c ∈ passed, accept c = true) (hb : next ⟨a.past passed rest, groups⟩ = some b)
    (hlonger : ∀ more tail, rest = more ++ tail → more ≠ [] → (∀ c ∈ more, accept c = true) →
      next ⟨a.past (passed ++ more) tail, groups⟩ = none) :
    (run accept false).thenTry next ⟨a, groups⟩ = some b := by
  induction passed generalizing a with
  | nil =>
      obtain rfl : a.rest = rest := hrest
      have hb : next ⟨a, groups⟩ = some b := hb
      by_cases hend : a.rest.head?.any accept = false
      · rw [thenTry_run_of_end hend, hb]
      obtain ⟨c, tail, htail, hc⟩ : ∃ c tail, a.rest = c :: tail ∧ accept c = true := by
        cases hrest : a.rest with
        | nil => exact absurd (by rw [hrest]; rfl) hend
        | cons c tail =>
            rw [hrest] at hend
            exact ⟨c, tail, rfl, Bool.not_eq_false _ ▸ hend⟩
      -- past the next character there is no place from which one can go on
      have hnone : (run accept false).thenTry next ⟨a.past [c] tail, groups⟩ = none := by
        refine Option.eq_none_iff_forall_ne_some.mpr fun b' hb' => ?_
        obtain ⟨more, rest, rfl, hall, hb'⟩ := thenTry_eq_some_of_spells rfl spells_run hb'
        rw [Place.past_past] at hb'
        have hnone := hlonger (c :: more) rest htail (List.cons_ne_nil c more)
          (List.forall_mem_cons.mpr ⟨hc, hall⟩)
        exact nomatch hnone.symm.trans hb'
      rw [thenTry_run_cons htail hc, hnone, Option.none_or, hb]
  | cons c passed ih =>
      obtain ⟨hc, hpassed⟩ := List.forall_mem_cons.mp hpassed
      have hfar : (run accept false).thenTry next ⟨a.past [c] (passed ++ rest), groups⟩
          = some b := by
        refine ih rfl hpassed (by rwa [Place.past_past]) fun more tail hmore hne hall => ?_
        rw [Place.past_past]
        exact hlonger more tail hmore hne hall
      have hrest : a.rest = c :: (passed ++ rest) := hrest
      rw [thenTry_run_cons hrest hc, hfar, Option.some_or]

/-- At the start of a text the pattern goes on. -/
theorem thenTry_textStart :
    textStart.thenTry next ⟨a, groups⟩ = some b ↔ a.before = none ∧ next ⟨a, groups⟩ = some b := by
  rw [thenTry, ends]
  cases hbefore : a.before with
  | none => simp
  | some c => simp

/-- At the start of a line the pattern goes on. -/
theorem thenTry_lineStart :
    lineStart.thenTry next ⟨a, groups⟩ = some b
      ↔ (a.before = none ∨ a.before = some '\n') ∧ next ⟨a, groups⟩ = some b := by
  have hstart : (a.before = none ∨ a.before = some '\n')
      ↔ (a.before.isNone || a.before == some '\n') = true := by
    rw [Bool.or_eq_true, Option.isNone_iff_eq_none, beq_iff_eq]
  rw [hstart, thenTry, ends]
  split
  · rename_i hline
    rw [List.findSome?_singleton, and_iff_right hline]
  · rename_i hline
    rw [List.findSome?_nil]
    exact iff_of_false (Option.some_ne_none b).symm fun h => hline h.1

/-! ## Texts of groups -/

/-- The bodies of the groups of a number. -/
def bodies (number : Nat) : Pattern → List Pattern
  | .seq first second | .alt first second => first.bodies number ++ second.bodies number
  | .many body => body.bodies number
  | .group other body =>
    if other = number then body :: body.bodies number else body.bodies number
  | _ => []

/-- What is kept on a way through a pattern is matched by the body of a group. -/
theorem exists_body_of_mem_groups {span : Span} (h : last ∈ p.ends way)
    (hmem : (number, span) ∈ last.groups) :
    (number, span) ∈ way.groups
      ∨ ∃ body ∈ p.bodies number, ∃ z, body.Matches span.start z ∧ z.index = span.stop := by
  induction p generalizing way last with
  | empty => exact Or.inl (List.mem_singleton.mp h ▸ hmem)
  | one | run | textStart | lineStart | wordEdge =>
      exact Or.inl (groups_eq_of_isPlain rfl h ▸ hmem)
  | seq first second ih ih' =>
      obtain ⟨middle, hmiddle, hlast⟩ := List.mem_flatMap.mp h
      rcases ih' hlast hmem with hmem | ⟨body, hbody, hmatch⟩
      · refine (ih hmiddle hmem).imp_right fun ⟨body, hbody, hmatch⟩ => ?_
        exact ⟨body, List.mem_append_left _ hbody, hmatch⟩
      · exact Or.inr ⟨body, List.mem_append_right _ hbody, hmatch⟩
  | alt first second ih ih' =>
      rcases List.mem_append.mp h with h | h
      · refine (ih h hmem).imp_right fun ⟨body, hbody, hmatch⟩ => ?_
        exact ⟨body, List.mem_append_left _ hbody, hmatch⟩
      · refine (ih' h hmem).imp_right fun ⟨body, hbody, hmatch⟩ => ?_
        exact ⟨body, List.mem_append_right _ hbody, hmatch⟩
  | many body ih =>
      have hsteps := reachable_of_mem_repeatWays h
      clear h
      induction hsteps with
      | refl => exact Or.inl hmem
      | tail _ hstep hbefore =>
          rcases ih hstep hmem with hmem | hfound
          · exact hbefore hmem
          · exact Or.inr hfound
  | group other body ih =>
      obtain ⟨after, hafter, rfl⟩ := List.mem_map.mp h
      rcases List.mem_cons.mp hmem with heq | hmem
      · obtain ⟨rfl, rfl⟩ := Prod.mk.inj heq
        refine Or.inr ⟨body, ?_, after.place, ?_, rfl⟩
        · rw [bodies, if_pos rfl]
          exact List.mem_cons_self
        · exact (mem_ends_iff way.groups).mp ⟨after.groups, hafter⟩
      · refine (ih hafter hmem).imp_right fun ⟨inner, hinner, hmatch⟩ => ⟨inner, ?_, hmatch⟩
        rw [bodies]
        split
        · exact List.mem_cons_of_mem body hinner
        · exact hinner

/-- **The text of a group** is one that the body of a group of this number matches. -/
theorem exists_body_of_group? {m : Match} {text : List Char} (h : p.matchAt? a = some m)
    (htext : m.group? number = some text) :
    ∃ body ∈ p.bodies number, ∀ texts, body.Spells texts → texts text := by
  obtain ⟨way, hway, rfl⟩ := Option.map_eq_some_iff.mp h
  obtain ⟨span, hspan, rfl⟩ := Option.map_eq_some_iff.mp htext
  obtain ⟨before, after, hgroups, -⟩ := List.lookup_eq_some_iff.mp hspan
  have hmem : (number, span) ∈ way.groups := by
    rw [show way.groups = _ from hgroups]
    exact List.mem_append_right before List.mem_cons_self
  rcases exists_body_of_mem_groups (List.mem_of_head? hway) hmem with
    hnone | ⟨body, hbody, z, hz, hstop⟩
  · cases hnone
  · refine ⟨body, hbody, fun texts hspells => ?_⟩
    obtain ⟨passed, rest, hrest, hpassed, rfl⟩ := (hspells span.start z).mp hz
    rw [show span = ⟨span.start, _⟩ from rfl, ← hstop, Span.text_past hrest]
    exact hpassed

/-! ## One group between patterns without groups -/

theorem thenTry_sequence_append (ps qs : List Pattern) (next : Way → Option β) (way : Way) :
    (sequence (ps ++ qs)).thenTry next way
      = (sequence ps).thenTry ((sequence qs).thenTry next) way := by
  induction ps generalizing way with
  | nil => exact (thenTry_empty _ way).symm
  | cons p ps ih =>
      rw [List.cons_append, thenTry_sequence_cons, thenTry_sequence_cons, funext ih]

/-- A fixed text has no groups. -/
theorem isPlain_literal (text : List Char) : (literal text).isPlain = true := by
  induction text with
  | nil => rfl
  | cons c text ih =>
      cases text with
      | nil => rfl
      | cons d text => exact ih

/-- **What the only group keeps** is what stands between the patterns before and behind it. -/
theorem exists_kept {ps qs : List Pattern} {body : Pattern} {m : Match}
    (hbefore : (sequence ps).isPlain = true) (hbody : body.isPlain = true)
    (hbehind : (sequence qs).isPlain = true)
    (h : (sequence (ps ++ .group number body :: qs)).matchAt? a = some m) :
    ∃ u v z, (sequence ps).Matches a u ∧ body.Matches u v ∧ (sequence qs).Matches v z
      ∧ m.group? number = some (Span.mk u v.index).text ∧ m.span.stop = z.index := by
  rw [matchAt?_eq_thenTry, thenTry_sequence_append] at h
  obtain ⟨u, hu, h⟩ := thenTry_eq_some_of_isPlain hbefore h
  rw [thenTry_sequence_cons, thenTry_group] at h
  obtain ⟨v, hv, h⟩ := thenTry_eq_some_of_isPlain hbody h
  obtain ⟨z, hz, h⟩ := thenTry_eq_some_of_isPlain hbehind h
  obtain rfl := Option.some.inj h
  refine ⟨u, v, z, hu, hv, hz, ?_, rfl⟩
  rw [Match.group?, List.lookup_cons_self]
  rfl

end Pattern

end FailureTriage
