import FailureTriage.Proofs.Pattern.Successive
import FailureTriage.Proofs.Text.Numbers
import FailureTriage.Source.Suspicion

/-!
# Comparisons of a count

Which comparisons of a count with a number a line shows, and which of them is taken for the one
that shuts out the expected count: the leftmost that asks for more than a threshold, if that is not
below the expected count.

* `Comparison.StandsAt`: a comparison on a line, said without patterns.
* `countComparison_matchAt?`, `countComparison_apart`: what the pattern finds, and where.
* `Comparison.FirstFlagged`, `excludingThreshold?_eq_some_iff`: the comparison that is taken.
-/

namespace FailureTriage.Suspicion

open Pattern

/-! ## Comparisons -/

/-- How a count is compared with a threshold. -/
inductive Comparator where
  | atLeast
  | atMost
  | above
  | below
  deriving DecidableEq

namespace Comparator

/-- The sign for a way to compare. -/
def sign : Comparator → String
  | .atLeast => ">="
  | .atMost => "<="
  | .above => ">"
  | .below => "<"

/-- All ways to compare, in the order in which their signs are looked for. -/
def all : List Comparator :=
  [.atLeast, .atMost, .above, .below]

/-- Whether a count passes a comparison with a threshold. -/
def Holds : Comparator → (count threshold : Nat) → Prop
  | .atLeast, count, threshold => threshold ≤ count
  | .atMost, count, threshold => count ≤ threshold
  | .above, count, threshold => threshold < count
  | .below, count, threshold => count < threshold

theorem mem_all (r : Comparator) : r ∈ all := by
  cases r <;> decide

theorem sign_inj {r r' : Comparator} : r.sign = r'.sign ↔ r = r' := by
  cases r <;> cases r' <;> decide

/-- Whether a character belongs to the sign of some way to compare. -/
def isSign (c : Char) : Bool :=
  c == '>' || c == '<' || c == '='

theorem isSign_of_mem_sign {r : Comparator} : ∀ c ∈ r.sign.toList, isSign c = true := by
  rw [← List.all_eq_true]
  cases r <;> rfl

end Comparator

/-- A comparison of a count with a number, as it is written. -/
structure Comparison where
  word : List Char
  gap : List Char
  comparator : Comparator
  space : List Char
  digits : List Char

namespace Comparison

/-- The text of a comparison. -/
def text (c : Comparison) : List Char :=
  c.word ++ c.gap ++ c.comparator.sign.toList ++ c.space ++ c.digits

/-- Whether the parts of a comparison are what they should be: the word `count` in any case, blanks
    around the sign, and at least one decimal digit. -/
structure Proper (c : Comparison) : Prop where
  word : c.word.map Char.toLower = "count".toList
  gap : ∀ d ∈ c.gap, Text.isBlank d = true
  space : ∀ d ∈ c.space, Text.isBlank d = true
  digits : c.digits ≠ []
  decimal : ∀ d ∈ c.digits, Text.isDecimalDigit d = true

/-- Whether a comparison starts a text, with all the digits that follow the sign. -/
def Starts (c : Comparison) (text tail : List Char) : Prop :=
  c.Proper ∧ text = c.text ++ tail ∧ tail.head?.any Text.isDecimalDigit = false

/-- Whether a comparison stands after so many characters of a line. -/
def StandsAt (c : Comparison) (line : List Char) (position : Nat) : Prop :=
  ∃ tail, c.Starts (line.drop position) tail

/-- The match of a comparison at a place. -/
def matched (c : Comparison) (a : Place) (tail : List Char) : Match :=
  let number := c.digits ++ tail
  let sign := c.comparator.sign.toList
  let atSign := a.past (c.word ++ c.gap) (sign ++ (c.space ++ number))
  let atNumber := a.past (c.word ++ c.gap ++ sign ++ c.space) number
  let stop := a.index + c.text.length
  ⟨⟨a, stop⟩, [(2, ⟨atNumber, stop⟩), (1, ⟨atSign, atSign.index + sign.length⟩)]⟩

end Comparison

/-! ## What the pattern finds -/

/-- A letter of the word `count` is met in both its cases. -/
theorem sameLetter_iff {letter c : Char} (h : letter ∈ "count".toList) :
    sameLetter letter c = true ↔ c.toLower = letter := by
  have hplain : "count".toList.all fun d => d.toLower == d && d != 'k' && d != 's' := by decide
  have hletter := List.all_eq_true.mp hplain letter h
  rw [Bool.and_eq_true, Bool.and_eq_true, beq_iff_eq, bne_iff_ne, bne_iff_ne] at hletter
  simp [sameLetter, hletter.1.1, hletter.1.2, hletter.2]

/-- The word `count` is met in any case. -/
theorem forall₂_sameLetter {word : List Char} :
    List.Forall₂ (fun (accept : Char → Bool) c => accept c = true)
        ("count".toList.map sameLetter) word
      ↔ word.map Char.toLower = "count".toList := by
  have hletters : ∀ letters : List Char, letters ⊆ "count".toList → ∀ word,
      List.Forall₂ (fun (accept : Char → Bool) c => accept c = true) (letters.map sameLetter) word
        ↔ word.map Char.toLower = letters := by
    intro letters
    induction letters with
    | nil =>
        intro _ word
        rw [List.map_nil, List.forall₂_nil_left_iff, List.map_eq_nil_iff]
    | cons letter letters ih =>
        intro hsub word
        obtain ⟨hletter, hsub⟩ := List.cons_subset.mp hsub
        rw [List.map_cons, List.forall₂_cons_left_iff, List.map_eq_cons_iff]
        constructor
        · rintro ⟨c, more, hc, hmore, rfl⟩
          exact ⟨c, more, rfl, (sameLetter_iff hletter).mp hc, (ih hsub more).mp hmore⟩
        · rintro ⟨c, more, rfl, hc, hmore⟩
          exact ⟨c, more, (sameLetter_iff hletter).mpr hc, (ih hsub more).mpr hmore, rfl⟩
  exact hletters _ (List.Subset.refl _) word

/-- A sign is neither a blank nor a digit. -/
theorem Comparator.isSign_apart {c : Char} (h : isSign c = true) :
    Text.isBlank c = false ∧ Text.isDecimalDigit c = false := by
  have hc : c = '>' ∨ c = '<' ∨ c = '=' := by
    simpa only [isSign, Bool.or_eq_true, beq_iff_eq, or_assoc] using h
  rcases hc with rfl | rfl | rfl <;> decide

/-- The number of a comparison, with the blanks before it. -/
def thresholdPart : Pattern :=
  sequence [blanks, .group 2 (oneOrMore Text.isDecimalDigit)]

/-- The sign of a comparison, and what follows it. -/
def signPart : Pattern :=
  sequence [.group 1 (anyOf ((Comparator.all.map Comparator.sign).map word)), blanks,
    .group 2 (oneOrMore Text.isDecimalDigit)]

theorem countComparison_eq :
    countComparison
      = .seq (sequence (("count".toList.map sameLetter).map .one)) (.seq blanks signPart) :=
  rfl

theorem thresholdPart_startsIn :
    thresholdPart.StartsIn fun c => Comparator.isSign c = false := by
  refine StartsIn.run_seq (fun c hc => ?_) ((startsIn_one fun c hc => ?_).seq _)
  · refine Bool.eq_false_iff.mpr fun hsign => ?_
    rw [(Comparator.isSign_apart hsign).1] at hc
    cases hc
  · refine Bool.eq_false_iff.mpr fun hsign => ?_
    rw [(Comparator.isSign_apart hsign).2] at hc
    cases hc

theorem signPart_startsIn : signPart.StartsIn fun c => Text.isBlank c = false := by
  refine StartsIn.sequence (p := .group 1 _) (startsIn_anyOf fun p hp => ?_) _
  obtain ⟨sign, hsign, rfl⟩ := List.mem_map.mp hp
  obtain ⟨r, -, rfl⟩ := List.mem_map.mp hsign
  cases r
  · exact startsIn_word (c := '>') rfl rfl
  · exact startsIn_word (c := '<') rfl rfl
  · exact startsIn_word (c := '>') rfl rfl
  · exact startsIn_word (c := '<') rfl rfl

section

variable {β : Type} {next : Way → Option β} {a : Place} {groups : List (Nat × Span)} {b : β}

/-- The blanks and the digits that the number takes. -/
theorem thresholdPart_thenTry (hnext : ∀ way, (next way).isSome = true) :
    thresholdPart.thenTry next ⟨a, groups⟩ = some b
      ↔ ∃ space digits tail, a.rest = space ++ (digits ++ tail)
        ∧ (∀ d ∈ space, Text.isBlank d = true)
        ∧ digits ≠ [] ∧ (∀ d ∈ digits, Text.isDecimalDigit d = true)
        ∧ tail.head?.any Text.isDecimalDigit = false
        ∧ next ⟨a.past (space ++ digits) tail,
            (2, ⟨a.past space (digits ++ tail), a.index + (space ++ digits).length⟩) :: groups⟩
          = some b := by
  have hdigit : (group 2 (oneOrMore Text.isDecimalDigit)).StartsIn fun c =>
      Text.isDecimalDigit c = true := (startsIn_one fun c hc => hc).seq _
  have hblank : FailsOn Text.isBlank
      ((group 2 (oneOrMore Text.isDecimalDigit)).thenTry next) := by
    refine hdigit.failsOn (fun c hc hd => ?_) next
    rw [Text.isBlank_of_isDecimalDigit hd] at hc
    cases hc
  rw [thresholdPart, thenTry_sequence_cons, Pattern.sequence, blanks, zeroOrMore,
    thenTry_run_eq_some_iff hblank]
  constructor
  · rintro ⟨space, rest, hrest, hspace, hb⟩
    rw [thenTry_group, thenTry_oneOrMore_eq_some_iff fun way => hnext _] at hb
    obtain ⟨digits, tail, rfl, hne, hdigits, hend, hb⟩ := hb
    rw [Place.past_past] at hb
    exact ⟨space, digits, tail, hrest, hspace, hne, hdigits, hend, hb⟩
  · rintro ⟨space, digits, tail, hrest, hspace, hne, hdigits, hend, hb⟩
    refine ⟨space, digits ++ tail, hrest, hspace, ?_⟩
    rw [thenTry_group, thenTry_oneOrMore_eq_some_iff fun way => hnext _]
    refine ⟨digits, tail, rfl, hne, hdigits, hend, ?_⟩
    rw [Place.past_past]
    exact hb

/-- The sign that is taken. -/
theorem signPart_thenTry :
    signPart.thenTry next ⟨a, groups⟩ = some b
      ↔ ∃ r : Comparator, ∃ rest, a.rest = r.sign.toList ++ rest
        ∧ thresholdPart.thenTry next ⟨a.past r.sign.toList rest,
            (1, ⟨a, a.index + r.sign.toList.length⟩) :: groups⟩ = some b := by
  have hsigns : ∀ w ∈ Comparator.all.map Comparator.sign, ∀ c ∈ w.toList,
      Comparator.isSign c = true := by
    intro w hw
    obtain ⟨r, -, rfl⟩ := List.mem_map.mp hw
    exact Comparator.isSign_of_mem_sign
  -- so of two signs where one starts the other, the longer is the only one that can go on
  have hthreshold : FailsOn Comparator.isSign (thresholdPart.thenTry next) :=
    thresholdPart_startsIn.failsOn (fun c hc hnot => Bool.eq_false_iff.mp hnot hc) next
  have hsign : FailsOn Comparator.isSign fun way => thresholdPart.thenTry next
      ⟨way.place, (1, ⟨a, way.place.index⟩) :: way.groups⟩ := fun way =>
    hthreshold ⟨way.place, (1, ⟨a, way.place.index⟩) :: way.groups⟩
  rw [signPart, thenTry_sequence_cons, thenTry_group]
  refine (thenTry_words hsigns hsign).trans ?_
  constructor
  · rintro ⟨w, hw, rest, hrest, hb⟩
    obtain ⟨r, -, rfl⟩ := List.mem_map.mp hw
    exact ⟨r, rest, hrest, hb⟩
  · rintro ⟨r, rest, hrest, hb⟩
    exact ⟨r.sign, List.mem_map_of_mem r.mem_all, rest, hrest, hb⟩

end

/-- **What the pattern matches** at a place: a comparison with all of its digits. -/
theorem countComparison_matchAt? {a : Place} {m : Match} :
    countComparison.matchAt? a = some m
      ↔ ∃ c tail, Comparison.Starts c a.rest tail ∧ m = c.matched a tail := by
  -- the blanks are passed as far as they go, since no sign is one
  have hblank : FailsOn Text.isBlank
      (signPart.thenTry fun way => some (⟨⟨a, way.place.index⟩, way.groups⟩ : Match)) :=
    signPart_startsIn.failsOn (fun c hc hnot => Bool.eq_false_iff.mp hnot hc) _
  rw [matchAt?_eq_thenTry, countComparison_eq, thenTry_seq, thenTry_ones]
  constructor
  · rintro ⟨word, rest, hrest, hword, hm⟩
    rw [thenTry_seq, blanks, zeroOrMore, thenTry_run_eq_some_iff hblank] at hm
    obtain ⟨gap, rest, rfl, hgap, hm⟩ := hm
    obtain ⟨r, rest, rfl, hm⟩ := signPart_thenTry.mp hm
    obtain ⟨space, digits, tail, rfl, hspace, hne, hdigits, hend, hm⟩ :=
      (thresholdPart_thenTry fun _ => rfl).mp hm
    refine ⟨⟨word, gap, r, space, digits⟩, tail,
      ⟨⟨forall₂_sameLetter.mp hword, hgap, hspace, hne, hdigits⟩, ?_, hend⟩, ?_⟩
    · rw [hrest, Comparison.text]
      simp only [List.append_assoc]
    · rw [← Option.some.inj hm, Comparison.matched, Comparison.text]
      simp only [Place.past_past, Place.past_index, List.append_assoc, List.length_append,
        Nat.add_assoc]
  · rintro ⟨c, tail, ⟨hproper, hrest, hend⟩, rfl⟩
    refine ⟨c.word, c.gap ++ (c.comparator.sign.toList ++ (c.space ++ (c.digits ++ tail))), ?_,
      forall₂_sameLetter.mpr hproper.word, ?_⟩
    · rw [hrest, Comparison.text]
      simp only [List.append_assoc]
    · rw [thenTry_seq, blanks, zeroOrMore, thenTry_run_eq_some_iff hblank]
      refine ⟨c.gap, _, rfl, hproper.gap, signPart_thenTry.mpr ⟨c.comparator, _, rfl,
        (thresholdPart_thenTry fun _ => rfl).mpr ⟨c.space, c.digits, tail, rfl, hproper.space,
          hproper.digits, hproper.decimal, hend, ?_⟩⟩⟩
      rw [Comparison.matched, Comparison.text]
      simp only [Place.past_past, Place.past_index, List.append_assoc, List.length_append,
        Nat.add_assoc]

/-! ## Where comparisons stand -/

theorem eq_of_toLower {d : Char} (h : d.toLower = 'c') : d = 'c' ∨ d = 'C' := by
  by_cases hupper : d.val ≥ 'A'.val ∧ d.val ≤ 'Z'.val
  · refine Or.inr (Char.ext (UInt32.toNat_inj.mp ?_))
    have hlower : d.toLower.val = d.val + 32 := congrArg Char.val (dif_pos hupper)
    have hval : d.val + 32 = 99 := hlower.symm.trans (congrArg Char.val h)
    have hcode := congrArg UInt32.toNat hval
    have hle : d.val.toNat ≤ 90 := hupper.2
    rw [UInt32.toNat_add, Nat.mod_eq_of_lt] at hcode
    · exact Nat.add_right_cancel hcode
    · exact Nat.lt_of_le_of_lt (Nat.add_le_add_right hle _) (by decide)
  · have hsame : d.toLower = d := dif_neg hupper
    exact Or.inl (hsame.symm.trans h)

/-- Neither blanks nor signs nor digits start a comparison. -/
theorem toLower_ne {d : Char}
    (h : Text.isBlank d = true ∨ Comparator.isSign d = true ∨ Text.isDecimalDigit d = true) :
    ¬ d.toLower = 'c' := by
  intro hd
  rcases eq_of_toLower hd with rfl | rfl
  · revert h
    decide
  · revert h
    decide

/-- Only the first character of a comparison starts one. -/
theorem Comparison.Proper.toLower_tail {c : Comparison} (h : c.Proper) {d : Char}
    (hd : d ∈ c.text.tail) : ¬ d.toLower = 'c' := by
  obtain ⟨first, rest, hword, -, hrest⟩ := List.map_eq_cons_iff.mp h.word
  rw [Comparison.text, hword] at hd
  simp only [List.cons_append, List.tail_cons, List.mem_append] at hd
  rcases hd with (((hd | hd) | hd) | hd) | hd
  · intro hlower
    have hmem : 'c' ∈ rest.map Char.toLower := hlower ▸ List.mem_map_of_mem hd
    rw [hrest] at hmem
    revert hmem
    decide
  · exact toLower_ne (Or.inl (h.gap d hd))
  · exact toLower_ne (Or.inr (Or.inl (Comparator.isSign_of_mem_sign d hd)))
  · exact toLower_ne (Or.inl (h.space d hd))
  · exact toLower_ne (Or.inr (Or.inr (h.decimal d hd)))

theorem countComparison_startsIn : countComparison.StartsIn fun c => c.toLower = 'c' :=
  ((startsIn_one fun _ hc => (sameLetter_iff (by decide)).mp hc).sequence _).seq _

/-- **Comparisons do not overlap.** -/
theorem countComparison_apart (line : List Char) : countComparison.Apart line := by
  intro position m hm later hgt hlt
  obtain ⟨c, tail, ⟨hproper, hrest, -⟩, rfl⟩ := countComparison_matchAt?.mp hm
  rw [matchAt?_eq_thenTry]
  refine countComparison_startsIn.thenTry_eq_none fun d hd => hproper.toLower_tail ?_
  -- the character stands in the text of the comparison, behind its first one
  have hinside : later < position + c.text.length := hlt
  have hchar : (line.drop position)[later - position]? = some d := by
    rw [List.getElem?_drop, Nat.add_sub_cancel' (by omega), ← List.head?_drop]
    exact hd
  have hrest : line.drop position = c.text ++ tail := hrest
  rw [hrest, List.getElem?_append_left (by omega)] at hchar
  have htail : c.text.tail[later - position - 1]? = some d := by
    rw [List.getElem?_tail, Nat.sub_add_cancel (by omega), hchar]
  exact List.mem_of_getElem? htail

/-- The text of a part between two places. -/
theorem span_text {a : Place} {part rest : List Char} (h : a.rest = part ++ rest) :
    (⟨a, a.index + part.length⟩ : Span).text = part := by
  rw [Span.text, Nat.add_sub_cancel_left, h, List.take_left]

theorem Comparison.matched_group_one (c : Comparison) (a : Place) (tail : List Char) :
    (c.matched a tail).group? 1 = some c.comparator.sign.toList :=
  congrArg some (span_text rfl)

theorem Comparison.matched_group_two (c : Comparison) (a : Place) (tail : List Char) :
    (c.matched a tail).group? 2 = some c.digits := by
  have hstop : a.index + c.text.length
      = a.index + (c.word ++ c.gap ++ c.comparator.sign.toList ++ c.space).length
        + c.digits.length := by
    rw [text, List.length_append, Nat.add_assoc]
  refine congrArg some ?_
  rw [hstop]
  exact span_text (a := a.past _ (c.digits ++ tail)) rfl

namespace Comparison

/-- Whether a comparison asks for more than a threshold, or for the threshold at least, and that
    is not below the expected count. -/
structure Flagged (c : Comparison) (expected threshold : Nat) : Prop where
  upward : c.comparator = .above ∨ c.comparator = .atLeast
  reads : Text.readNat? Text.maxWord64 c.digits = some threshold
  notBelow : expected ≤ threshold

/-- Whether a comparison is the leftmost on a line that asks for too much. -/
structure FirstFlagged (c : Comparison) (expected threshold : Nat) (line : List Char)
    (position : Nat) : Prop where
  stands : c.StandsAt line position
  flagged : c.Flagged expected threshold
  first : ∀ earlier < position, ∀ c' : Comparison, c'.StandsAt line earlier →
    ∀ threshold', ¬ c'.Flagged expected threshold'

/-- What is taken from the match of a comparison. -/
theorem excluding?_matched (c : Comparison) (a : Place) (tail : List Char)
    (expected threshold : Nat) (sign : String) :
    excluding? expected (c.matched a tail) = some (sign, threshold)
      ↔ c.comparator.sign = sign ∧ c.Flagged expected threshold := by
  have hupward : (c.comparator.sign = ">" ∨ c.comparator.sign = ">=")
      ↔ (c.comparator = .above ∨ c.comparator = .atLeast) := by
    cases c.comparator <;> decide
  rw [excluding?, matched_group_one, matched_group_two]
  simp only [Option.bind_eq_bind, Option.bind_some, String.ofList_toList]
  constructor
  · intro h
    obtain ⟨n, hn, h⟩ := Option.bind_eq_some_iff.mp h
    split at h
    · rename_i hboth
      obtain ⟨rfl, rfl⟩ := Prod.mk.inj (Option.some.inj h)
      exact ⟨rfl, hupward.mp hboth.1, hn, hboth.2⟩
    · cases h
  · rintro ⟨rfl, hflagged⟩
    rw [hflagged.reads]
    exact if_pos ⟨hupward.mpr hflagged.upward, hflagged.notBelow⟩

/-- Where a comparison stands, the line goes on. -/
theorem StandsAt.lt {c : Comparison} {line : List Char} {position : Nat}
    (h : c.StandsAt line position) : position < line.length := by
  obtain ⟨tail, hproper, hrest, -⟩ := h
  refine Nat.lt_of_not_le fun hle => ?_
  rw [List.drop_eq_nil_of_le hle, text] at hrest
  exact hproper.digits (List.append_eq_nil_iff.mp (List.append_eq_nil_iff.mp hrest.symm).1).2

end Comparison

section

variable {expected threshold position : Nat} {line : List Char} {sign : String}

/-- What is taken from a place of a line. -/
theorem taken_iff :
    (countComparison.matchAt? (Place.inText line position)).bind (excluding? expected)
        = some (sign, threshold)
      ↔ ∃ c : Comparison, c.StandsAt line position ∧ c.comparator.sign = sign
        ∧ c.Flagged expected threshold := by
  rw [Option.bind_eq_some_iff]
  constructor
  · rintro ⟨m, hm, htaken⟩
    obtain ⟨c, tail, hstarts, rfl⟩ := countComparison_matchAt?.mp hm
    exact ⟨c, ⟨tail, hstarts⟩, (c.excluding?_matched ..).mp htaken⟩
  · rintro ⟨c, ⟨tail, hstarts⟩, htaken⟩
    exact ⟨_, countComparison_matchAt?.mpr ⟨c, tail, hstarts, rfl⟩,
      (c.excluding?_matched ..).mpr htaken⟩

/-- **The comparison that is taken** is the leftmost that asks for too much. -/
theorem excludingThreshold?_eq_some_iff :
    excludingThreshold? expected line = some (sign, threshold)
      ↔ ∃ (c : Comparison) (position : Nat), c.FirstFlagged expected threshold line position
        ∧ c.comparator.sign = sign := by
  rw [excludingThreshold?, (countComparison_apart line).findSome?_eq_some_iff]
  constructor
  · rintro ⟨position, -, htaken, hfirst⟩
    obtain ⟨c, hstands, hsign, hflagged⟩ := taken_iff.mp htaken
    refine ⟨c, position, ⟨hstands, hflagged, ?_⟩, hsign⟩
    intro earlier hlt c' hstands' threshold' hflagged'
    have htaken' := taken_iff.mpr ⟨c', hstands', rfl, hflagged'⟩
    rw [hfirst earlier hlt] at htaken'
    cases htaken'
  · rintro ⟨c, position, hfirst, hsign⟩
    refine ⟨position, Nat.le_of_lt hfirst.stands.lt,
      taken_iff.mpr ⟨c, hfirst.stands, hsign, hfirst.flagged⟩, fun earlier hlt => ?_⟩
    refine Option.eq_none_iff_forall_ne_some.mpr fun ⟨sign', threshold'⟩ htaken' => ?_
    obtain ⟨c', hstands', -, hflagged'⟩ := taken_iff.mp htaken'
    exact hfirst.first earlier hlt c' hstands' threshold' hflagged'

/-- **One is taken** whenever some comparison asks for too much, whatever stands before it. -/
theorem exists_firstFlagged
    (h : ∃ c : Comparison, c.StandsAt line position ∧ c.Flagged expected threshold) :
    ∃ (c : Comparison) (position threshold : Nat),
      c.FirstFlagged expected threshold line position := by
  obtain ⟨c, hstands, hflagged⟩ := h
  have htaken := taken_iff.mpr ⟨c, hstands, rfl, hflagged⟩
  have hsome : (excludingThreshold? expected line).isSome = true :=
    (countComparison_apart line).isSome_findSome? (Nat.le_of_lt hstands.lt)
      (Option.isSome_of_eq_some htaken)
  obtain ⟨⟨sign, threshold⟩, htaken⟩ := Option.isSome_iff_exists.mp hsome
  obtain ⟨c, position, hfirst, -⟩ := excludingThreshold?_eq_some_iff.mp htaken
  exact ⟨c, position, threshold, hfirst⟩

end

end FailureTriage.Suspicion
