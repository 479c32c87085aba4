import FailureTriage.Proofs.Pattern.Matching
import FailureTriage.Proofs.Text.Words
import FailureTriage.Source.Window

/-!
# Signatures of methods

What the pattern of a signature matches: modifiers, a type, the name of the method and parameters,
with the blanks between them, behind no part of a word.

* `Window.IsTypeName`, `Window.IsSignature`: a type and a signature as they are written.
* `Window.matchesAt_signaturePattern_iff`: where a signature matches.
-/

namespace FailureTriage.Window

open Pattern

variable {method : String} {text : List Char} {position : Nat}

/-- A type as it stands before the name of a method: a capital and the rest of a dotted name, with
    type arguments or without them, and any number of array brackets. -/
def IsTypeName (text : List Char) : Prop :=
  ∃ capital name typeArguments, ∃ brackets : Nat,
    text = capital :: (name ++ (typeArguments ++ (List.replicate brackets "[]".toList).flatten))
    ∧ capital.isUpper = true ∧ (∀ c ∈ name, Text.isWord c = true ∨ c = '.')
    ∧ (typeArguments = [] ∨ ∃ inner, typeArguments = '<' :: (inner ++ ['>'])
      ∧ ∀ c ∈ inner, c ∉ ['(', ')', '\x7b', '\x7d', ';'])

/-- A signature as it is written: modifiers with spaces or tabs behind each of them, `void` or a
    type, the name of the method, and parameters up to the first closing parenthesis. -/
def IsSignature (method : String) (text : List Char) : Prop :=
  ∃ heads : List (String × List Char), ∃ type blanks gap parameters,
    text = (heads.flatMap fun head => head.1.toList ++ head.2)
      ++ (type ++ (blanks ++ (method.toList ++ (gap ++ '(' :: (parameters ++ [')'])))))
    ∧ (∀ head ∈ heads, head.1 ∈ modifiers ∧ head.2 ≠ [] ∧ ∀ c ∈ head.2, c = ' ' ∨ c = '\t')
    ∧ (type = "void".toList ∨ IsTypeName type)
    ∧ (blanks ≠ [] ∧ ∀ c ∈ blanks, Text.isBlank c = true) ∧ (∀ c ∈ gap, Text.isBlank c = true)
    ∧ ')' ∉ parameters

/-! ## The parts of the pattern -/

theorem inArguments_iff {c : Char} :
    inArguments c = true ↔ c ∉ ['(', ')', '\x7b', '\x7d', ';'] := by
  simp [inArguments, and_assoc]

theorem spells_typePattern : typePattern.Spells IsTypeName := by
  have hbrackets : ∀ parts : List (List Char), (∀ part ∈ parts, part = "[]".toList)
      ↔ parts = List.replicate parts.length "[]".toList := by
    intro parts
    rw [List.eq_replicate_iff, and_iff_right rfl]
  refine (spells_one.sequence_cons <| spells_run.sequence_cons <|
    (spells_opt (spells_between "<" ">")).sequence_cons
      (spells_word "[]").many.sequence_singleton).congr fun text => ?_
  simp only [hbrackets, inArguments_iff, Bool.or_eq_true, beq_iff_eq]
  constructor
  · rintro ⟨_, _, rfl, ⟨capital, rfl, hcapital⟩, name, _, rfl, hname, typeArguments, _, rfl,
      harguments, parts, rfl, hparts⟩
    refine ⟨capital, name, typeArguments, parts.length, ?_, hcapital, hname, ?_⟩
    · rw [← hparts]
      rfl
    · exact harguments.symm
  · rintro ⟨capital, name, typeArguments, brackets, rfl, hcapital, hname, harguments⟩
    refine ⟨[capital], _, rfl, ⟨capital, rfl, hcapital⟩, name, _, rfl, hname, typeArguments, _, rfl,
      harguments.symm, List.replicate brackets "[]".toList, rfl, ?_⟩
    rw [List.length_replicate]

/-- A modifier and the spaces and tabs behind it. -/
theorem spells_head :
    (sequence [anyOf (modifiers.map word), oneOrMore (fun c => c == ' ' || c == '\t')]).Spells
      fun text => ∃ head : String × List Char, text = head.1.toList ++ head.2
        ∧ head.1 ∈ modifiers ∧ head.2 ≠ [] ∧ ∀ c ∈ head.2, c = ' ' ∨ c = '\t' := by
  refine ((spells_anyOf_word modifiers).sequence_cons
    spells_oneOrMore.sequence_singleton).congr fun text => ?_
  simp only [Bool.or_eq_true, beq_iff_eq]
  constructor
  · rintro ⟨_, spaces, rfl, ⟨modifier, hmodifier, rfl⟩, hne, hspaces⟩
    exact ⟨(modifier, spaces), rfl, hmodifier, hne, hspaces⟩
  · rintro ⟨⟨modifier, spaces⟩, rfl, hmodifier, hne, hspaces⟩
    exact ⟨modifier.toList, spaces, rfl, ⟨modifier, hmodifier, rfl⟩, hne, hspaces⟩

/-- The modifiers in front of a signature. -/
theorem spells_heads :
    (Pattern.many (sequence [anyOf (modifiers.map word),
        oneOrMore (fun c => c == ' ' || c == '\t')])).Spells
      fun text => ∃ heads : List (String × List Char),
        text = (heads.flatMap fun head => head.1.toList ++ head.2)
        ∧ ∀ head ∈ heads, head.1 ∈ modifiers ∧ head.2 ≠ [] ∧ ∀ c ∈ head.2, c = ' ' ∨ c = '\t' := by
  refine spells_head.many.congr fun text => ?_
  constructor
  · rintro ⟨parts, rfl, hparts⟩
    induction parts with
    | nil => exact ⟨[], rfl, List.forall_mem_nil _⟩
    | cons part parts ih =>
        obtain ⟨⟨head, rfl, hhead⟩, hlater⟩ := List.forall_mem_cons.mp hparts
        obtain ⟨heads, htext, hheads⟩ := ih hlater
        refine ⟨head :: heads, ?_, List.forall_mem_cons.mpr ⟨hhead, hheads⟩⟩
        rw [List.flatten_cons, List.flatMap_cons, htext]
  · rintro ⟨heads, rfl, hheads⟩
    exact ⟨heads.map fun head => head.1.toList ++ head.2, rfl,
      List.forall_mem_map.mpr fun head hhead => ⟨head, rfl, hheads head hhead⟩⟩

/-- **A signature is matched** as it is written, at the edge of a word. -/
theorem matches_signaturePattern_iff {a z : Place} :
    (signaturePattern method).Matches a z
      ↔ a.before.any Text.isWord ≠ a.rest.head?.any Text.isWord
        ∧ ∃ signature rest, a.rest = signature ++ rest ∧ IsSignature method signature
          ∧ z = a.past signature rest := by
  have hbody : (sequence [
      .many (sequence [anyOf (modifiers.map word), oneOrMore (fun c => c == ' ' || c == '\t')]),
      .alt (word "void") typePattern, blanks1, word method, blanks,
      word "(", zeroOrMore (· != ')'), word ")"]).Spells (IsSignature method) := by
    refine (spells_heads.sequence_cons <| ((spells_word "void").alt
      spells_typePattern).sequence_cons <| spells_blanks1.sequence_cons <|
      (spells_word method).sequence_cons <| spells_blanks.sequence_cons <|
      (spells_word "(").sequence_cons <| spells_run.sequence_cons
      (spells_word ")").sequence_singleton).congr fun text => ?_
    simp only [bne_iff_ne]
    constructor
    · rintro ⟨_, _, rfl, ⟨heads, rfl, hheads⟩, type, _, rfl, htype, blanks, _, rfl, hblanks, _, _,
        rfl, rfl, gap, _, rfl, hgap, _, _, rfl, rfl, parameters, _, rfl, hparameters, rfl⟩
      exact ⟨heads, type, blanks, gap, parameters, rfl, hheads, htype, hblanks, hgap,
        fun h => hparameters _ h rfl⟩
    · rintro ⟨heads, type, blanks, gap, parameters, rfl, hheads, htype, hblanks, hgap, hparameters⟩
      exact ⟨_, _, rfl, ⟨heads, rfl, hheads⟩, type, _, rfl, htype, blanks, _, rfl, hblanks, _, _,
        rfl, rfl, gap, _, rfl, hgap, _, _, rfl, rfl, parameters, _, rfl,
        fun c hc heq => hparameters (heq ▸ hc), rfl⟩
  rw [signaturePattern, matches_sequence_cons]
  constructor
  · rintro ⟨b, ⟨rfl, hedge⟩, hmatch⟩
    exact ⟨hedge, (hbody _ z).mp hmatch⟩
  · rintro ⟨hedge, hmatch⟩
    exact ⟨a, ⟨rfl, hedge⟩, (hbody a z).mpr hmatch⟩

/-! ## Where a signature starts -/

/-- A signature starts with a part of a word. -/
theorem IsSignature.exists_head (h : IsSignature method text) :
    ∃ c, text.head? = some c ∧ Text.isWord c = true := by
  obtain ⟨heads, type, blanks, gap, parameters, rfl, hheads, htype, -⟩ := h
  have hmodifiers : ∀ modifier ∈ modifiers, ∃ c rest, modifier.toList = c :: rest
      ∧ Text.isWord c = true := by
    have hall : ∀ modifier ∈ modifiers, modifier.toList.head?.any Text.isWord = true := by decide
    intro modifier hmodifier
    obtain ⟨c, hhead, hc⟩ := (Option.any_eq_true _ _).mp (hall modifier hmodifier)
    obtain ⟨rest, hrest⟩ := List.head?_eq_some_iff.mp hhead
    exact ⟨c, rest, hrest, hc⟩
  cases heads with
  | cons head heads =>
      obtain ⟨c, rest, hhead, hc⟩ := hmodifiers head.1 (hheads head List.mem_cons_self).1
      refine ⟨c, ?_, hc⟩
      rw [List.flatMap_cons, hhead]
      rfl
  | nil =>
      rcases htype with rfl | ⟨capital, name, typeArguments, brackets, rfl, hcapital, -⟩
      · exact ⟨'v', rfl, by decide⟩
      · have halphanum : (capital.isUpper || capital.isLower || capital.isDigit) = true := by
          rw [hcapital, Bool.true_or, Bool.true_or]
        exact ⟨capital, rfl, Text.isWord_of_isAlphanum halphanum⟩

/-- So does a text that a signature starts. -/
theorem IsSignature.exists_head_of_prefix {signature : List Char} (h : IsSignature method signature)
    (hstarts : signature <+: text) : ∃ c, text.head? = some c ∧ Text.isWord c = true := by
  obtain ⟨rest, rfl⟩ := hstarts
  obtain ⟨c, hhead, hc⟩ := h.exists_head
  refine ⟨c, ?_, hc⟩
  rw [List.head?_append, hhead]
  rfl

/-- **A signature matches** where it is written behind no part of a word. -/
theorem matchesAt_signaturePattern_iff :
    (signaturePattern method).MatchesAt text position
      ↔ (text.take position).getLast?.any Text.isWord = false
        ∧ ∃ signature, signature <+: text.drop position ∧ IsSignature method signature := by
  -- the edge of a word in front of a signature says that the character before it is of no word
  have hfirst : ∀ {signature}, IsSignature method signature → signature <+: text.drop position →
      (text.drop position).head?.any Text.isWord = true := by
    intro signature hsignature hstarts
    obtain ⟨c, hhead, hc⟩ := hsignature.exists_head_of_prefix hstarts
    rw [hhead]
    exact hc
  constructor
  · rintro ⟨-, z, hmatch⟩
    obtain ⟨hedge, signature, rest, hrest, hsignature, -⟩ := matches_signaturePattern_iff.mp hmatch
    have hstarts : signature <+: text.drop position := ⟨rest, hrest.symm⟩
    refine ⟨?_, signature, hstarts, hsignature⟩
    rw [Place.inText, hfirst hsignature hstarts, ne_eq, Bool.not_eq_true] at hedge
    exact hedge
  · rintro ⟨hbefore, signature, hstarts, hsignature⟩
    have hword := hfirst hsignature hstarts
    obtain ⟨rest, hrest⟩ := hstarts
    refine ⟨?_, _, matches_signaturePattern_iff.mpr
      ⟨?_, signature, rest, hrest.symm, hsignature, rfl⟩⟩
    · by_contra hfar
      rw [List.drop_eq_nil_of_le (Nat.le_of_not_le hfar)] at hword
      cases hword
    · rw [Place.inText, hbefore, hword]
      exact Bool.false_ne_true

/-- A signature does not start with a blank. -/
theorem exists_head_of_matchesAt (h : (signaturePattern method).MatchesAt text position) :
    ∃ c, (text.drop position).head? = some c ∧ Text.isBlank c = false := by
  obtain ⟨-, signature, hstarts, hsignature⟩ := matchesAt_signaturePattern_iff.mp h
  obtain ⟨c, hhead, hc⟩ := hsignature.exists_head_of_prefix hstarts
  exact ⟨c, hhead, Text.isBlank_of_isWord hc⟩

end FailureTriage.Window
