import FailureTriage.Proofs.Dependency.Declarations

/-!
# Declared types

The type of a variable is taken from its first declaration in the text.  The pattern of a
declaration may start with a word for the visibility and blanks, which changes nothing: they have
no capitals, so the type is the first one behind them.  But the pattern asks for nothing before the
type, so what is taken for the type may be the end of a longer word.

* `DeclaredAt`, `FirstDeclared`: where a text declares a variable.
* `declaredType?_eq_some_iff`: the declared type is the one of the first declaration.
-/

namespace FailureTriage

namespace DependencyRule

open Pattern

/-- A character inside the type arguments of a declared variable. -/
def inDeclaredArguments (c : Char) : Bool :=
  inTypeArguments c && c != '\x7b' && c != '\x7d'

theorem endsDeclaration_of_inDeclaredArguments {c : Char} (h : inDeclaredArguments c = true) :
    endsDeclaration c = false := by
  rw [inDeclaredArguments, Bool.and_eq_true, Bool.and_eq_true] at h
  exact endsDeclaration_of_inTypeArguments h.1.1

variable {text field type other : List Char} {position : Nat}

/-- Whether a declaration of a variable, with a type of at least two characters, stands in a text
    after so many characters.  Nothing is said about the character before the type. -/
def DeclaredAt (text : List Char) (position : Nat) (field type : List Char) : Prop :=
  ∃ before after, ∃ d : VariableDeclaration inDeclaredArguments,
    text = before ++ (d.text ++ after) ∧ before.length = position
      ∧ d.field = field ∧ d.type = type ∧ 2 ≤ type.length

/-- Whether the first declaration of a variable in a text has a type. -/
def FirstDeclared (text field type : List Char) : Prop :=
  ∃ position, DeclaredAt text position field type
    ∧ ∀ earlier < position, ∀ other, ¬ DeclaredAt text earlier field other

/-- At a place only one type is declared. -/
theorem DeclaredAt.unique {field' : List Char} (h : DeclaredAt text position field type)
    (hother : DeclaredAt text position field' other) : type = other := by
  obtain ⟨before, after, d, htext, hlength, -, rfl, -⟩ := h
  obtain ⟨before', after', e, htext', hlength', -, rfl, -⟩ := hother
  have hsame := (List.append_inj (htext.symm.trans htext') (hlength.trans hlength'.symm)).2
  exact (VariableDeclaration.eq_of_append (fun c => endsDeclaration_of_inDeclaredArguments)
    hsame).1

/-- There is only one first declaration. -/
theorem FirstDeclared.unique (h : FirstDeclared text field type)
    (hother : FirstDeclared text field other) : type = other := by
  obtain ⟨position, hdeclared, hfirst⟩ := h
  obtain ⟨position', hdeclared', hfirst'⟩ := hother
  rcases Nat.lt_trichotomy position position' with hlt | rfl | hlt
  · exact absurd hdeclared (hfirst' position hlt type)
  · exact hdeclared.unique hdeclared'
  · exact absurd hdeclared' (hfirst position' hlt other)

/-! ## What the pattern matches -/

/-- The patterns of what may stand before a type. -/
def visibilityParts : List Pattern :=
  [opt (anyOf (visibilities.map word)), blanks]

/-- The pattern of a type of at least two characters. -/
def longName : Pattern :=
  sequence [.one (·.isUpper), oneOrMore inAsciiName]

/-- The patterns of what follows the type of a variable. -/
def declaredParts (field : List Char) : List Pattern :=
  [opt (sequence [word "<", zeroOrMore inDeclaredArguments, word ">"]), blanks1, literal field,
    sequence [blanks, .one endsDeclaration]]

theorem declaration_eq (field : List Char) :
    declaration field = sequence (visibilityParts ++ .group 1 longName :: declaredParts field) :=
  rfl

/-- What stands before a type has no capitals. -/
theorem spells_visibilityParts :
    (sequence visibilityParts).Spells fun text => ∃ visibility gap, text = visibility ++ gap
      ∧ ((∃ known ∈ visibilities, visibility = known.toList) ∨ visibility = [])
      ∧ ∀ c ∈ gap, Text.isBlank c = true :=
  (spells_opt (spells_anyOf_word visibilities)).sequence_cons spells_blanks.sequence_singleton

theorem spells_longName :
    longName.Spells fun text => IsSimpleName text ∧ 2 ≤ text.length := by
  refine (spells_one.sequence_cons spells_oneOrMore.sequence_singleton).congr fun text => ?_
  constructor
  · rintro ⟨_, rest, rfl, ⟨c, rfl, hc⟩, hne, hrest⟩
    refine ⟨⟨c, rest, rfl, hc, hrest⟩, ?_⟩
    exact Nat.succ_le_succ (List.length_pos_iff.mpr hne)
  · rintro ⟨⟨c, rest, rfl, hc, hrest⟩, hlength⟩
    refine ⟨[c], rest, rfl, ⟨c, rfl, hc⟩, ?_, hrest⟩
    exact List.length_pos_iff.mp (Nat.le_of_succ_le_succ hlength)

theorem spells_declaredParts (field : List Char) :
    (sequence (declaredParts field)).Spells fun text => ∃ arguments space gap mark,
      text = arguments ++ (space ++ (field ++ (gap ++ [mark])))
        ∧ (IsTypeArguments inDeclaredArguments arguments ∨ arguments = [])
        ∧ (space ≠ [] ∧ ∀ c ∈ space, Text.isBlank c = true)
        ∧ (∀ c ∈ gap, Text.isBlank c = true) ∧ endsDeclaration mark = true := by
  refine (spells_typeArguments.sequence_cons <| spells_blanks1.sequence_cons <|
    (spells_literal field).sequence_cons
      spells_declarationEnd.sequence_singleton).congr fun text => ?_
  constructor
  · rintro ⟨arguments, _, rfl, harguments, space, _, rfl, hspace, _, _, rfl, rfl, gap, mark, rfl,
      hend⟩
    exact ⟨arguments, space, gap, mark, rfl, harguments, hspace, hend⟩
  · rintro ⟨arguments, space, gap, mark, rfl, harguments, hspace, hend⟩
    exact ⟨arguments, _, rfl, harguments, space, _, rfl, hspace, field, _, rfl, rfl, gap, mark, rfl,
      hend⟩

/-- What follows the type has no groups. -/
theorem isPlain_declaredParts (field : List Char) :
    (sequence (declaredParts field)).isPlain = true := by
  show (true && (true && ((literal field).isPlain && true))) = true
  rw [isPlain_literal]
  rfl

/-- A declaration starts with a capital. -/
theorem DeclaredAt.isUpper (h : DeclaredAt text position field type) :
    text[position]?.any (·.isUpper) = true := by
  obtain ⟨before, after, d, rfl, rfl, -, -, -⟩ := h
  obtain ⟨c, name, hname, hc, -⟩ := d.isType
  rw [List.getElem?_append_right (Nat.le_refl _), Nat.sub_self, VariableDeclaration.text_append,
    hname]
  exact hc

/-- A text without capitals before a type can be skipped. -/
theorem not_declaredAt_of_mem {before lead after : List Char}
    (hlead : ∀ c ∈ lead, (!c.isUpper) = true) (htext : text = before ++ (lead ++ after))
    (hge : before.length ≤ position) (hlt : position < before.length + lead.length) :
    ¬ DeclaredAt text position field type := by
  intro h
  have hupper := h.isUpper
  have hlength : position - before.length < lead.length := by omega
  rw [htext, List.getElem?_append_right hge, List.getElem?_append_left hlength,
    List.getElem?_eq_getElem hlength, Option.any_some] at hupper
  have hnot := hlead _ (List.getElem_mem hlength)
  rw [hupper] at hnot
  cases hnot

/-- **What is matched** is the first declaration from a place on, and its type is kept. -/
theorem declaredAt_of_matchAt? (hfield : field ≠ [] ∧ ∀ c ∈ field, Text.isWord c = true)
    (hle : position ≤ text.length) {m : Match}
    (h : (declaration field).matchAt? (Place.inText text position) = some m) :
    ∃ start type, m.group? 1 = some type ∧ DeclaredAt text start field type
      ∧ ∀ earlier, position ≤ earlier → earlier < start → ∀ other,
        ¬ DeclaredAt text earlier field other := by
  rw [declaration_eq] at h
  obtain ⟨u, v, z, hbefore, hbody, hbehind, hgroup, -⟩ :=
    exists_kept rfl rfl (isPlain_declaredParts field) h
  obtain ⟨_, rest, hrest, ⟨visibility, gap, rfl, hvisibility, hgap⟩, rfl⟩ :=
    (spells_visibilityParts _ _).mp hbefore
  obtain ⟨type, rest, rfl, ⟨htype, hlong⟩, rfl⟩ := (spells_longName _ _).mp hbody
  obtain ⟨_, tail, rfl, ⟨arguments, space, trail, mark, rfl, harguments, hspace, htrail, hmark⟩,
    rfl⟩ := (spells_declaredParts field _ _).mp hbehind
  have hlead : ∀ c ∈ visibility ++ gap, (!c.isUpper) = true := by
    refine List.forall_mem_append.mpr ⟨?_, fun c hc => isUpper_of_isBlank (hgap c hc)⟩
    rcases hvisibility with ⟨known, hknown, rfl⟩ | rfl
    · exact forall_chars_of_all (by decide) known hknown
    · exact List.forall_mem_nil _
  let d : VariableDeclaration inDeclaredArguments := {
    type, arguments, space, field, gap := trail, mark
    isType := htype
    isArguments := harguments
    isSpace := hspace
    isField := hfield
    isGap := htrail
    isMark := hmark }
  have htext : text = text.take position ++ ((visibility ++ gap) ++ (d.text ++ tail)) := by
    conv_lhs => rw [← List.take_append_drop position text, show text.drop position = _ from hrest]
    simp only [d, VariableDeclaration.text, VariableDeclaration.body, List.append_assoc]
  have hlength : (text.take position).length = position := List.length_take_of_le hle
  refine ⟨position + (visibility ++ gap).length, type, ?_, ?_, fun earlier hge hlt other => ?_⟩
  · rw [hgroup, Span.text_past rfl]
  · refine ⟨text.take position ++ (visibility ++ gap), tail, d, ?_, ?_, rfl, rfl, hlong⟩
    · rw [List.append_assoc]
      exact htext
    · rw [List.length_append, hlength]
  · exact not_declaredAt_of_mem hlead htext (hlength.symm ▸ hge) (hlength.symm ▸ hlt)

/-- Where a variable is declared the pattern matches. -/
theorem DeclaredAt.matchesAt (h : DeclaredAt text position field type) :
    (declaration field).MatchesAt text position := by
  obtain ⟨before, after, d, rfl, rfl, rfl, rfl, hlong⟩ := h
  refine ⟨?_, ?_⟩
  · rw [List.length_append]
    exact Nat.le_add_right _ _
  rw [inText_append, declaration_eq]
  let a : Place := ⟨before.length, before.getLast?, d.text ++ after⟩
  let v := a.past d.type (d.arguments ++ d.ending ++ after)
  have hbefore : (sequence visibilityParts).Matches a a :=
    spells_visibilityParts.matches_past ⟨[], [], rfl, Or.inr rfl, List.forall_mem_nil _⟩ rfl
  have htype : longName.Matches a v :=
    spells_longName.matches_past ⟨d.isType, hlong⟩
      (by simp only [a, VariableDeclaration.text_append_ending, List.append_assoc])
  have hending : (sequence (declaredParts d.field)).Matches v
      (v.past (d.arguments ++ d.ending) after) :=
    (spells_declaredParts d.field).matches_past ⟨d.arguments, d.space, d.gap, d.mark, rfl,
      d.isArguments, d.isSpace, d.isGap, d.isMark⟩ rfl
  exact ⟨_, matches_sequence_append.mpr ⟨a, hbefore, matches_sequence_cons.mpr ⟨v, htype, hending⟩⟩⟩

/-- **The declared type** of a variable is the type in its first declaration, where a declaration
    may start within a word. -/
theorem declaredType?_eq_some_iff (hfield : field ≠ [] ∧ ∀ c ∈ field, Text.isWord c = true) :
    declaredType? text field = some type ↔ FirstDeclared text field type := by
  have hfound : ∀ {type}, declaredType? text field = some type → FirstDeclared text field type := by
    intro type h
    obtain ⟨m, hm, hgroup⟩ := Option.bind_eq_some_iff.mp h
    obtain ⟨position, hmatch, hhere, hleftmost⟩ := exists_leftmost_of_find? hm
    obtain ⟨start, type', hgroup', hdeclared, hfirst⟩ :=
      declaredAt_of_matchAt? hfield hhere.1 hmatch
    obtain rfl := Option.some.inj (hgroup.symm.trans hgroup')
    refine ⟨start, hdeclared, fun earlier hlt other hother => ?_⟩
    rcases Nat.lt_or_ge earlier position with hbefore | hlater
    · exact hleftmost earlier hbefore hother.matchesAt
    · exact hfirst earlier hlater hlt other hother
  refine ⟨hfound, fun h => ?_⟩
  obtain ⟨position, hdeclared, -⟩ := id h
  cases hm : (declaration field).find? text with
  | none => exact absurd hdeclared.matchesAt (find?_eq_none_iff.mp hm position)
  | some m =>
      obtain ⟨start, hmatch, hhere, -⟩ := exists_leftmost_of_find? hm
      obtain ⟨-, type', hgroup, -⟩ := declaredAt_of_matchAt? hfield hhere.1 hmatch
      have hsome : declaredType? text field = some type' := by
        rw [declaredType?, hm]
        exact hgroup
      rw [hsome, (hfound hsome).unique h]

end DependencyRule

end FailureTriage
