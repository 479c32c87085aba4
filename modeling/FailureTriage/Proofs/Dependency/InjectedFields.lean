import FailureTriage.Proofs.Dependency.Declarations

/-!
# Injected fields

The rule for injected fields reads a source text from annotation to annotation.  Whatever stands
between the declarations, if only it has no at sign in it, every declaration is found, and nothing
else.

* `InjectedDeclaration`: the declaration of an injected field as it is written.
* `InjectedDeclaration.eq_of_append`: what is read at an annotation as such a declaration.
* `declaration_of_matchAt?`, `exists_matchAt?_of_declaration`: what the pattern matches.
* `InjectedSource.typesIn_text`: the types that are found in a source text.
-/

namespace FailureTriage

namespace DependencyRule

open Pattern

/-! ## Declarations as they are written -/

/-- One of some words and blanks behind it. -/
def IsModifier (words : List String) (text : List Char) : Prop :=
  ∃ known ∈ words, ∃ space, text = known.toList ++ space
    ∧ space ≠ [] ∧ ∀ c ∈ space, Text.isBlank c = true

/-- The arguments of an annotation, which end with the first closing parenthesis. -/
def IsAnnotationArguments (text : List Char) : Prop :=
  ∃ inner, text = '(' :: (inner ++ [')']) ∧ ∀ c ∈ inner, (c != ')') = true

/-- Words without capitals stand before a capital. -/
theorem IsModifier.not_isUpper {words : List String} {text : List Char}
    (h : IsModifier words text ∨ text = [])
    (hwords : ∀ known ∈ words, ∀ c ∈ known.toList, (!c.isUpper) = true) :
    ∀ c ∈ text, (!c.isUpper) = true := by
  rcases h with ⟨known, hknown, space, rfl, -, hspace⟩ | rfl
  · exact List.forall_mem_append.mpr
      ⟨hwords known hknown, fun c hc => isUpper_of_isBlank (hspace c hc)⟩
  · exact List.forall_mem_nil _

/-- The declaration of an injected field as it is written: an annotation with one of the markers and
    its arguments, blanks, the words before the type, and the declaration of a variable. -/
structure InjectedDeclaration where
  marker : String
  arguments : List Char
  gap : List Char
  visibility : List Char
  finality : List Char
  declared : VariableDeclaration inTypeArguments
  isMarker : marker ∈ injectionMarkers
  isArguments : IsAnnotationArguments arguments ∨ arguments = []
  isGap : ∀ c ∈ gap, Text.isBlank c = true
  /-- Something stands between the marker and what follows it. -/
  isApart : arguments = [] → gap ≠ []
  isVisibility : IsModifier visibilities visibility ∨ visibility = []
  isFinality : IsModifier ["final"] finality ∨ finality = []

namespace InjectedDeclaration

variable {d e : InjectedDeclaration} {tail tail' : List Char}

/-- The type of the field, without type arguments. -/
def type (d : InjectedDeclaration) : String :=
  String.ofList d.declared.type

/-- What stands between the annotation and the type. -/
def lead (d : InjectedDeclaration) : List Char :=
  d.gap ++ (d.visibility ++ d.finality)

/-- The text of a declaration. -/
def text (d : InjectedDeclaration) : List Char :=
  '@' :: (d.marker.toList ++ (d.arguments ++ (d.lead ++ d.declared.text)))

theorem text_append (d : InjectedDeclaration) (tail : List Char) :
    d.text ++ tail
      = '@' :: (d.marker.toList ++ (d.arguments ++ (d.lead ++ (d.declared.text ++ tail)))) := by
  simp only [text, List.cons_append, List.append_assoc]

/-- The type starts with the first capital behind the annotation. -/
theorem not_isUpper_of_mem_lead (d : InjectedDeclaration) : ∀ c ∈ d.lead, (!c.isUpper) = true := by
  have hvisibility := IsModifier.not_isUpper d.isVisibility (forall_chars_of_all (by decide))
  have hfinality := IsModifier.not_isUpper d.isFinality (forall_chars_of_all (by decide))
  exact List.forall_mem_append.mpr ⟨fun c hc => isUpper_of_isBlank (d.isGap c hc),
    List.forall_mem_append.mpr ⟨hvisibility, hfinality⟩⟩

/-- Without arguments a blank follows the marker. -/
theorem exists_blank (d : InjectedDeclaration) (hnone : d.arguments = []) (rest : List Char) :
    ∃ c more, d.arguments ++ (d.lead ++ rest) = c :: more ∧ Text.isBlank c = true := by
  obtain ⟨c, gap, hgap⟩ := List.exists_cons_of_ne_nil (d.isApart hnone)
  refine ⟨c, gap ++ (d.visibility ++ d.finality) ++ rest, ?_, ?_⟩
  · rw [hnone, lead, hgap, List.nil_append, List.cons_append, List.cons_append]
  · exact d.isGap c (hgap ▸ List.mem_cons_self)

/-- No part of a word follows the marker. -/
theorem head?_behind_marker (d : InjectedDeclaration) (rest : List Char) :
    (d.arguments ++ (d.lead ++ rest)).head?.any Text.isWord = false := by
  rcases d.isArguments with ⟨inner, harguments, -⟩ | hnone
  · rw [harguments]
    rfl
  · obtain ⟨c, more, hmore, hc⟩ := d.exists_blank hnone rest
    rw [hmore]
    exact Text.isWord_of_isBlank hc

/-- Arguments are read in one way only. -/
theorem arguments_eq_of_append {rest rest' : List Char}
    (h : d.arguments ++ (d.lead ++ rest) = e.arguments ++ (e.lead ++ rest')) :
    d.arguments = e.arguments := by
  rcases d.isArguments with ⟨inner, hd, hinner⟩ | hd <;>
    rcases e.isArguments with ⟨inner', he, hinner'⟩ | he
  · rw [hd, he, List.cons_append, List.cons_append, List.append_assoc, List.append_assoc] at h
    have hsame := Text.append_inj_of_class hinner hinner' rfl rfl (List.cons.inj h).2
    rw [hd, he, hsame.1]
  · obtain ⟨c, more, hmore, hc⟩ := e.exists_blank he rest'
    rw [hd, hmore] at h
    rw [← (List.cons.inj h).1] at hc
    cases hc
  · obtain ⟨c, more, hmore, hc⟩ := d.exists_blank hd rest
    rw [he, hmore] at h
    rw [(List.cons.inj h).1] at hc
    cases hc
  · rw [hd, he]

/-- The markers are words. -/
theorem isWord_of_marker : ∀ marker ∈ injectionMarkers, ∀ c ∈ marker.toList,
    Text.isWord c = true :=
  forall_chars_of_all (by decide +kernel)

/-- A declared type starts with a capital. -/
theorem head?_declared (d : InjectedDeclaration) (rest : List Char) :
    (d.declared.text ++ rest).head?.any (fun c => !c.isUpper) = false := by
  obtain ⟨c, name, hname, hc, -⟩ := d.declared.isType
  rw [VariableDeclaration.text_append, hname]
  show (!c.isUpper) = false
  rw [hc, Bool.not_true]

/-- **A text is read as a declaration** of an injected field in one way only. -/
theorem eq_of_append (h : d.text ++ tail = e.text ++ tail') :
    d.declared.type = e.declared.type ∧ d.text = e.text := by
  rw [text_append, text_append] at h
  obtain ⟨hmarker, hrest⟩ := Text.append_inj_of_class (isWord_of_marker _ d.isMarker)
    (isWord_of_marker _ e.isMarker) (d.head?_behind_marker _) (e.head?_behind_marker _)
    (List.cons.inj h).2
  have harguments := arguments_eq_of_append hrest
  rw [harguments] at hrest
  obtain ⟨hlead, hdeclared⟩ := Text.append_inj_of_class d.not_isUpper_of_mem_lead
    e.not_isUpper_of_mem_lead (d.head?_declared _) (e.head?_declared _)
    (List.append_cancel_left hrest)
  obtain ⟨htype, htext⟩ := VariableDeclaration.eq_of_append
    (fun c => endsDeclaration_of_inTypeArguments) hdeclared
  refine ⟨htype, ?_⟩
  rw [text, text, hmarker, harguments, hlead, htext]

end InjectedDeclaration

/-! ## What the pattern matches -/

/-- The pattern of an annotation that marks an injected field. -/
def markerParts : List Pattern :=
  [word "@", anyOf (injectionMarkers.map word)]

/-- The patterns of what may stand between the marker and the type. -/
def leadParts : List Pattern :=
  [opt (sequence [word "(", zeroOrMore (· != ')'), word ")"]), blanks,
    opt (sequence [anyOf (visibilities.map word), blanks1]),
    opt (sequence [anyOf (["final"].map word), blanks1])]

/-- The pattern of a type and its type arguments. -/
def injectedType : Pattern :=
  sequence [.one (·.isUpper), zeroOrMore inAsciiName,
    opt (sequence [word "<", .run inTypeArguments true, word ">"])]

/-- The patterns of what follows the type. -/
def fieldParts : List Pattern :=
  [blanks1, oneOrMore Text.isWord, sequence [blanks, .one endsDeclaration]]

theorem injectedField_pattern :
    injectedField.pattern
      = sequence ((markerParts ++ .wordEdge :: leadParts) ++ .group 1 injectedType :: fieldParts) :=
  rfl

theorem spells_modifier (words : List String) :
    (sequence [anyOf (words.map word), blanks1]).Spells (IsModifier words) := by
  refine ((spells_anyOf_word words).sequence_cons
    spells_blanks1.sequence_singleton).congr fun text => ?_
  constructor
  · rintro ⟨_, space, rfl, ⟨known, hknown, rfl⟩, hspace⟩
    exact ⟨known, hknown, space, rfl, hspace⟩
  · rintro ⟨known, hknown, space, rfl, hspace⟩
    exact ⟨_, space, rfl, ⟨known, hknown, rfl⟩, hspace⟩

theorem spells_markerParts :
    (sequence markerParts).Spells fun text =>
      ∃ marker ∈ injectionMarkers, text = '@' :: marker.toList := by
  refine ((spells_word "@").sequence_cons
    (spells_anyOf_word injectionMarkers).sequence_singleton).congr fun text => ?_
  constructor
  · rintro ⟨_, _, rfl, rfl, marker, hmarker, rfl⟩
    exact ⟨marker, hmarker, rfl⟩
  · rintro ⟨marker, hmarker, rfl⟩
    exact ⟨_, _, rfl, rfl, marker, hmarker, rfl⟩

theorem spells_leadParts :
    (sequence leadParts).Spells fun text => ∃ arguments gap visibility finality,
      text = arguments ++ (gap ++ (visibility ++ finality))
        ∧ (IsAnnotationArguments arguments ∨ arguments = [])
        ∧ (∀ c ∈ gap, Text.isBlank c = true)
        ∧ (IsModifier visibilities visibility ∨ visibility = [])
        ∧ (IsModifier ["final"] finality ∨ finality = []) := by
  have harguments : (opt (sequence [word "(", zeroOrMore (· != ')'), word ")"])).Spells
      fun text => IsAnnotationArguments text ∨ text = [] :=
    spells_opt (spells_between "(" ")")
  refine (harguments.sequence_cons <| spells_blanks.sequence_cons <|
    (spells_opt (spells_modifier visibilities)).sequence_cons
      (spells_opt (spells_modifier ["final"])).sequence_singleton).congr fun text => ?_
  constructor
  · rintro ⟨arguments, _, rfl, harguments, gap, _, rfl, hgap, visibility, finality, rfl, hrest⟩
    exact ⟨arguments, gap, visibility, finality, rfl, harguments, hgap, hrest⟩
  · rintro ⟨arguments, gap, visibility, finality, rfl, harguments, hgap, hrest⟩
    exact ⟨arguments, _, rfl, harguments, gap, _, rfl, hgap, visibility, finality, rfl, hrest⟩

theorem spells_injectedType :
    injectedType.Spells fun text => ∃ type arguments, text = type ++ arguments
      ∧ IsSimpleName type ∧ (IsTypeArguments inTypeArguments arguments ∨ arguments = []) := by
  refine (spells_one.sequence_cons <| spells_run.sequence_cons
    spells_typeArguments.sequence_singleton).congr fun text => ?_
  constructor
  · rintro ⟨_, _, rfl, ⟨c, rfl, hc⟩, rest, arguments, rfl, hrest, harguments⟩
    exact ⟨c :: rest, arguments, rfl, ⟨c, rest, rfl, hc, hrest⟩, harguments⟩
  · rintro ⟨_, arguments, rfl, ⟨c, rest, rfl, hc, hrest⟩, harguments⟩
    exact ⟨[c], _, rfl, ⟨c, rfl, hc⟩, rest, arguments, rfl, hrest, harguments⟩

theorem spells_fieldParts :
    (sequence fieldParts).Spells fun text => ∃ space field gap mark,
      text = space ++ (field ++ (gap ++ [mark]))
        ∧ (space ≠ [] ∧ ∀ c ∈ space, Text.isBlank c = true)
        ∧ (field ≠ [] ∧ ∀ c ∈ field, Text.isWord c = true)
        ∧ (∀ c ∈ gap, Text.isBlank c = true) ∧ endsDeclaration mark = true := by
  refine (spells_blanks1.sequence_cons <| spells_oneOrMore.sequence_cons
    spells_declarationEnd.sequence_singleton).congr fun text => ?_
  constructor
  · rintro ⟨space, _, rfl, hspace, field, _, rfl, hfield, gap, mark, rfl, hend⟩
    exact ⟨space, field, gap, mark, rfl, hspace, hfield, hend⟩
  · rintro ⟨space, field, gap, mark, rfl, hspace, hfield, hend⟩
    exact ⟨space, _, rfl, hspace, field, _, rfl, hfield, gap, mark, rfl, hend⟩

/-- A text that starts with a part of a word still does with more behind it. -/
theorem head?_isWord_append {text : List Char} (h : text.head?.any Text.isWord = true)
    (rest : List Char) : (text ++ rest).head?.any Text.isWord = true := by
  cases text with
  | nil => cases h
  | cons c text => exact h

/-- What stands between blanks and the end of a type starts with a part of a word. -/
private theorem head?_modifiers {visibility finality type rest : List Char}
    (hvisibility : IsModifier visibilities visibility ∨ visibility = [])
    (hfinality : IsModifier ["final"] finality ∨ finality = []) (htype : IsSimpleName type) :
    (visibility ++ (finality ++ (type ++ rest))).head?.any Text.isWord = true := by
  have hwords : ∀ known ∈ visibilities ++ ["final"],
      known.toList.head?.any Text.isWord = true := by decide +kernel
  rcases hvisibility with ⟨known, hknown, space, rfl, -⟩ | rfl
  · rw [List.append_assoc]
    exact head?_isWord_append (hwords known (List.mem_append_left _ hknown)) _
  rcases hfinality with ⟨known, hknown, space, rfl, -⟩ | rfl
  · rw [List.nil_append, List.append_assoc]
    exact head?_isWord_append (hwords known (List.mem_append_right _ hknown)) _
  · obtain ⟨c, name, rfl, hc, -⟩ := htype
    exact isWord_of_inAsciiName (inAsciiName_of_isUpper hc)

/-- A word ends with a marker. -/
theorem isWord_getLast?_marker :
    ∀ marker ∈ injectionMarkers, ('@' :: marker.toList).getLast?.any Text.isWord = true := by
  decide +kernel

section

variable {a : Place} {tail : List Char}

/-- **What is matched** is the declaration of an injected field, and its type is kept with the type
    arguments. -/
theorem declaration_of_matchAt? {m : Match} (h : injectedField.pattern.matchAt? a = some m) :
    ∃ d : InjectedDeclaration, ∃ tail, a.rest = d.text ++ tail
      ∧ m.span.stop = a.index + d.text.length
      ∧ m.group? 1 = some (d.declared.type ++ d.declared.arguments) := by
  rw [injectedField_pattern] at h
  obtain ⟨u, v, z, hbefore, hbody, hbehind, hgroup, hstop⟩ := exists_kept rfl rfl rfl h
  obtain ⟨b, hmarker, hrest⟩ := matches_sequence_append.mp hbefore
  obtain ⟨_, ⟨rfl, hedge⟩, hlead⟩ := matches_sequence_cons.mp hrest
  obtain ⟨_, rest, hstart, ⟨marker, hmem, rfl⟩, rfl⟩ := (spells_markerParts _ _).mp hmarker
  obtain ⟨_, rest, rfl, ⟨arguments, gap, visibility, finality, rfl, harguments, hgap, hvisibility,
    hfinality⟩, rfl⟩ := (spells_leadParts _ _).mp hlead
  obtain ⟨_, rest, rfl, ⟨type, typeArguments, rfl, htype, htypeArguments⟩, rfl⟩ :=
    (spells_injectedType _ _).mp hbody
  obtain ⟨_, tail, rfl, ⟨space, field, trail, mark, rfl, hspace, hfield, htrail, hmark⟩, rfl⟩ :=
    (spells_fieldParts _ _).mp hbehind
  -- the word ends with the marker, so something that is no part of a word follows it
  have hapart : arguments = [] → gap ≠ [] := by
    rintro rfl rfl
    refine hedge ?_
    simp only [Place.past, List.getLast?_cons, Option.some_or, List.nil_append, List.append_assoc]
    have hlast := isWord_getLast?_marker marker hmem
    rw [List.getLast?_cons] at hlast
    exact hlast.trans (head?_modifiers hvisibility hfinality htype).symm
  let d : InjectedDeclaration := {
    marker, arguments, gap, visibility, finality
    declared := {
      type, arguments := typeArguments, space, field, gap := trail, mark
      isType := htype
      isArguments := htypeArguments
      isSpace := hspace
      isField := hfield
      isGap := htrail
      isMark := hmark }
    isMarker := hmem
    isArguments := harguments
    isGap := hgap
    isApart := hapart
    isVisibility := hvisibility
    isFinality := hfinality }
  refine ⟨d, tail, ?_, ?_, ?_⟩
  · simp only [hstart, d, InjectedDeclaration.text, InjectedDeclaration.lead,
      VariableDeclaration.text, VariableDeclaration.body, List.append_assoc, List.cons_append,
      List.nil_append]
  · rw [hstop]
    simp only [d, InjectedDeclaration.text, InjectedDeclaration.lead, Place.past_index,
      VariableDeclaration.text, VariableDeclaration.body, List.length_append, List.length_cons]
    omega
  · rw [hgroup, Span.text_past rfl]

/-- **A declaration is matched** at its annotation. -/
theorem exists_matchAt?_of_declaration {d : InjectedDeclaration} (hrest : a.rest = d.text ++ tail) :
    ∃ m, injectedField.pattern.matchAt? a = some m := by
  -- the places behind the marker, before the type, and behind the type
  let b := a.past ('@' :: d.marker.toList) (d.arguments ++ (d.lead ++ (d.declared.text ++ tail)))
  let u := b.past (d.arguments ++ d.lead) (d.declared.text ++ tail)
  let v := u.past (d.declared.type ++ d.declared.arguments) (d.declared.ending ++ tail)
  have hmarker : (sequence markerParts).Matches a b :=
    spells_markerParts.matches_past ⟨d.marker, d.isMarker, rfl⟩ (hrest.trans (d.text_append tail))
  have hedge : b.before.any Text.isWord ≠ b.rest.head?.any Text.isWord := by
    have hlast : b.before.any Text.isWord = true := isWord_getLast?_marker d.marker d.isMarker
    have hnext : b.rest.head?.any Text.isWord = false := d.head?_behind_marker _
    rw [hlast, hnext]
    exact Bool.noConfusion
  have hlead : (sequence leadParts).Matches b u :=
    spells_leadParts.matches_past ⟨d.arguments, d.gap, d.visibility, d.finality, rfl,
      d.isArguments, d.isGap, d.isVisibility, d.isFinality⟩ (List.append_assoc ..).symm
  have htype : injectedType.Matches u v :=
    spells_injectedType.matches_past ⟨d.declared.type, d.declared.arguments, rfl,
      d.declared.isType, d.declared.isArguments⟩ (d.declared.text_append_ending tail)
  have hending : (sequence fieldParts).Matches v (v.past d.declared.ending tail) :=
    spells_fieldParts.matches_past ⟨d.declared.space, d.declared.field, d.declared.gap,
      d.declared.mark, rfl, d.declared.isSpace, d.declared.isField, d.declared.isGap,
      d.declared.isMark⟩ rfl
  have hbefore : (sequence (markerParts ++ .wordEdge :: leadParts)).Matches a u :=
    matches_sequence_append.mpr ⟨b, hmarker, matches_sequence_cons.mpr ⟨b, ⟨rfl, hedge⟩, hlead⟩⟩
  rw [injectedField_pattern]
  exact exists_matchAt?_of_matches (matches_sequence_append.mpr
    ⟨u, hbefore, matches_sequence_cons.mpr ⟨v, htype, hending⟩⟩)

/-- **At the annotation of a declaration** just this declaration is matched. -/
theorem matchAt?_declaration {d : InjectedDeclaration} (hrest : a.rest = d.text ++ tail) :
    ∃ m, injectedField.pattern.matchAt? a = some m
      ∧ m.span.stop = a.index + d.text.length
      ∧ (m.group? 1).map stripGenerics = some d.declared.type := by
  obtain ⟨m, hm⟩ := exists_matchAt?_of_declaration hrest
  obtain ⟨e, tail', hsame, hstop, hgroup⟩ := declaration_of_matchAt? hm
  obtain ⟨htype, htext⟩ := InjectedDeclaration.eq_of_append (hrest.symm.trans hsame)
  refine ⟨m, hm, htext ▸ hstop, ?_⟩
  rw [hgroup, Option.map_some, stripGenerics_append e.declared.isType, htype]
  refine e.declared.isArguments.symm.imp_right ?_
  rintro ⟨inner, harguments, -⟩
  exact ⟨_, harguments⟩

end

/-! ## Source texts -/

/-- A source text: declarations of injected fields, each behind a text without at signs, and such a
    text at its end. -/
structure InjectedSource where
  pieces : List (List Char × InjectedDeclaration)
  tail : List Char
  isPlain : ∀ piece ∈ pieces, '@' ∉ piece.1
  isPlainTail : '@' ∉ tail

namespace InjectedSource

/-- The characters of declarations and what stands around them. -/
def chars (pieces : List (List Char × InjectedDeclaration)) (tail : List Char) : List Char :=
  pieces.flatMap (fun piece => piece.1 ++ piece.2.text) ++ tail

/-- The source text. -/
def text (source : InjectedSource) : String :=
  String.ofList (chars source.pieces source.tail)

/-- The types of the fields that are declared. -/
def types (source : InjectedSource) : List String :=
  source.pieces.map fun piece => piece.2.type

theorem chars_cons (plain : List Char) (d : InjectedDeclaration)
    (pieces : List (List Char × InjectedDeclaration)) (tail : List Char) :
    chars ((plain, d) :: pieces) tail = plain ++ (d.text ++ chars pieces tail) := by
  rw [chars, List.flatMap_cons, List.append_assoc, List.append_assoc]
  rfl

/-- Only at an at sign something can be matched. -/
theorem matchAt?_eq_none {place : Place} (h : place.rest.head? ≠ some '@') :
    injectedField.pattern.matchAt? place = none := by
  have hstart : injectedField.pattern.StartsIn (· = '@') := 
    (@startsIn_word (· = '@') "@" '@' rfl rfl).sequence _
  rw [matchAt?_eq_thenTry]
  exact hstart.thenTry_eq_none fun c hc heq => h (heq ▸ hc)

/-- A text without at signs is passed over. -/
theorem findAllFrom_plain {plain : List Char} (hplain : '@' ∉ plain) (done rest : List Char)
    (resume : Nat) :
    injectedField.pattern.findAllFrom done.length done.getLast? (plain ++ rest) resume []
      = injectedField.pattern.findAllFrom (done ++ plain).length (done ++ plain).getLast? rest
          resume [] := by
  refine findAllFrom_pass rest fun before after hsplit hne => Or.inr ?_
  refine matchAt?_eq_none fun hhead => ?_
  obtain ⟨c, after, rfl⟩ := List.exists_cons_of_ne_nil hne
  obtain rfl := Option.some.inj hhead
  exact hplain (hsplit ▸ List.mem_append_right before List.mem_cons_self)

/-- **The types that are found** from a place on are those of the declarations from there on. -/
theorem found_eq {pieces : List (List Char × InjectedDeclaration)} {tail : List Char}
    (hplain : ∀ piece ∈ pieces, '@' ∉ piece.1) (htail : '@' ∉ tail) {done : List Char}
    {resume : Nat} (hresume : resume ≤ done.length) :
    (injectedField.pattern.findAllFrom done.length done.getLast? (chars pieces tail) resume
        []).filterMap (fun m => (m.group? 1).map stripGenerics)
      = pieces.map fun piece => piece.2.declared.type := by
  -- induction on the declarations: each is reached behind its plain text, and taken as a whole
  induction pieces generalizing done resume with
  | nil =>
      have hpass := findAllFrom_plain htail done [] resume
      rw [List.append_nil] at hpass
      have hnone : ∀ place : Place, place.rest = [] → injectedField.pattern.matchAt? place = none :=
        fun place hrest => matchAt?_eq_none (by rw [hrest]; exact nofun)
      rw [chars, List.flatMap_nil, List.nil_append, hpass, findAllFrom, hnone _ rfl, ite_self]
      rfl
  | cons piece pieces ih =>
      obtain ⟨plain, d⟩ := piece
      obtain ⟨hfirst, hplain⟩ := List.forall_mem_cons.mp hplain
      have hfirst : '@' ∉ plain := hfirst
      have hne : d.text ≠ [] := List.cons_ne_nil _ _
      obtain ⟨m, hm, hstop, hgroup⟩ := @matchAt?_declaration
        ⟨(done ++ plain).length, (done ++ plain).getLast?, d.text ++ chars pieces tail⟩ _ d rfl
      have hlater : resume ≤ (done ++ plain).length := by
        rw [List.length_append]
        exact Nat.le_add_right_of_le hresume
      have hend : m.span.stop = (done ++ plain ++ d.text).length :=
        hstop.trans (List.length_append ..).symm
      rw [chars_cons, findAllFrom_plain hfirst, findAllFrom_take hlater hne hm hend,
        List.filterMap_cons_some (f := fun m : Match => (m.group? 1).map stripGenerics) hgroup,
        ih hplain (Nat.le_refl _), List.map_cons]

/-- The name of a type is not empty. -/
theorem isEmpty_type (d : InjectedDeclaration) : d.declared.type.isEmpty = false := by
  obtain ⟨c, name, hname, -⟩ := d.declared.isType
  rw [hname]
  rfl

/-- **An injected field is found** wherever it is declared, with the name of its type and without
    type arguments: the types that the rule finds are those of the declarations, in their order, and
    all of them are dependencies. -/
theorem typesIn_text (source : InjectedSource) :
    injectedField.typesIn source.text.toList = source.types
      ∧ source.types ⊆ (dependenciesOf source.text).names := by
  have hfound : (captured injectedField.pattern source.text.toList).map stripGenerics
      = source.pieces.map fun piece => piece.2.declared.type := by
    rw [captured, List.map_filterMap, text, String.toList_ofList]
    exact @found_eq _ _ source.isPlain source.isPlainTail [] 0 (Nat.le_refl 0)
  have htypes : injectedField.typesIn source.text.toList = source.types := by
    show ((captured injectedField.pattern _).map stripGenerics).filterMap _ = _
    rw [hfound, List.filterMap_map, types, ← List.filterMap_eq_map]
    refine List.filterMap_congr fun piece _ => ?_
    exact if_neg (Bool.eq_false_iff.mp (isEmpty_type piece.2))
  refine ⟨htypes, fun type htype => mem_dependenciesOf.mpr ⟨injectedField, ?_, htypes ▸ htype⟩⟩
  exact List.mem_of_getElem? (i := 3) rfl

end InjectedSource

/-- A field with all words before its type. -/
def clockField : InjectedDeclaration where
  marker := "Mock"
  arguments := "(name = \"clock\")".toList
  gap := [' ']
  visibility := "protected ".toList
  finality := "final ".toList
  declared := {
    type := "Clock".toList, arguments := [], space := [' '], field := "clock".toList, gap := [' ']
    mark := '='
    isType := ⟨'C', "lock".toList, rfl, rfl, List.all_eq_true.mp (by decide)⟩
    isArguments := Or.inr rfl
    isSpace := ⟨by decide, List.all_eq_true.mp (by decide)⟩
    isField := ⟨by decide, List.all_eq_true.mp (by decide +kernel)⟩
    isGap := List.all_eq_true.mp (by decide)
    isMark := rfl }
  isMarker := by decide
  isArguments := Or.inl ⟨"name = \"clock\"".toList, by decide, List.all_eq_true.mp (by decide)⟩
  isGap := List.all_eq_true.mp (by decide)
  isApart _ := by decide
  isVisibility := Or.inl ⟨"protected", by decide, [' '], by decide, by decide,
    List.all_eq_true.mp (by decide)⟩
  isFinality := Or.inl ⟨"final", by decide, [' '], by decide, by decide,
    List.all_eq_true.mp (by decide)⟩

/-- A field with nested type arguments. -/
def indexField : InjectedDeclaration where
  marker := "InjectMocks"
  arguments := []
  gap := ['\n']
  visibility := []
  finality := []
  declared := {
    type := "Map".toList, arguments := "<String, List<Atm>>".toList, space := [' ']
    field := "index".toList, gap := [], mark := ';'
    isType := ⟨'M', "ap".toList, rfl, rfl, List.all_eq_true.mp (by decide)⟩
    isArguments := Or.inl ⟨"String, List<Atm>".toList, by decide, List.all_eq_true.mp (by decide)⟩
    isSpace := ⟨by decide, List.all_eq_true.mp (by decide)⟩
    isField := ⟨by decide, List.all_eq_true.mp (by decide +kernel)⟩
    isGap := List.forall_mem_nil _
    isMark := rfl }
  isMarker := by decide
  isArguments := Or.inr rfl
  isGap := List.all_eq_true.mp (by decide)
  isApart _ := by decide
  isVisibility := Or.inr rfl
  isFinality := Or.inr rfl

/-- A source text in which they are declared. -/
def clockSource : InjectedSource where
  pieces := [([], clockField), (" null; ".toList, indexField)]
  tail := " void t();".toList
  isPlain := by decide
  isPlainTail := by decide

/-- How that source text reads. -/
example : clockSource.text = "@Mock(name = \"clock\") protected final Clock clock = null; "
    ++ "@InjectMocks\nMap<String, List<Atm>> index; void t();" := by
  decide +kernel

end DependencyRule

end FailureTriage
