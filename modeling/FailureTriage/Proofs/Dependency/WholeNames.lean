import FailureTriage.Proofs.Dependency.InjectedFields
import FailureTriage.Proofs.Dependency.Receivers

/-!
# Whole names

Whether the names without a package that are found stand in the source text as words of their own.
The types of fields do, because a blank or a parenthesis is before them.  A class literal and the
declaration of a variable may start within a word; there the name is the end of that word, from the
first capital on from which it is a name of ASCII.

* `EndsWord`: a name is the longest ending of a word that is a name.
* `standsWhole_of_injectedField`, `standsWhole_of_roleField`: the types of fields.
* `foundAt_classLiteral`: the class literals that are found.
* `endsWord_of_dependency`: all names without a package.
-/

namespace FailureTriage

namespace DependencyRule

open Pattern Text

variable {name text before after : List Char}

/-- Whether some word of a text ends with a name, a capitalised one of ASCII, and no longer ending
    of that word is such a name. -/
def EndsWord (name text : List Char) : Prop :=
  IsSimpleName name ∧ ∃ stem, StandsWhole (stem ++ name) text
    ∧ (∀ c ∈ stem ++ name, isWord c = true)
    ∧ ∀ u v, stem = u ++ v → v ≠ [] → ¬ IsSimpleName (v ++ name)

theorem IsSimpleName.isWord (h : IsSimpleName name) : ∀ c ∈ name, isWord c = true :=
  fun c hc => isWord_of_inAsciiName (h.inAsciiName c hc)

/-- A name that cannot be made longer to the left is the end of a word. -/
theorem endsWord_of_longest (hname : IsSimpleName name) (hafter : after.head?.any isWord = false)
    (hlongest : ∀ u v, before = u ++ v → v ≠ [] → ¬ IsSimpleName (v ++ name)) :
    EndsWord name (before ++ (name ++ after)) := by
  obtain ⟨start, stem, rfl, hstem, hstart⟩ := exists_ending isWord before
  refine ⟨hname, stem, ⟨start, after, ?_, hstart, hafter⟩,
    List.forall_mem_append.mpr ⟨hstem, hname.isWord⟩, fun u v huv => ?_⟩
  · simp only [List.append_assoc]
  · exact hlongest (start ++ u) v (by rw [huv, List.append_assoc])

/-- A name behind something that is no part of a word is the end of a word. -/
theorem endsWord_of_standsWhole (hname : IsSimpleName name) (h : StandsWhole name text) :
    EndsWord name text := by
  obtain ⟨before, after, rfl, hbefore, hafter⟩ := h
  refine endsWord_of_longest hname hafter fun u v huv hne hlonger => ?_
  have hlast := hlonger.isWord _ (List.mem_append_left name (List.getLast_mem hne))
  rw [huv, List.getLast?_append_of_ne_nil u hne, List.getLast?_eq_some_getLast hne,
    Option.any_some, hlast] at hbefore
  cases hbefore

/-- The end of a word stays one in a longer text, if no part of a word is added beside it. -/
theorem EndsWord.append (h : EndsWord name text) {left right : List Char}
    (hleft : left.getLast?.any Text.isWord = false)
    (hright : right.head?.any Text.isWord = false) : EndsWord name (left ++ (text ++ right)) := by
  obtain ⟨hname, stem, hwhole, hrest⟩ := h
  exact ⟨hname, stem, hwhole.append hleft hright, hrest⟩

/-! ## Types of fields -/

/-- Blanks end with something that is no part of a word. -/
theorem getLast?_blanks {space : List Char} (lead : List Char)
    (h : space ≠ [] ∧ ∀ c ∈ space, isBlank c = true) :
    (lead ++ space).getLast?.any isWord = false := by
  rw [List.getLast?_append_of_ne_nil lead h.1, List.getLast?_eq_some_getLast h.1]
  exact isWord_of_isBlank (h.2 _ (List.getLast_mem h.1))

/-- A modifier that is left out changes nothing, and others end with a blank. -/
theorem getLast?_modifier {words : List String} {lead modifier : List Char}
    (h : IsModifier words modifier ∨ modifier = []) (hlead : lead.getLast?.any isWord = false) :
    (lead ++ modifier).getLast?.any isWord = false := by
  rcases h with ⟨known, -, space, rfl, hspace⟩ | rfl
  · rw [← List.append_assoc]
    exact getLast?_blanks _ hspace
  · rwa [List.append_nil]

/-- A type follows a blank, or the arguments of the annotation. -/
theorem InjectedDeclaration.getLast?_before_type (d : InjectedDeclaration) (lead : List Char) :
    (lead ++ (d.arguments ++ d.lead)).getLast?.any isWord = false := by
  have hgap : (lead ++ d.arguments ++ d.gap).getLast?.any isWord = false := by
    by_cases hnone : d.gap = []
    · obtain ⟨inner, harguments, -⟩ := d.isArguments.resolve_right fun h => d.isApart h hnone
      rw [hnone, List.append_nil, harguments, ← List.cons_append, ← List.append_assoc,
        List.getLast?_concat]
      decide
    · exact getLast?_blanks _ ⟨hnone, d.isGap⟩
  rw [InjectedDeclaration.lead, ← List.append_assoc, ← List.append_assoc, ← List.append_assoc]
  exact getLast?_modifier d.isFinality (getLast?_modifier d.isVisibility hgap)

/-- **The type of an injected field** stands whole in the text. -/
theorem standsWhole_of_injectedField {type : String} (h : type ∈ injectedField.typesIn text) :
    IsSimpleName type.toList ∧ StandsWhole type.toList text := by
  obtain ⟨found, hfound, htype⟩ := exists_stripGenerics_eq (Or.inl rfl) h
  obtain ⟨position, m, hmatch, hgroup⟩ := exists_matchAt?_of_mem_captured hfound
  obtain ⟨d, tail, hrest, -, hkept⟩ := declaration_of_matchAt? hmatch
  have hrest : text.drop position = d.text ++ tail := hrest
  obtain rfl := Option.some.inj (hkept.symm.trans hgroup)
  have harguments : d.declared.arguments = [] ∨ ∃ inner, d.declared.arguments = '<' :: inner :=
    d.declared.isArguments.symm.imp_right fun ⟨inner, hinner, _⟩ => ⟨_, hinner⟩
  rw [← htype, stripGenerics_append d.declared.isType harguments]
  refine ⟨d.declared.isType,
    text.take position ++ '@' :: d.marker.toList ++ (d.arguments ++ d.lead),
    d.declared.body ++ d.declared.mark :: tail, ?_, d.getLast?_before_type _,
    d.declared.head?_body _⟩
  rw [← VariableDeclaration.text_append]
  conv_lhs => rw [← List.take_append_drop position text, hrest]
  simp only [InjectedDeclaration.text, List.append_assoc, List.cons_append]

/-- What the only group of a pattern keeps stands between texts that the patterns before and behind
    it match. -/
theorem exists_parts_of_mem_captured {ps qs : List Pattern} {body : Pattern} {found : List Char}
    {leads kept behinds : List Char → Prop} (hps : (sequence ps).isPlain = true)
    (hbody : body.isPlain = true) (hqs : (sequence qs).isPlain = true)
    (hleads : (sequence ps).Spells leads) (hkept : body.Spells kept)
    (hbehinds : (sequence qs).Spells behinds)
    (h : found ∈ captured (sequence (ps ++ .group 1 body :: qs)) text) :
    ∃ start lead behind rest, text = start ++ (lead ++ (found ++ (behind ++ rest)))
      ∧ leads lead ∧ kept found ∧ behinds behind := by
  obtain ⟨position, m, hmatch, hgroup⟩ := exists_matchAt?_of_mem_captured h
  obtain ⟨u, v, z, hu, hv, hz, hsome, -⟩ := exists_kept hps hbody hqs hmatch
  obtain ⟨lead, rest, hrest, hlead, rfl⟩ := (hleads _ _).mp hu
  obtain ⟨inner, rest, rfl, hinner, rfl⟩ := (hkept _ _).mp hv
  obtain ⟨behind, rest, rfl, hbehind, rfl⟩ := (hbehinds _ _).mp hz
  rw [Span.text_past rfl, hgroup] at hsome
  obtain rfl := Option.some.inj hsome
  have hrest : text.drop position = lead ++ (found ++ (behind ++ rest)) := hrest
  exact ⟨text.take position, lead, behind, rest, by rw [← hrest, List.take_append_drop], hlead,
    hinner, hbehind⟩

/-- The patterns of what stands before the type of a field without an annotation. -/
def roleParts : List Pattern :=
  [sequence [anyOf (visibilities.map word), blanks1],
    opt (sequence [anyOf (["static"].map word), blanks1]),
    opt (sequence [anyOf (["final"].map word), blanks1])]

theorem roleField_pattern :
    roleField.pattern = sequence (roleParts ++ .group 1 roleType :: fieldParts) :=
  rfl

theorem spells_roleParts :
    (sequence roleParts).Spells fun text => ∃ visibility static final,
      text = visibility ++ (static ++ final) ∧ IsModifier visibilities visibility
        ∧ (IsModifier ["static"] static ∨ static = [])
        ∧ (IsModifier ["final"] final ∨ final = []) := by
  refine ((spells_modifier visibilities).sequence_cons <|
    (spells_opt (spells_modifier ["static"])).sequence_cons
      (spells_opt (spells_modifier ["final"])).sequence_singleton).congr fun text => ?_
  constructor
  · rintro ⟨visibility, _, rfl, hvisibility, static, final, rfl, hrest⟩
    exact ⟨visibility, static, final, rfl, hvisibility, hrest⟩
  · rintro ⟨visibility, static, final, rfl, hvisibility, hrest⟩
    exact ⟨visibility, _, rfl, hvisibility, static, final, rfl, hrest⟩

/-- **The type of a field without an annotation** stands whole in the text. -/
theorem standsWhole_of_roleField {type : String} (h : type ∈ roleField.typesIn text) :
    IsSimpleName type.toList ∧ StandsWhole type.toList text := by
  obtain ⟨found, hfound, htype⟩ := exists_stripGenerics_eq (Or.inr rfl) h
  rw [roleField_pattern] at hfound
  obtain ⟨start, _, _, rest, htext, ⟨visibility, static, final, rfl, ⟨known, -, blanks, rfl,
    hblanks⟩, hstatic, hfinal⟩, hrole, space, field, gap, mark, rfl, hspace, -⟩ :=
    exists_parts_of_mem_captured rfl rfl rfl spells_roleParts spells_roleType spells_fieldParts
      hfound
  have hname := hrole.isSimpleName
  have hstripped := stripGenerics_append hname (Or.inl rfl)
  rw [List.append_nil] at hstripped
  rw [← htype, hstripped]
  refine ⟨hname, start ++ known.toList ++ blanks ++ static ++ final,
    (space ++ (field ++ (gap ++ [mark]))) ++ rest, ?_, ?_, ?_⟩
  · rw [htext]
    simp only [List.append_assoc]
  · exact getLast?_modifier hfinal (getLast?_modifier hstatic (getLast?_blanks _ hblanks))
  · obtain ⟨c, more, hmore⟩ := List.exists_cons_of_ne_nil hspace.1
    rw [hmore]
    exact isWord_of_isBlank (hspace.2 c (hmore ▸ List.mem_cons_self))

/-! ## Class literals -/

theorem classLiteral_eq :
    classLiteral = sequence ([] ++ .group 1 longName :: [word ".class", .wordEdge]) :=
  rfl

/-- Whether a text starts with a class literal of a name. -/
def StartsLiteral (name text : List Char) : Prop :=
  ∃ tail, text = name ++ (".class".toList ++ tail) ∧ IsSimpleName name ∧ 2 ≤ name.length
    ∧ tail.head?.any isWord = false

/-- The name of a class literal ends with the dot. -/
theorem StartsLiteral.unique {other : List Char} (h : StartsLiteral name text)
    (hother : StartsLiteral other text) : name = other := by
  obtain ⟨tail, rfl, hname, -⟩ := h
  obtain ⟨tail', heq, hother, -⟩ := hother
  exact (append_inj_of_class hname.inAsciiName hother.inAsciiName rfl rfl heq).1

section

variable {a : Place}

/-- **What is matched** is a class literal, and its name is kept. -/
theorem literal_of_matchAt? {m : Match} (h : classLiteral.matchAt? a = some m) :
    ∃ name, StartsLiteral name a.rest ∧ m.span.stop = a.index + (name.length + 6)
      ∧ m.group? 1 = some name := by
  rw [classLiteral_eq] at h
  obtain ⟨u, v, z, hstart, hbody, hbehind, hgroup, hstop⟩ := exists_kept rfl rfl rfl h
  obtain rfl : a = u := hstart.symm
  obtain ⟨name, rest, hrest, ⟨hname, hlong⟩, rfl⟩ := (spells_longName _ _).mp hbody
  obtain ⟨b, hword, ⟨rfl, hedge⟩⟩ := hbehind
  obtain ⟨_, tail, rfl, rfl, rfl⟩ := (spells_word ".class" _ _).mp hword
  have hlast : ((a.past name (".class".toList ++ tail)).past ".class".toList tail).before.any isWord
      = true := by
    show isWord 's' = true
    decide
  rw [hlast] at hedge
  refine ⟨name, ⟨tail, hrest, hname, hlong, Bool.eq_false_iff.mpr fun h => hedge h.symm⟩, ?_, ?_⟩
  · rw [hstop, Place.past_index, Place.past_index, Nat.add_assoc]
    rfl
  · rw [hgroup, Span.text_past hrest]

/-- **A class literal is matched** where its name starts. -/
theorem matchAt?_literal (h : StartsLiteral name a.rest) :
    ∃ m, classLiteral.matchAt? a = some m ∧ m.span.stop = a.index + (name.length + 6)
      ∧ m.group? 1 = some name := by
  obtain ⟨tail, hrest, hname, hlong, htail⟩ := id h
  let v := a.past name (".class".toList ++ tail)
  let z := v.past ".class".toList tail
  have hbody : longName.Matches a v := spells_longName.matches_past ⟨hname, hlong⟩ hrest
  have hword : (word ".class").Matches v z := (spells_word ".class").matches_past rfl rfl
  have hedge : z.before.any isWord ≠ z.rest.head?.any isWord := by
    rw [show z.rest.head?.any isWord = false from htail]
    show isWord 's' ≠ false
    decide
  have hmatch : classLiteral.Matches a z := ⟨v, hbody, z, hword, rfl, hedge⟩
  obtain ⟨m, hm⟩ := exists_matchAt?_of_matches hmatch
  obtain ⟨other, hother, hstop, hgroup⟩ := literal_of_matchAt? hm
  obtain rfl := h.unique hother
  exact ⟨m, hm, hstop, hgroup⟩

end

/-- Whether a name of ASCII cannot start farther to the left. -/
def startsName (text : List Char) (position : Nat) : Bool :=
  ((text.take position).rtakeWhile inAsciiName).all (!·.isUpper)

/-- Characters of a class at the end of a text belong to the run of them at its end. -/
theorem rtakeWhile_append {accept : Char → Bool} (before : List Char) {ending : List Char}
    (h : ∀ c ∈ ending, accept c = true) :
    (before ++ ending).rtakeWhile accept = before.rtakeWhile accept ++ ending := by
  rw [List.rtakeWhile, List.reverse_append,
    List.takeWhile_append_of_pos fun c hc => h c (List.mem_reverse.mp hc), List.reverse_append,
    List.reverse_reverse]
  rfl

/-- Behind a capital with characters of a name behind it a name can start farther to the left. -/
theorem startsName_eq_false {ending : List Char} {position : Nat}
    (htake : text.take position = before ++ ending) (hname : IsSimpleName ending) :
    startsName text position = false := by
  obtain ⟨c, rest, rfl, hc, hrest⟩ := id hname
  rw [startsName, htake, rtakeWhile_append before hname.inAsciiName, List.all_eq_false]
  refine ⟨c, List.mem_append_right _ List.mem_cons_self, ?_⟩
  rw [hc]
  exact Bool.noConfusion

/-- **No class literal starts within another one**, except within a name that can start farther to
    the left. -/
theorem startsName_within {other : List Char} {position later : Nat}
    (hname : StartsLiteral name (text.drop position))
    (hother : StartsLiteral other (text.drop later)) (hlt : position < later)
    (hwithin : later < position + (name.length + 6)) : startsName text later = false := by
  obtain ⟨tail, hrest, hname, -⟩ := hname
  obtain ⟨tail', hrest', ⟨c, more, rfl, hc, -⟩, -⟩ := hother
  obtain ⟨k, rfl⟩ := Nat.exists_eq_add_of_lt hlt
  by_cases hk : k + 1 ≤ name.length
  · -- within the name, which starts with a capital
    have htake : text.take (position + k + 1) = text.take position ++ name.take (k + 1) := by
      rw [Nat.add_assoc, List.take_add, hrest, List.take_append_of_le_length hk]
    obtain ⟨d, rest, rfl, hd, hall⟩ := hname
    exact startsName_eq_false htake
      ⟨d, rest.take k, rfl, hd, fun x hx => hall x (List.mem_of_mem_take hx)⟩
  · -- behind the name, where no capital stands
    have hnone : ∀ j < 6, ".class".toList[j]?.any (·.isUpper) = false := by decide
    have hj : k + 1 - name.length < 6 := by omega
    have hhere : text[position + (k + 1)]? = some c := by
      rw [← List.head?_drop]
      exact congrArg List.head? hrest'
    rw [← List.getElem?_drop, hrest, List.getElem?_append_right (by omega),
      List.getElem?_append_left hj] at hhere
    have hupper := hnone _ hj
    rw [hhere, Option.any_some, hc] at hupper
    cases hupper

/-- A name that can start farther to the left does so with the first capital there. -/
theorem exists_first_capital {position : Nat} (hnot : startsName text position = false) :
    ∃ stem u c v, text.take position = stem ++ u ++ c :: v ∧ c.isUpper = true
      ∧ (∀ x ∈ c :: v, inAsciiName x = true) ∧ ∀ after, startsName (stem ++ u ++ after)
        (stem ++ u).length = true := by
  have hsome : ((text.take position).rtakeWhile inAsciiName).any (·.isUpper) = true := by
    rw [List.any_eq_not_all_not, show List.all _ _ = false from hnot]
    rfl
  obtain ⟨c, hfound⟩ := Option.isSome_iff_exists.mp ((List.isSome_find?).trans hsome)
  obtain ⟨hc, u, v, hrun, hu⟩ := List.find?_eq_some_iff_append.mp hfound
  have hsplit := List.rdropWhile_append_rtakeWhile (p := inAsciiName) (l := text.take position)
  have hascii : ∀ x ∈ u ++ c :: v, inAsciiName x = true :=
    hrun ▸ fun x hx => List.mem_rtakeWhile_imp hx
  obtain ⟨hbefore, hlead⟩ := List.forall_mem_append.mp hascii
  rw [hrun] at hsplit
  refine ⟨_, u, c, v, by rw [List.append_assoc, hsplit], hc, hlead, fun after => ?_⟩
  have hnone : ((text.take position).rdropWhile inAsciiName).rtakeWhile inAsciiName = [] := by
    have hsame := rtakeWhile_append ((text.take position).rdropWhile inAsciiName) hascii
    rw [hsplit, hrun] at hsame
    exact List.self_eq_append_left.mp hsame
  rw [startsName, List.take_left, rtakeWhile_append _ hbefore, hnone]
  exact List.all_eq_true.mpr hu

/-- **A class literal that is read within a name** is the end of the one that is read from the first
    capital of the name on. -/
theorem exists_literal_before {position : Nat} (hname : StartsLiteral name (text.drop position))
    (hnot : startsName text position = false) :
    ∃ earlier < position, startsName text earlier = true
      ∧ ∃ longer, StartsLiteral longer (text.drop earlier)
        ∧ position < earlier + (longer.length + 6) := by
  obtain ⟨tail, hrest, hname, hlong, htail⟩ := hname
  obtain ⟨stem, u, c, v, hsplit, hc, hlead, hstart⟩ := exists_first_capital hnot
  have hlength : (text.take position).length = position := length_take_of_drop fun hnone => by
    rw [hnone] at hrest
    cases (List.append_eq_nil_iff.mp hrest.symm).2
  have htext : text = stem ++ u ++ ((c :: v ++ name) ++ (".class".toList ++ tail)) := by
    conv_lhs => rw [← List.take_append_drop position text, hsplit, hrest]
    simp only [List.append_assoc, List.cons_append]
  have hposition : (stem ++ u).length + (c :: v).length = position := by
    rw [← List.length_append, ← hsplit, hlength]
  have hlonger : (c :: v ++ name).length = (c :: v).length + name.length := List.length_append
  have hpos : 0 < (c :: v).length := Nat.succ_pos _
  refine ⟨(stem ++ u).length, by omega, ?_, c :: v ++ name,
    ⟨tail, ?_, ⟨c, v ++ name, rfl, hc, ?_⟩, ?_, htail⟩, by omega⟩
  · rw [htext]
    exact hstart _
  · rw [htext, List.drop_left]
  · exact List.forall_mem_append.mpr
      ⟨fun x hx => hlead x (List.mem_cons_of_mem c hx), hname.inAsciiName⟩
  · omega

/-- **Every class literal is found** from its first capital on. -/
theorem foundAt_classLiteral (text : List Char) : classLiteral.FoundAt text (startsName text) where
  apart := by
    intro position m _ hm later hlt hstop hlater
    cases hit : classLiteral.matchAt? (Place.inText text later) with
    | none => rfl
    | some hit' =>
        obtain ⟨name, hname, hend, -⟩ := literal_of_matchAt? hm
        obtain ⟨other, hother, -, -⟩ := literal_of_matchAt? hit
        have hend : m.span.stop = position + (name.length + 6) := hend
        rw [startsName_within hname hother hlt (hend ▸ hstop)] at hlater
        cases hlater
  covered := by
    intro position m hnot hm
    obtain ⟨name, hname, -, -⟩ := literal_of_matchAt? hm
    obtain ⟨earlier, hlt, hstart, longer, hlonger, hcovers⟩ := exists_literal_before hname hnot
    obtain ⟨hit, hhit, hstop, -⟩ := @matchAt?_literal _ (Place.inText text earlier) hlonger
    have hstop : hit.span.stop = earlier + (longer.length + 6) := hstop
    exact ⟨earlier, hlt, hstart, hit, hhit, hstop ▸ hcovers⟩

/-- **The name of a class literal** is the end of a word. -/
theorem endsWord_of_classLiteral (h : name ∈ captured classLiteral text) : EndsWord name text := by
  rw [captured, (foundAt_classLiteral text).findAll_eq_filterMap] at h
  obtain ⟨m, hm, hgroup⟩ := List.mem_filterMap.mp h
  obtain ⟨position, -, hhit⟩ := List.mem_filterMap.mp hm
  obtain ⟨hstart, hmatch⟩ := Option.ite_none_right_eq_some.mp hhit
  obtain ⟨other, ⟨tail, hrest, hname, -, -⟩, -, hkept⟩ := literal_of_matchAt? hmatch
  obtain rfl := Option.some.inj (hkept.symm.trans hgroup)
  have hrest : text.drop position = other ++ (".class".toList ++ tail) := hrest
  rw [← List.take_append_drop position text, hrest]
  refine endsWord_of_longest hname rfl fun u v huv hne hlonger => ?_
  -- a longer name would start farther to the left
  obtain ⟨c, v, rfl⟩ := List.exists_cons_of_ne_nil hne
  obtain ⟨d, more, hcons, hd, hmore⟩ := hlonger
  obtain ⟨rfl, rfl⟩ := List.cons.inj hcons
  have hlead : IsSimpleName (c :: v) :=
    ⟨c, v, rfl, hd, fun x hx => hmore x (List.mem_append_left other hx)⟩
  rw [startsName_eq_false huv hlead] at hstart
  cases hstart

/-- **The name of a configuration class** is the end of a word, between the parentheses of the
    annotation. -/
theorem endsWord_of_configClasses {type : String} (h : type ∈ configClasses.typesIn text) :
    EndsWord type.toList text := by
  obtain ⟨arguments, harguments, hmem⟩ := List.mem_flatMap.mp h
  obtain ⟨name, hname, rfl⟩ := List.mem_map.mp hmem
  obtain ⟨start, _, _, rest, htext, ⟨_, _, rfl, rfl, known, _, rfl, -, blanks, _, rfl, -, rfl⟩, -,
    rfl⟩ :=
    exists_parts_of_mem_captured rfl rfl rfl
      ((spells_word "@").sequence_cons <| (spells_anyOf_word configAnnotations).sequence_cons <|
        spells_blanks.sequence_cons (spells_word "(").sequence_singleton)
      spells_run (spells_word ")").sequence_singleton harguments
  have hleft : (start ++ '@' :: (known ++ blanks) ++ ['(']).getLast?.any isWord = false := by
    rw [List.getLast?_concat]
    decide
  have hright : (')' :: rest).head?.any isWord = false := by
    show isWord ')' = false
    decide
  have hinner := (endsWord_of_classLiteral hname).append hleft hright
  have hwhole :
      text = start ++ '@' :: (known ++ blanks) ++ ['('] ++ (arguments ++ ')' :: rest) := by
    rw [htext]
    simp only [List.append_assoc, List.cons_append]
    rfl
  rwa [String.toList_ofList, hwhole]

/-! ## Types of receivers -/

/-- **The declared type** of a variable is the end of a word. -/
theorem FirstDeclared.endsWord {field : List Char} (h : FirstDeclared text field name) :
    EndsWord name text := by
  obtain ⟨position, ⟨before, after, d, rfl, rfl, hfield, rfl, hlong⟩, hfirst⟩ := h
  have htext := d.text_append after
  rw [htext] at hfirst ⊢
  refine endsWord_of_longest d.isType (d.head?_body _) fun u v huv hne hlonger => ?_
  let longer : VariableDeclaration inDeclaredArguments :=
    { d with type := v ++ d.type, isType := hlonger }
  refine hfirst u.length ?_ (v ++ d.type) ⟨u, after, longer, ?_, rfl, hfield, rfl, ?_⟩
  · rw [huv, List.length_append]
    exact Nat.lt_add_of_pos_right (List.length_pos_iff.mpr hne)
  · rw [VariableDeclaration.text_append, huv]
    simp only [longer, VariableDeclaration.body, List.append_assoc]
  · rw [List.length_append]
    exact Nat.le_add_left_of_le hlong

/-- **The type of a receiver** is the end of a word. -/
theorem endsWord_of_receiverCall {type : String} (h : type ∈ receiverCall.typesIn text) :
    EndsWord type.toList text := by
  obtain ⟨receiver, hreceiver, hsome⟩ := List.mem_filterMap.mp h
  obtain ⟨found, hfound, rfl⟩ := Option.map_eq_some_iff.mp hsome
  rw [List.mem_eraseDups, captured_receiverCall] at hreceiver
  obtain ⟨call, hcall, rfl⟩ := List.mem_map.mp hreceiver
  rw [String.toList_ofList]
  exact ((declaredType?_eq_some_iff (mem_callsIn.mp hcall).isWord).mp hfound).endsWord

/-! ## All names -/

/-- The names that the rules for imports find have a dot. -/
theorem mem_dot_of_importName {rule : DependencyRule} {pattern : Pattern}
    {names : List Char → Prop} {type : String} (haction : rule.action = .importName)
    (hpattern : rule.pattern = importPattern pattern) (hnames : Names pattern names)
    (h : type ∈ rule.typesIn text) : '.' ∈ type.toList := by
  have hfound := ((mem_typesIn_importName haction).mp h).2
  rw [hpattern] at hfound
  exact (hnames.dotted _ (names_of_mem_captured hnames hfound)).1

/-- **A name without a package** that is found in a source text is the longest ending of a word of
    the text that is a capitalised name of ASCII.  The types of fields stand whole in the text. -/
theorem endsWord_of_dependency {source name : String} (h : name ∈ (dependenciesOf source).names)
    (hdot : '.' ∉ name.toList) :
    EndsWord name.toList source.toList
      ∧ (name ∈ injectedField.typesIn source.toList ∨ name ∈ roleField.typesIn source.toList →
        StandsWhole name.toList source.toList) := by
  have hfields : name ∈ injectedField.typesIn source.toList
      ∨ name ∈ roleField.typesIn source.toList →
      IsSimpleName name.toList ∧ StandsWhole name.toList source.toList :=
    fun hfield => hfield.elim standsWhole_of_injectedField standsWhole_of_roleField
  refine ⟨?_, fun hfield => (hfields hfield).2⟩
  have hfield : name ∈ injectedField.typesIn source.toList
      ∨ name ∈ roleField.typesIn source.toList → EndsWord name.toList source.toList :=
    fun hfield => endsWord_of_standsWhole (hfields hfield).1 (hfields hfield).2
  obtain ⟨rule, hrule, htype⟩ := mem_dependenciesOf.mp h
  simp only [table, List.mem_cons, List.not_mem_nil, or_false] at hrule
  rcases hrule with rfl | rfl | rfl | rfl | rfl | rfl | rfl
  · exact absurd (mem_dot_of_importName rfl roleImport_pattern names_roleName htype) hdot
  · exact absurd (mem_dot_of_importName rfl layerImport_pattern names_layerName htype) hdot
  · exact absurd (mem_dot_of_importName rfl namespaceImport_pattern names_namespaceName htype) hdot
  · exact hfield (Or.inl htype)
  · exact hfield (Or.inr htype)
  · exact endsWord_of_configClasses htype
  · exact endsWord_of_receiverCall htype

/-- The type of a mocked field stands whole in a source text. -/
theorem endsWord_of_dependency_clock :
    "Clock" ∈ (dependenciesOf "@Mock Clock clock;").names ∧ '.' ∉ "Clock".toList
    ∧ EndsWord "Clock".toList "@Mock Clock clock;".toList
    ∧ StandsWhole "Clock".toList "@Mock Clock clock;".toList := by
  have hmem : "Clock" ∈ (dependenciesOf "@Mock Clock clock;").names := by decide +kernel
  have hfield : "Clock" ∈ injectedField.typesIn "@Mock Clock clock;".toList := by decide +kernel
  obtain ⟨hends, hwhole⟩ := endsWord_of_dependency hmem (by decide)
  exact ⟨hmem, by decide, hends, hwhole (Or.inl hfield)⟩

/-- The end of the type of a receiver and the end of the name of a class literal are found, and
    neither of them stands whole in its source text. -/
theorem not_standsWhole_of_dependency :
    ("Book" ∈ (dependenciesOf "eBook book; book.read();").names
      ∧ ¬ StandsWhole "Book".toList "eBook book; book.read();".toList)
    ∧ "Config" ∈ (dependenciesOf "@Import(fooConfig.class)").names
    ∧ ¬ StandsWhole "Config".toList "@Import(fooConfig.class)".toList := by
  decide +kernel

end DependencyRule

end FailureTriage
