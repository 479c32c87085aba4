import FailureTriage.Dependency.Extraction
import FailureTriage.Proofs.Dependency.Imports
import FailureTriage.Proofs.Names.Tables
import FailureTriage.Proofs.Text.Trimming

/-!
# Imported types

Which imports count as dependencies.  Three rules look for names in imports; the other rules
contribute names without a package, so they neither add nor hide an imported name.

* `IsRoleName`, `IsLayerName`, `IsNamespaceName`: the names that the rules look for.
* `isRoleName_iff`, `isLayerName_iff`, `isNamespaceName_iff`: the same by the segments of a name.
* `not_mem_dot_of_typesIn`: the other rules contribute no name with a dot in it.
* `mem_dependenciesOf_import_iff`: when an imported name is among the dependencies.
-/

namespace FailureTriage

namespace DependencyRule

open Pattern

/-- **A type is a dependency** exactly if one of the rules finds it. -/
theorem mem_dependenciesOf {source type : String} :
    type ∈ (dependenciesOf source).names ↔ ∃ rule ∈ table, type ∈ rule.typesIn source.toList := by
  have hfold : ∀ (rules : List DependencyRule) (found : NameSet),
      type ∈ (rules.foldl (fun found rule => found.insertAll (rule.typesIn source.toList))
          found).names
        ↔ type ∈ found.names ∨ ∃ rule ∈ rules, type ∈ rule.typesIn source.toList := by
    intro rules
    induction rules with
    | nil => simp
    | cons rule rules ih =>
        intro found
        rw [List.foldl_cons, ih, NameSet.mem_insertAll, List.exists_mem_cons_iff, or_assoc]
  rw [dependenciesOf, hfold]
  exact or_iff_right List.not_mem_nil

/-! ## Names that are looked for -/

/-- The name of a type with a role. -/
def IsRoleName (text : List Char) : Prop :=
  ∃ package stem, ∃ suffix ∈ roleSuffixes, text = package ++ '.' :: (stem ++ suffix.toList)
    ∧ (∀ c ∈ package, inDottedName c = true) ∧ ∀ c ∈ stem, inAsciiName c = true

/-- A name with the package of a layer between two dots. -/
def IsLayerName (text : List Char) : Prop :=
  ∃ before after, ∃ layer ∈ layerPackages, text = before ++ '.' :: (layer.toList ++ '.' :: after)
    ∧ (∀ c ∈ before, inDottedName c = true) ∧ after ≠ [] ∧ ∀ c ∈ after, inDottedName c = true

/-- A name in one of the top packages. -/
def IsNamespaceName (text : List Char) : Prop :=
  ∃ after, ∃ top ∈ namespaces, text = top.toList ++ '.' :: after
    ∧ after ≠ [] ∧ ∀ c ∈ after, inDottedName c = true

/-- The pattern of a name of a type with a role. -/
def roleName : Pattern :=
  sequence [zeroOrMore inDottedName, word ".", zeroOrMore inAsciiName,
    anyOf (roleSuffixes.map word)]

/-- The pattern of a name with the package of a layer. -/
def layerName : Pattern :=
  sequence [zeroOrMore inDottedName, word ".", anyOf (layerPackages.map word), word ".",
    oneOrMore inDottedName]

/-- The pattern of a name in one of the top packages. -/
def namespaceName : Pattern :=
  sequence [anyOf (namespaces.map word), word ".", oneOrMore inDottedName]

theorem roleImport_pattern : roleImport.pattern = importPattern roleName :=
  rfl

theorem layerImport_pattern : layerImport.pattern = importPattern layerName :=
  rfl

theorem namespaceImport_pattern : namespaceImport.pattern = importPattern namespaceName :=
  rfl

/-- The letters, digits and underscores of ASCII are parts of words. -/
theorem isWord_of_inAsciiName {c : Char} (h : inAsciiName c = true) : Text.isWord c = true := by
  have hascii : c.toNat < 0x80 := by
    rcases Bool.or_eq_true_iff.mp h with hletter | hline
    · exact Text.toNat_lt_of_isAlphanum hletter
    · rw [eq_of_beq hline]
      decide
  rw [Text.isWord, if_pos hascii]
  exact h

theorem inDottedName_of_inAsciiName {c : Char} (h : inAsciiName c = true) :
    inDottedName c = true :=
  Bool.or_eq_true_iff.mpr (Or.inl (isWord_of_inAsciiName h))

/-- What holds of all characters of some words, as it is computed. -/
theorem forall_chars_of_all {words : List String} {accept : Char → Bool}
    (h : (words.all fun known => known.toList.all accept) = true) :
    ∀ known ∈ words, ∀ c ∈ known.toList, accept c = true :=
  fun known hknown => List.all_eq_true.mp (List.all_eq_true.mp h known hknown)

/-- The words that end the name of a type with a role are of ASCII. -/
theorem inAsciiName_of_roleSuffix :
    ∀ suffix ∈ roleSuffixes, ∀ c ∈ suffix.toList, inAsciiName c = true :=
  forall_chars_of_all (by decide +kernel)

theorem inDottedName_of_layer :
    ∀ layer ∈ layerPackages, ∀ c ∈ layer.toList, inDottedName c = true :=
  forall_chars_of_all (by decide +kernel)

theorem inDottedName_of_namespace :
    ∀ top ∈ namespaces, ∀ c ∈ top.toList, inDottedName c = true :=
  forall_chars_of_all (by decide +kernel)

theorem inDottedName_dot : inDottedName '.' = true :=
  rfl

/-- A dot between two parts of a name keeps it a name with dots. -/
theorem inDottedName_append_dot {before after : List Char}
    (hbefore : ∀ c ∈ before, inDottedName c = true) (hafter : ∀ c ∈ after, inDottedName c = true) :
    '.' ∈ before ++ '.' :: after ∧ ∀ c ∈ before ++ '.' :: after, inDottedName c = true :=
  ⟨List.mem_append_right before List.mem_cons_self, List.forall_mem_append.mpr
    ⟨hbefore, List.forall_mem_cons.mpr ⟨inDottedName_dot, hafter⟩⟩⟩

theorem IsRoleName.dotted {text : List Char} (h : IsRoleName text) :
    '.' ∈ text ∧ ∀ c ∈ text, inDottedName c = true := by
  obtain ⟨package, stem, suffix, hsuffix, rfl, hpackage, hstem⟩ := h
  refine inDottedName_append_dot hpackage (List.forall_mem_append.mpr ⟨?_, ?_⟩)
  · exact fun c hc => inDottedName_of_inAsciiName (hstem c hc)
  · exact fun c hc => inDottedName_of_inAsciiName (inAsciiName_of_roleSuffix suffix hsuffix c hc)

theorem IsLayerName.dotted {text : List Char} (h : IsLayerName text) :
    '.' ∈ text ∧ ∀ c ∈ text, inDottedName c = true := by
  obtain ⟨before, after, layer, hlayer, rfl, hbefore, -, hafter⟩ := h
  exact inDottedName_append_dot hbefore
    (inDottedName_append_dot (inDottedName_of_layer layer hlayer) hafter).2

theorem IsNamespaceName.dotted {text : List Char} (h : IsNamespaceName text) :
    '.' ∈ text ∧ ∀ c ∈ text, inDottedName c = true := by
  obtain ⟨after, top, htop, rfl, -, hafter⟩ := h
  exact inDottedName_append_dot (inDottedName_of_namespace top htop) hafter

theorem names_roleName : Names roleName IsRoleName where
  plain := rfl
  spells := by
    refine (spells_run.sequence_cons <| (spells_word ".").sequence_cons <|
      spells_run.sequence_cons
        (spells_anyOf_word roleSuffixes).sequence_singleton).congr fun text => ?_
    constructor
    · rintro ⟨package, _, rfl, hpackage, _, _, rfl, rfl, stem, _, rfl, hstem, suffix, hsuffix, rfl⟩
      exact ⟨package, stem, suffix, hsuffix, rfl, hpackage, hstem⟩
    · rintro ⟨package, stem, suffix, hsuffix, rfl, hpackage, hstem⟩
      exact ⟨package, _, rfl, hpackage, _, _, rfl, rfl, stem, _, rfl, hstem, suffix, hsuffix, rfl⟩
  dotted _ := IsRoleName.dotted

theorem names_layerName : Names layerName IsLayerName where
  plain := rfl
  spells := by
    refine (spells_run.sequence_cons <| (spells_word ".").sequence_cons <|
      (spells_anyOf_word layerPackages).sequence_cons <| (spells_word ".").sequence_cons
      spells_oneOrMore.sequence_singleton).congr fun text => ?_
    constructor
    · rintro ⟨before, _, rfl, hbefore, _, _, rfl, rfl, _, _, rfl, ⟨layer, hlayer, rfl⟩, _, after,
        rfl, rfl, hafter⟩
      exact ⟨before, after, layer, hlayer, rfl, hbefore, hafter⟩
    · rintro ⟨before, after, layer, hlayer, rfl, hbefore, hafter⟩
      exact ⟨before, _, rfl, hbefore, _, _, rfl, rfl, _, _, rfl, ⟨layer, hlayer, rfl⟩, _, after,
        rfl, rfl, hafter⟩
  dotted _ := IsLayerName.dotted

theorem names_namespaceName : Names namespaceName IsNamespaceName where
  plain := rfl
  spells := by
    refine ((spells_anyOf_word namespaces).sequence_cons <| (spells_word ".").sequence_cons
      spells_oneOrMore.sequence_singleton).congr fun text => ?_
    constructor
    · rintro ⟨_, _, rfl, ⟨top, htop, rfl⟩, _, after, rfl, rfl, hafter⟩
      exact ⟨after, top, htop, rfl, hafter⟩
    · rintro ⟨after, top, htop, rfl, hafter⟩
      exact ⟨_, _, rfl, ⟨top, htop, rfl⟩, _, after, rfl, rfl, hafter⟩
  dotted _ := IsNamespaceName.dotted

/-! ## The names by their segments -/

section

variable {name : PackagedName}

/-- What follows the first dot in a name. -/
private theorem exists_segments (segments : List Segment) (last : Segment) :
    ∃ next more, segments ++ [last] = next :: more := by
  cases segments with
  | nil => exact ⟨last, [], rfl⟩
  | cons next segments => exact ⟨next, segments ++ [last], rfl⟩

/-- Segments are a text that is not empty, if the last one is not. -/
private theorem append_dotted_ne_nil {segments more : List Segment} {last next : Segment}
    (hlast : last ≠ []) (h : segments ++ [last] = next :: more) : next ++ dotted more ≠ [] := by
  intro hnil
  obtain ⟨rfl, hmore⟩ := List.append_eq_nil_iff.mp hnil
  cases more with
  | nil =>
      have hsingle := congrArg List.getLast? h
      rw [List.getLast?_concat] at hsingle
      exact hlast (Option.some.inj hsingle)
  | cons segment more => cases hmore

/-- **A role** is named by the last segment. -/
theorem isRoleName_iff :
    IsRoleName name.text.toList
      ↔ (∀ c ∈ name.text.toList, inDottedName c = true)
        ∧ (∀ c ∈ name.simple, inAsciiName c = true)
        ∧ ∃ suffix ∈ roleSuffixes, suffix.toList <:+ name.simple := by
  constructor
  · intro h
    refine ⟨h.dotted.2, ?_⟩
    obtain ⟨package, stem, suffix, hsuffix, htext, hpackage, hstem⟩ := h
    have hascii : ∀ c ∈ stem ++ suffix.toList, inAsciiName c = true :=
      List.forall_mem_append.mpr ⟨hstem, inAsciiName_of_roleSuffix suffix hsuffix⟩
    have hdot : '.' ∉ stem ++ suffix.toList := fun hmem => nomatch hascii '.' hmem
    obtain ⟨-, hsimple⟩ := name.eq_of_text hdot htext
    rw [← hsimple]
    exact ⟨hascii, suffix, hsuffix, List.suffix_append stem _⟩
  · rintro ⟨hdotted, hascii, suffix, hsuffix, stem, hstem⟩
    refine ⟨name.package, stem, suffix, hsuffix, ?_, ?_, ?_⟩
    · rw [hstem, PackagedName.text, String.toList_ofList]
    · intro c hc
      refine hdotted c ?_
      rw [PackagedName.text, String.toList_ofList]
      exact List.mem_append_left _ hc
    · intro c hc
      exact hascii c (hstem ▸ List.mem_append_left _ hc)

/-- **A layer** is named by a segment between two dots. -/
theorem isLayerName_iff (hsimple : name.simple ≠ []) :
    IsLayerName name.text.toList
      ↔ (∀ c ∈ name.text.toList, inDottedName c = true)
        ∧ ∃ layer ∈ layerPackages, layer.toList ∈ name.rest := by
  constructor
  · intro h
    refine ⟨h.dotted.2, ?_⟩
    obtain ⟨before, after, layer, hlayer, htext, -, -, -⟩ := h
    have hdot : '.' ∉ layer.toList := by
      have hnone : ∀ layer ∈ layerPackages, '.' ∉ layer.toList := by decide +kernel
      exact hnone layer hlayer
    have hsegments := name.splitOn_text
    obtain ⟨first, segments, hbefore⟩ := Text.exists_splitOn '.' before
    obtain ⟨next, more, hafter⟩ := Text.exists_splitOn '.' after
    rw [htext, Text.splitOn_append, Text.splitOn_append, Text.splitOn_of_not_mem hdot, hbefore,
      hafter, List.singleton_append, List.cons_append] at hsegments
    -- the layer stands before the last segment
    have hrest := congrArg List.dropLast (List.cons.inj hsegments).2
    rw [List.dropLast_concat, List.dropLast_append_of_ne_nil (List.cons_ne_nil _ _),
      List.dropLast_cons_of_ne_nil (List.cons_ne_nil _ _)] at hrest
    refine ⟨layer, hlayer, ?_⟩
    rw [← hrest]
    exact List.mem_append_right segments List.mem_cons_self
  · rintro ⟨hdotted, layer, hlayer, hmem⟩
    obtain ⟨before, after, hrest⟩ := List.append_of_mem hmem
    obtain ⟨next, more, hnext⟩ := exists_segments after name.simple
    have htext : name.text.toList
        = (name.first ++ dotted before)
          ++ '.' :: (layer.toList ++ '.' :: (next ++ dotted more)) := by
      rw [name.toList_text, hrest, List.append_assoc, List.cons_append, hnext, dotted_append,
        dotted_cons, dotted_cons, List.append_assoc]
    rw [htext] at hdotted
    obtain ⟨hbefore, hlater⟩ := List.forall_mem_append.mp hdotted
    have hafter := (List.forall_mem_append.mp (List.forall_mem_cons.mp hlater).2).2
    exact ⟨name.first ++ dotted before, next ++ dotted more, layer, hlayer, htext, hbefore,
      append_dotted_ne_nil hsimple hnext, (List.forall_mem_cons.mp hafter).2⟩

/-- **A top package** is the first segment. -/
theorem isNamespaceName_iff (hsimple : name.simple ≠ []) :
    IsNamespaceName name.text.toList
      ↔ (∀ c ∈ name.text.toList, inDottedName c = true)
        ∧ ∃ top ∈ namespaces, top.toList = name.first := by
  constructor
  · intro h
    refine ⟨h.dotted.2, ?_⟩
    obtain ⟨after, top, htop, htext, -, -⟩ := h
    have hdot : '.' ∉ top.toList := by
      have hnone : ∀ top ∈ namespaces, '.' ∉ top.toList := by decide +kernel
      exact hnone top htop
    have hsegments := name.splitOn_text
    rw [htext, Text.splitOn_append, Text.splitOn_of_not_mem hdot, List.singleton_append]
      at hsegments
    exact ⟨top, htop, (List.cons.inj hsegments).1⟩
  · rintro ⟨hdotted, top, htop, hfirst⟩
    obtain ⟨next, more, hnext⟩ := exists_segments name.rest name.simple
    have htext : name.text.toList = top.toList ++ '.' :: (next ++ dotted more) := by
      rw [name.toList_text, hnext, dotted_cons, hfirst]
    rw [htext] at hdotted
    have hafter := (List.forall_mem_append.mp hdotted).2
    exact ⟨next ++ dotted more, top, htop, htext, append_dotted_ne_nil hsimple hnext,
      (List.forall_mem_cons.mp hafter).2⟩

end

/-! ## Rules without dots -/

/-- A capitalised name of ASCII. -/
def IsSimpleName (text : List Char) : Prop :=
  ∃ c rest, text = c :: rest ∧ c.isUpper = true ∧ ∀ c ∈ rest, inAsciiName c = true

/-- A simple name, and type arguments behind it if there are any. -/
def IsFieldType (text : List Char) : Prop :=
  ∃ name arguments, text = name ++ arguments ∧ IsSimpleName name
    ∧ (arguments = [] ∨ ∃ inner, arguments = '<' :: inner)

/-- A capital letter is part of a name. -/
theorem inAsciiName_of_isUpper {c : Char} (h : c.isUpper = true) : inAsciiName c = true := by
  show (((c.isUpper || c.isLower) || c.isDigit) || c == '_') = true
  rw [h]
  rfl

theorem IsSimpleName.inAsciiName {text : List Char} (h : IsSimpleName text) :
    ∀ c ∈ text, inAsciiName c = true := by
  obtain ⟨c, rest, rfl, hc, hrest⟩ := h
  exact List.forall_mem_cons.mpr ⟨inAsciiName_of_isUpper hc, hrest⟩

theorem IsSimpleName.not_mem_dot {text : List Char} (h : IsSimpleName text) : '.' ∉ text :=
  fun hmem => nomatch h.inAsciiName '.' hmem

/-- Type arguments are left out. -/
theorem stripGenerics_append {name arguments : List Char} (hname : IsSimpleName name)
    (harguments : arguments = [] ∨ ∃ inner, arguments = '<' :: inner) :
    stripGenerics (name ++ arguments) = name := by
  have hplain : ∀ c ∈ name, (c != '<') = true := by
    intro c hc
    rw [bne_iff_ne]
    rintro rfl
    cases hname.inAsciiName '<' hc
  have hbefore : Text.beforeFirst '<' (name ++ arguments) = name := by
    rw [Text.beforeFirst, List.takeWhile_append_of_pos hplain]
    rcases harguments with rfl | ⟨inner, rfl⟩
    · exact List.append_nil name
    · rw [List.takeWhile_cons_of_neg (by decide), List.append_nil]
  rw [stripGenerics, hbefore]
  exact Text.trim_eq_self fun c hc =>
    Text.isBlank_of_isWord (isWord_of_inAsciiName (hname.inAsciiName c hc))

theorem IsFieldType.not_mem_dot {text : List Char} (h : IsFieldType text) :
    '.' ∉ stripGenerics text := by
  obtain ⟨name, arguments, rfl, hname, harguments⟩ := h
  rw [stripGenerics_append hname harguments]
  exact hname.not_mem_dot

/-- A capitalised name of ASCII that ends in the word for a role. -/
def IsRoleType (text : List Char) : Prop :=
  ∃ c stem, ∃ suffix ∈ roleSuffixes, text = c :: (stem ++ suffix.toList) ∧ c.isUpper = true
    ∧ ∀ c ∈ stem, inAsciiName c = true

theorem IsRoleType.isSimpleName {text : List Char} (h : IsRoleType text) : IsSimpleName text := by
  obtain ⟨c, stem, suffix, hsuffix, rfl, hc, hstem⟩ := h
  have hsuffix := inAsciiName_of_roleSuffix suffix hsuffix
  exact ⟨c, _, rfl, hc, List.forall_mem_append.mpr ⟨hstem, hsuffix⟩⟩

/-- The pattern of the type of a field that has a role. -/
def roleType : Pattern :=
  sequence [.one (·.isUpper), zeroOrMore inAsciiName, anyOf (roleSuffixes.map word)]

theorem spells_roleType : roleType.Spells IsRoleType := by
  refine (spells_one.sequence_cons <| spells_run.sequence_cons
    (spells_anyOf_word roleSuffixes).sequence_singleton).congr fun text => ?_
  constructor
  · rintro ⟨_, _, rfl, ⟨c, rfl, hc⟩, stem, _, rfl, hstem, suffix, hsuffix, rfl⟩
    exact ⟨c, stem, suffix, hsuffix, rfl, hc, hstem⟩
  · rintro ⟨c, stem, suffix, hsuffix, rfl, hc, hstem⟩
    exact ⟨[c], _, rfl, ⟨c, rfl, hc⟩, stem, _, rfl, hstem, suffix, hsuffix, rfl⟩

/-- The pattern of a capitalised name of ASCII. -/
theorem isSimpleName_of_spells {text : List Char}
    (h : ∀ texts, (sequence [.one (·.isUpper), oneOrMore inAsciiName]).Spells texts → texts text) :
    IsSimpleName text := by
  obtain ⟨_, rest, rfl, ⟨c, rfl, hc⟩, -, hrest⟩ :=
    h _ (spells_one.sequence_cons spells_oneOrMore.sequence_singleton)
  exact ⟨c, rest, rfl, hc, hrest⟩

/-- A fixed text has no groups. -/
theorem bodies_literal (text : List Char) : (literal text).bodies 1 = [] := by
  induction text with
  | nil => rfl
  | cons c text ih =>
      cases text with
      | nil => rfl
      | cons d text => exact ih

/-- What is kept is matched by the body of a group. -/
theorem exists_body_of_mem_captured {pattern : Pattern} {text found : List Char}
    (h : found ∈ captured pattern text) :
    ∃ body ∈ pattern.bodies 1, ∀ texts, body.Spells texts → texts found := by
  obtain ⟨position, m, hmatch, hgroup⟩ := exists_matchAt?_of_mem_captured h
  exact exists_body_of_group? hmatch hgroup

/-- The type of an annotated field. -/
theorem isFieldType_of_injectedField {text found : List Char}
    (h : found ∈ captured injectedField.pattern text) : IsFieldType found := by
  obtain ⟨accept, hbodies⟩ : ∃ accept, injectedField.pattern.bodies 1
      = [sequence [.one (·.isUpper), zeroOrMore inAsciiName,
          opt (sequence [word "<", .run accept true, word ">"])]] := ⟨_, rfl⟩
  obtain ⟨body, hbody, hfound⟩ := exists_body_of_mem_captured h
  rw [hbodies] at hbody
  obtain rfl := List.mem_singleton.mp hbody
  obtain ⟨_, _, rfl, ⟨c, rfl, hc⟩, rest, arguments, rfl, hrest, harguments⟩ := hfound _ <|
    spells_one.sequence_cons <| spells_run.sequence_cons <| Spells.sequence_singleton <|
    ((spells_word "<").sequence_cons <| spells_run.sequence_cons <|
      (spells_word ">").sequence_singleton).alt spells_empty
  refine ⟨[c] ++ rest, arguments, (List.append_assoc [c] rest arguments).symm,
    ⟨c, rest, rfl, hc, hrest⟩, ?_⟩
  rcases harguments with ⟨_, inner, rfl, rfl, -⟩ | rfl
  · exact Or.inr ⟨inner, rfl⟩
  · exact Or.inl rfl

/-- The type of a field without an annotation. -/
theorem isFieldType_of_roleField {text found : List Char}
    (h : found ∈ captured roleField.pattern text) : IsFieldType found := by
  have hbodies : roleField.pattern.bodies 1 = [roleType] := rfl
  obtain ⟨body, hbody, hfound⟩ := exists_body_of_mem_captured h
  rw [hbodies] at hbody
  obtain rfl := List.mem_singleton.mp hbody
  have hname := (hfound _ spells_roleType).isSimpleName
  exact ⟨found, [], (List.append_nil found).symm, hname, Or.inl rfl⟩

/-- The name of a class in a class literal. -/
theorem isSimpleName_of_classLiteral {text found : List Char}
    (h : found ∈ captured classLiteral text) : IsSimpleName found := by
  have hbodies : classLiteral.bodies 1
      = [sequence [.one (·.isUpper), oneOrMore inAsciiName]] := rfl
  obtain ⟨body, hbody, hfound⟩ := exists_body_of_mem_captured h
  rw [hbodies] at hbody
  obtain rfl := List.mem_singleton.mp hbody
  exact isSimpleName_of_spells hfound

/-- The declared type of a variable. -/
theorem isSimpleName_of_declaredType? {text field type : List Char}
    (h : declaredType? text field = some type) : IsSimpleName type := by
  obtain ⟨m, hm, hgroup⟩ := Option.bind_eq_some_iff.mp h
  obtain ⟨a, hmatch⟩ := exists_matchAt?_of_findFrom? hm
  obtain ⟨body, hbody, hfound⟩ := exists_body_of_group? hmatch hgroup
  have hbodies : (declaration field).bodies 1
      = [sequence [.one (·.isUpper), oneOrMore inAsciiName]] := by
    show _ :: ((literal field).bodies 1 ++ _) = _
    rw [bodies_literal]
    rfl
  rw [hbodies] at hbody
  obtain rfl := List.mem_singleton.mp hbody
  exact isSimpleName_of_spells hfound

/-- What a rule for fields finds are types without type arguments. -/
theorem exists_stripGenerics_eq {rule : DependencyRule} {text : List Char} {type : String}
    (hrule : rule.action = .injectedField ∨ rule.action = .roleField)
    (h : type ∈ rule.typesIn text) :
    ∃ found ∈ captured rule.pattern text, stripGenerics found = type.toList := by
  have hmem : type ∈ ((captured rule.pattern text).map stripGenerics).filterMap
      (fun type => if type.isEmpty then none else some (String.ofList type)) := by
    rcases hrule with hrule | hrule
    · rwa [typesIn, hrule] at h
    · rwa [typesIn, hrule] at h
  obtain ⟨_, hstripped, hsome⟩ := List.mem_filterMap.mp hmem
  obtain ⟨found, hfound, rfl⟩ := List.mem_map.mp hstripped
  obtain ⟨-, hsome⟩ := Option.ite_none_left_eq_some.mp hsome
  obtain rfl := Option.some.inj hsome
  exact ⟨found, hfound, String.toList_ofList.symm⟩

/-- **The rules that look for no imports** find names without a package. -/
theorem not_mem_dot_of_typesIn {rule : DependencyRule} {text : List Char} {type : String}
    (hrule : rule ∈ [injectedField, roleField, configClasses, receiverCall])
    (h : type ∈ rule.typesIn text) : '.' ∉ type.toList := by
  simp only [List.mem_cons, List.not_mem_nil, or_false] at hrule
  rcases hrule with rfl | rfl | rfl | rfl
  · obtain ⟨found, hfound, htype⟩ := exists_stripGenerics_eq (Or.inl rfl) h
    exact htype ▸ (isFieldType_of_injectedField hfound).not_mem_dot
  · obtain ⟨found, hfound, htype⟩ := exists_stripGenerics_eq (Or.inr rfl) h
    exact htype ▸ (isFieldType_of_roleField hfound).not_mem_dot
  · obtain ⟨arguments, -, hmem⟩ := List.mem_flatMap.mp h
    obtain ⟨found, hfound, rfl⟩ := List.mem_map.mp hmem
    rw [String.toList_ofList]
    exact (isSimpleName_of_classLiteral hfound).not_mem_dot
  · obtain ⟨receiver, -, hsome⟩ := List.mem_filterMap.mp h
    obtain ⟨found, hfound, rfl⟩ := Option.map_eq_some_iff.mp hsome
    rw [String.toList_ofList]
    exact (isSimpleName_of_declaredType? hfound).not_mem_dot

/-! ## Imported names -/

/-- A name is allowed if it has no word of the test infrastructure in it, in whatever case. -/
theorem isExcluded_eq_false_iff {name : String} :
    isExcluded name = false
      ↔ ∀ keyword ∈ excludedKeywords, ¬ keyword.toList <:+: Text.lower name.toList := by
  rw [isExcluded, List.any_eq_false]
  exact forall₂_congr fun keyword _ => not_congr Text.contains_iff_infix

/-- What a rule for imports finds. -/
theorem mem_typesIn_importName {rule : DependencyRule} (h : rule.action = .importName)
    {text : List Char} {name : String} :
    name ∈ rule.typesIn text
      ↔ isExcluded name = false ∧ name.toList ∈ captured rule.pattern text := by
  rw [typesIn, h]
  show name ∈ ((captured rule.pattern text).map String.ofList).filter _ ↔ _
  rw [List.mem_filter, List.mem_map, Bool.not_eq_true', and_comm]
  refine and_congr_right fun _ => ⟨?_, ?_⟩
  · rintro ⟨found, hfound, rfl⟩
    rwa [String.toList_ofList]
  · exact fun hfound => ⟨name.toList, hfound, String.ofList_toList⟩

end DependencyRule

open DependencyRule

/-- **An imported name is a dependency** exactly if it contains no word of the test infrastructure,
    is made of word characters, and names a role, a layer or a top package: its last segment is of
    ASCII and ends in the word for a role, or a segment behind the first one and before the last one
    is a layer, or its first segment is a top package.  So a layer does not count as the first
    segment.  What else stands in the text makes no difference. -/
theorem mem_dependenciesOf_import_iff {source : String} {i : ImportLine} {name : PackagedName}
    (hi : i.StandsIn source.toList) (hname : i.name = name.text.toList)
    (hsimple : name.simple ≠ []) :
    name.text ∈ (dependenciesOf source).names
      ↔ (∀ keyword ∈ excludedKeywords, ¬ keyword.toList <:+: Text.lower name.text.toList)
        ∧ (∀ c ∈ name.text.toList, inDottedName c = true)
        ∧ (((∀ c ∈ name.simple, inAsciiName c = true)
              ∧ ∃ suffix ∈ roleSuffixes, suffix.toList <:+ name.simple)
          ∨ (∃ layer ∈ layerPackages, layer.toList ∈ name.rest)
          ∨ ∃ top ∈ namespaces, top.toList = name.first) := by
  have hdot : '.' ∈ name.text.toList := by
    rw [PackagedName.text, String.toList_ofList]
    exact List.mem_append_right name.package List.mem_cons_self
  have hrules : (∃ rule ∈ table, name.text ∈ rule.typesIn source.toList)
      ↔ name.text ∈ roleImport.typesIn source.toList
        ∨ name.text ∈ layerImport.typesIn source.toList
        ∨ name.text ∈ namespaceImport.typesIn source.toList := by
    rw [table, List.exists_mem_cons_iff, List.exists_mem_cons_iff, List.exists_mem_cons_iff]
    refine or_congr_right (or_congr_right (or_iff_left ?_))
    rintro ⟨rule, hrule, htype⟩
    exact not_mem_dot_of_typesIn hrule htype hdot
  rw [mem_dependenciesOf, hrules, mem_typesIn_importName rfl, mem_typesIn_importName rfl,
    mem_typesIn_importName rfl, ← and_or_left, ← and_or_left, isExcluded_eq_false_iff]
  refine and_congr_right fun _ => ?_
  rw [roleImport_pattern, layerImport_pattern, namespaceImport_pattern, ← hname,
    mem_captured_iff names_roleName hi, mem_captured_iff names_layerName hi,
    mem_captured_iff names_namespaceName hi, hname, isRoleName_iff, isLayerName_iff hsimple,
    isNamespaceName_iff hsimple, ← and_or_left, ← and_or_left]

/-- A source text with an import on each of two lines. -/
def importingSource : String :=
  "package a;\n  import de.model.Atm ;\nimport model.Atm;\n"

/-- The name of a class in the package of a layer. -/
def modelAtm : PackagedName where
  first := "de".toList
  rest := ["model".toList]
  simple := "Atm".toList
  undotted := by decide

/-- The first of the imports. -/
def modelImport : ImportLine where
  indent := [' ', ' ']
  space := [' ']
  name := modelAtm.text.toList
  gap := [' ']

/-- The first of the imports is found. -/
theorem mem_dependenciesOf_import_model :
    modelImport.StandsIn importingSource.toList ∧ modelAtm.simple ≠ []
    ∧ "de.model.Atm" ∈ (dependenciesOf importingSource).names := by
  have hstands : modelImport.StandsIn importingSource.toList := {
    proper := {
      indent := List.all_eq_true.mp (by decide)
      spaced := by decide
      space := List.all_eq_true.mp (by decide)
      named := by decide
      name := fun c hc =>
        ImportLine.inName_iff.mp (List.all_eq_true.mp (by decide +kernel) c hc)
      gap := List.all_eq_true.mp (by decide) }
    starts := ⟨"package a;\n".toList, "\nimport model.Atm;\n".toList, by decide, by decide⟩ }
  have hsimple : modelAtm.simple ≠ [] := by decide
  refine ⟨hstands, hsimple, (mem_dependenciesOf_import_iff hstands rfl hsimple).mpr ⟨?_, ?_, ?_⟩⟩
  · decide +kernel
  · exact List.all_eq_true.mp (by decide +kernel)
  · exact Or.inr (Or.inl (by decide))

/-- The second one is not, although its package is a layer, and neither is a name with a dollar
    sign. -/
theorem not_mem_dependenciesOf_import_layerFirst :
    "model.Atm" ∉ (dependenciesOf "import model.Atm;").names
    ∧ "com.bank.Atm$Teller" ∉ (dependenciesOf "import com.bank.Atm$Teller;").names := by
  decide +kernel

end FailureTriage
