import FailureTriage.Proofs.Dependency.ImportedTypes

/-!
# Declarations of variables

A variable is declared by its type, with or without type arguments, its name, and a semicolon or an
equals sign.  Such a declaration is read from a text in one way only, although its type arguments
may hold almost anything: it ends with the first semicolon or equals sign behind its type.

* `VariableDeclaration`: a declaration as it is written.
* `VariableDeclaration.eq_of_append`: what is read at a place as a declaration.
* `spells_typeArguments`, `spells_declarationEnd`: the parts of the patterns of declarations.
-/

namespace FailureTriage

namespace DependencyRule

open Pattern

/-! ## Characters of names -/

/-- What is no part of a word is no part of a name of ASCII. -/
theorem inAsciiName_of_isWord {c : Char} (h : Text.isWord c = false) : inAsciiName c = false :=
  Bool.eq_false_iff.mpr fun hname => by
    rw [isWord_of_inAsciiName hname] at h
    cases h

/-- No blank is part of a name of ASCII. -/
theorem inAsciiName_of_isBlank {c : Char} (h : Text.isBlank c = true) : inAsciiName c = false :=
  inAsciiName_of_isWord (Text.isWord_of_isBlank h)

/-- No blank is a capital. -/
theorem isUpper_of_isBlank {c : Char} (h : Text.isBlank c = true) : (!c.isUpper) = true := by
  rw [Bool.not_eq_true']
  exact Bool.eq_false_iff.mpr fun hupper =>
    nomatch (inAsciiName_of_isUpper hupper).symm.trans (inAsciiName_of_isBlank h)

/-- Whether a character ends the declaration of a variable. -/
def endsDeclaration (c : Char) : Bool :=
  c == ';' || c == '='

/-- What ends a declaration is no part of a word. -/
theorem isWord_of_endsDeclaration {c : Char} (h : endsDeclaration c = true) :
    Text.isWord c = false := by
  rcases Bool.or_eq_true_iff.mp h with h | h
  · rw [eq_of_beq h]
    decide
  · rw [eq_of_beq h]
    decide

theorem endsDeclaration_of_isWord {c : Char} (h : Text.isWord c = true) :
    endsDeclaration c = false :=
  Bool.eq_false_iff.mpr fun hend => by
    rw [isWord_of_endsDeclaration hend] at h
    cases h

/-- No blank ends a declaration. -/
theorem endsDeclaration_of_isBlank {c : Char} (h : Text.isBlank c = true) :
    endsDeclaration c = false := by
  refine Bool.eq_false_iff.mpr fun hend => ?_
  rcases Bool.or_eq_true_iff.mp hend with hend | hend
  · rw [eq_of_beq hend] at h
    cases h
  · rw [eq_of_beq hend] at h
    cases h

/-! ## Declarations as they are written -/

/-- Type arguments do not end a declaration. -/
theorem endsDeclaration_of_inTypeArguments {c : Char} (h : inTypeArguments c = true) :
    endsDeclaration c = false := by
  rw [inTypeArguments, Bool.not_eq_true', Bool.or_eq_false_iff, Bool.or_eq_false_iff] at h
  exact h.1.1

/-- Type arguments: characters of a class between angle brackets. -/
def IsTypeArguments (inArguments : Char → Bool) (text : List Char) : Prop :=
  ∃ inner, text = '<' :: (inner ++ ['>']) ∧ ∀ c ∈ inner, inArguments c = true

/-- A declaration of a variable as it is written: a capitalised type of ASCII, its type arguments if
    there are any, blanks, the name of the variable, and blanks before the character that ends the
    declaration. -/
structure VariableDeclaration (inArguments : Char → Bool) where
  type : List Char
  arguments : List Char
  space : List Char
  field : List Char
  gap : List Char
  mark : Char
  isType : IsSimpleName type
  isArguments : IsTypeArguments inArguments arguments ∨ arguments = []
  isSpace : space ≠ [] ∧ ∀ c ∈ space, Text.isBlank c = true
  isField : field ≠ [] ∧ ∀ c ∈ field, Text.isWord c = true
  isGap : ∀ c ∈ gap, Text.isBlank c = true
  isMark : endsDeclaration mark = true

namespace VariableDeclaration

variable {inArguments : Char → Bool} {d e : VariableDeclaration inArguments}
  {tail tail' : List Char}

/-- What stands between the type and the end of a declaration. -/
def body (d : VariableDeclaration inArguments) : List Char :=
  d.arguments ++ (d.space ++ (d.field ++ d.gap))

/-- What follows the type arguments. -/
def ending (d : VariableDeclaration inArguments) : List Char :=
  d.space ++ (d.field ++ (d.gap ++ [d.mark]))

/-- The text of a declaration. -/
def text (d : VariableDeclaration inArguments) : List Char :=
  d.type ++ (d.body ++ [d.mark])

theorem text_append (d : VariableDeclaration inArguments) (tail : List Char) :
    d.text ++ tail = d.type ++ (d.body ++ d.mark :: tail) := by
  rw [text, List.append_assoc, List.append_assoc, List.singleton_append]

theorem text_append_ending (d : VariableDeclaration inArguments) (tail : List Char) :
    d.text ++ tail = (d.type ++ d.arguments) ++ (d.ending ++ tail) := by
  simp only [text, body, ending, List.append_assoc]

/-- Behind the type stands an angle bracket or a blank. -/
theorem head?_body (d : VariableDeclaration inArguments) (rest : List Char) :
    (d.body ++ rest).head?.any Text.isWord = false := by
  rcases d.isArguments with ⟨inner, hinner, -⟩ | hnone
  · rw [body, hinner]
    rfl
  · obtain ⟨c, space, hspace⟩ := List.exists_cons_of_ne_nil d.isSpace.1
    have hc := d.isSpace.2 c (hspace ▸ List.mem_cons_self)
    rw [body, hnone, hspace]
    exact Text.isWord_of_isBlank hc

/-- So the type ends there. -/
theorem head?_body_inAsciiName (d : VariableDeclaration inArguments) (rest : List Char) :
    (d.body ++ rest).head?.any DependencyRule.inAsciiName = false := by
  have hword := d.head?_body rest
  cases hhead : (d.body ++ rest).head? with
  | none => rfl
  | some c =>
      rw [hhead] at hword
      exact inAsciiName_of_isWord hword

/-- A declaration ends where something that can end it stands for the first time behind its type. -/
theorem endsDeclaration_of_mem_body
    (hclosed : ∀ c, inArguments c = true → endsDeclaration c = false) {c : Char}
    (hc : c ∈ d.body) : endsDeclaration c = false := by
  rw [body, List.mem_append, List.mem_append, List.mem_append] at hc
  rcases hc with harguments | hspace | hfield | hgap
  · rcases d.isArguments with ⟨inner, hinner, hall⟩ | hnone
    · rw [hinner, List.mem_cons, List.mem_append, List.mem_singleton] at harguments
      rcases harguments with rfl | hmem | rfl
      · rfl
      · exact hclosed c (hall c hmem)
      · rfl
    · rw [hnone] at harguments
      cases harguments
  · exact endsDeclaration_of_isBlank (d.isSpace.2 c hspace)
  · exact endsDeclaration_of_isWord (d.isField.2 c hfield)
  · exact endsDeclaration_of_isBlank (d.isGap c hgap)

/-- **A text is read as a declaration** in one way only. -/
theorem eq_of_append (hclosed : ∀ c, inArguments c = true → endsDeclaration c = false)
    (h : d.text ++ tail = e.text ++ tail') : d.type = e.type ∧ d.text = e.text := by
  have hparts := h
  rw [text_append, text_append] at hparts
  obtain ⟨htype, hrest⟩ := Text.append_inj_of_class d.isType.inAsciiName e.isType.inAsciiName
    (d.head?_body_inAsciiName _) (e.head?_body_inAsciiName _) hparts
  have hopen : ∀ {f : VariableDeclaration inArguments}, ∀ c ∈ f.body, (!endsDeclaration c) = true :=
    fun c hc => by rw [endsDeclaration_of_mem_body hclosed hc, Bool.not_false]
  have hend : ∀ (f : VariableDeclaration inArguments) (tail : List Char),
      (f.mark :: tail).head?.any (fun c => !endsDeclaration c) = false := fun f tail => by
    show (!endsDeclaration f.mark) = false
    rw [f.isMark, Bool.not_true]
  obtain ⟨hbody, hmark⟩ := Text.append_inj_of_class hopen hopen (hend d tail) (hend e tail') hrest
  refine ⟨htype, ?_⟩
  rw [text, text, htype, hbody, (List.cons.inj hmark).1]

end VariableDeclaration

/-! ## The parts of patterns of declarations -/

section

variable {accept : Char → Bool}

theorem spells_typeArguments {lazily : Bool} :
    (opt (sequence [word "<", .run accept lazily, word ">"])).Spells fun text =>
      IsTypeArguments accept text ∨ text = [] :=
  spells_opt (spells_between "<" ">")

/-- What ends a declaration. -/
theorem spells_declarationEnd :
    (sequence [blanks, .one endsDeclaration]).Spells fun text =>
      ∃ gap mark, text = gap ++ [mark] ∧ (∀ c ∈ gap, Text.isBlank c = true)
        ∧ endsDeclaration mark = true := by
  refine (spells_blanks.sequence_cons spells_one.sequence_singleton).congr fun text => ?_
  constructor
  · rintro ⟨gap, _, rfl, hgap, mark, rfl, hmark⟩
    exact ⟨gap, mark, rfl, hgap, hmark⟩
  · rintro ⟨gap, mark, rfl, hgap, hmark⟩
    exact ⟨gap, _, rfl, hgap, mark, rfl, hmark⟩

end

end DependencyRule

end FailureTriage
