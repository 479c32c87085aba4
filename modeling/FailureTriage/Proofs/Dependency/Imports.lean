import FailureTriage.Dependency.Rule
import FailureTriage.Proofs.Pattern.Groups
import FailureTriage.Proofs.Pattern.Successive
import FailureTriage.Proofs.Text.Segments
import FailureTriage.Proofs.Text.Words

/-!
# Import statements

Three rules look for imports, each for names of its own.  The blanks that an import may have go
across lines, so an import can start on a line above the one where the word `import` stands; but it
keeps the same name then, and no other import hides it.

* `ImportLine`: an import as it is written.
* `ImportLine.name_eq_of_covers`: an import that starts above another one.
* `importLine_of_matchAt?`, `exists_matchAt?_of_importLine`: what the pattern of an import matches.
* `mem_captured_iff`: an import is found exactly if its name is one of those that are looked for.
-/

namespace FailureTriage

/-! ## Imports as they are written -/

/-- An import as it is written: the blanks at the start of the line and after the word `import`, the
    name, and the blanks after it. -/
structure ImportLine where
  indent : List Char
  space : List Char
  name : List Char
  gap : List Char

namespace ImportLine

variable {i j : ImportLine} {tail tail' : List Char}

/-- What follows the word `import`. -/
def ending (i : ImportLine) : List Char :=
  i.space ++ (i.name ++ (i.gap ++ [';']))

/-- The text of an import. -/
def text (i : ImportLine) : List Char :=
  i.indent ++ ("import".toList ++ i.ending)

/-- Whether the parts of an import are what they should be: blanks, at least one after the word
    `import`, and a name that has no blank and no semicolon. -/
structure Proper (i : ImportLine) : Prop where
  indent : ∀ c ∈ i.indent, Text.isBlank c = true
  spaced : i.space ≠ []
  space : ∀ c ∈ i.space, Text.isBlank c = true
  named : i.name ≠ []
  name : ∀ c ∈ i.name, Text.isBlank c = false ∧ c ≠ ';'
  gap : ∀ c ∈ i.gap, Text.isBlank c = true

/-- Whether a character can be in the name of an import. -/
def inName (c : Char) : Bool :=
  !(Text.isBlank c || c == ';')

theorem inName_iff {c : Char} : inName c = true ↔ Text.isBlank c = false ∧ c ≠ ';' := by
  rw [inName, Bool.not_eq_true', Bool.or_eq_false_iff, beq_eq_false_iff_ne]

/-- What follows the name is no part of it. -/
theorem Proper.head?_gap (h : i.Proper) (tail : List Char) :
    (i.gap ++ (';' :: tail)).head?.any inName = false := by
  cases hgap : i.gap with
  | nil => rfl
  | cons c gap =>
      have hc := h.gap c (hgap ▸ List.mem_cons_self)
      show inName c = false
      rw [inName, hc]
      rfl

/-- The name starts with no blank. -/
theorem Proper.head?_name (h : i.Proper) (rest : List Char) :
    (i.name ++ rest).head?.any Text.isBlank = false := by
  obtain ⟨c, name, hname⟩ := List.exists_cons_of_ne_nil h.named
  have hc := (h.name c (hname ▸ List.mem_cons_self)).1
  rw [hname]
  exact hc

theorem text_append (i : ImportLine) (tail : List Char) :
    i.text ++ tail = i.indent ++ ("import".toList ++ (i.ending ++ tail)) := by
  rw [text, List.append_assoc, List.append_assoc]

theorem ending_append (i : ImportLine) (tail : List Char) :
    i.ending ++ tail = i.space ++ (i.name ++ (i.gap ++ ';' :: tail)) := by
  rw [ending, List.append_assoc, List.append_assoc, List.append_assoc, List.singleton_append]

/-- **A text is read as an import** in one way only. -/
theorem name_eq_of_text_append (hi : i.Proper) (hj : j.Proper)
    (h : i.text ++ tail = j.text ++ tail') : i.name = j.name := by
  rw [text_append, text_append] at h
  have hrest := (Text.append_inj_of_class hi.indent hj.indent rfl rfl h).2
  have hending := List.append_cancel_left hrest
  rw [ending_append, ending_append] at hending
  have hname := (Text.append_inj_of_class hi.space hj.space (hi.head?_name _) (hj.head?_name _)
    hending).2
  exact (Text.append_inj_of_class (fun c hc => inName_iff.mpr (hi.name c hc))
    (fun c hc => inName_iff.mpr (hj.name c hc)) (hi.head?_gap _) (hj.head?_gap _) hname).1

/-! ## One import inside of another -/

/-- What a text is cut into that ends a line: the line feed lies in its first part, or behind it. -/
private theorem cut_cases {x y u v : List Char} (hu : u.getLast? = some '\n')
    (h : x ++ y = u ++ v) :
    (∃ w, x = u ++ w ∧ v = w ++ y) ∨ ∃ w, w.getLast? = some '\n' ∧ y = w ++ v := by
  rcases List.append_eq_append_iff.mp h with ⟨w, rfl, hy⟩ | ⟨w, hx, hv⟩
  · cases w with
    | nil =>
        refine Or.inl ⟨[], ?_, hy.symm⟩
        rw [List.append_nil, List.append_nil]
    | cons c w =>
        rw [List.getLast?_append_of_ne_nil _ (List.cons_ne_nil c w)] at hu
        exact Or.inr ⟨c :: w, hu, hy⟩
  · exact Or.inl ⟨w, hx, hv⟩

/-- A line does not end in a part without line feeds. -/
private theorem cut_of_not_mem {x y u v : List Char} (hx : '\n' ∉ x) (hu : u.getLast? = some '\n')
    (h : x ++ y = u ++ v) : ∃ w, w.getLast? = some '\n' ∧ y = w ++ v := by
  refine (cut_cases hu h).resolve_left fun ⟨w, hw, _⟩ => hx ?_
  rw [hw]
  exact List.mem_append_left w (List.mem_of_getLast? hu)

/-- **An import that starts above another one** and ends behind its start has the same name, if that
    is not the word `import` itself. -/
theorem name_eq_of_covers {above rest : List Char} (hi : i.Proper) (hj : j.Proper)
    (hword : j.name ≠ "import".toList) (habove : above.getLast? = some '\n')
    (hcut : j.text = above ++ rest) (h : rest ++ tail = i.text ++ tail') : j.name = i.name := by
  rw [text_append] at h
  rcases cut_cases habove hcut with ⟨indent, hindent, hrest⟩ | ⟨above, habove, hcut⟩
  · -- the line feed is one of the blanks at the start
    let k : ImportLine := { j with indent }
    have hk : k.Proper := { hj with
      indent := fun c hc => hj.indent c (hindent ▸ List.mem_append_right above hc) }
    have htext : rest = k.text := hrest
    rw [htext, ← text_append] at h
    have hname : k.name = i.name := name_eq_of_text_append hk hi h
    exact hname
  obtain ⟨above, habove, hcut⟩ := cut_of_not_mem (by decide) habove hcut
  rcases cut_cases habove hcut with ⟨space, hspace, hrest⟩ | ⟨above, habove, hcut⟩
  · -- the word of one import is the name of the other
    have hblank : ∀ c ∈ space, Text.isBlank c = true := fun c hc =>
      hj.space c (hspace ▸ List.mem_append_right above hc)
    rw [hrest, List.append_assoc, List.append_assoc, List.append_assoc, List.singleton_append] at h
    have hname := (Text.append_inj_of_class hblank hi.indent (hj.head?_name _) rfl h).2
    have hafter : (i.ending ++ tail').head?.any inName = false := by
      obtain ⟨c, space, hcons⟩ := List.exists_cons_of_ne_nil hi.spaced
      have hc := hi.space c (hcons ▸ List.mem_cons_self)
      rw [ending_append, hcons]
      show inName c = false
      rw [inName, hc]
      rfl
    have hsame := (Text.append_inj_of_class (fun c hc => inName_iff.mpr (hj.name c hc))
      (List.all_eq_true.mp rfl) (hj.head?_gap _) hafter hname).1
    exact absurd hsame hword
  have hname : '\n' ∉ j.name := fun hmem => nomatch (hj.name _ hmem).1
  obtain ⟨above, habove, hcut⟩ := cut_of_not_mem hname habove hcut
  rcases cut_cases habove hcut with ⟨gap, hgap, hrest⟩ | ⟨above, habove, hcut⟩
  · -- no semicolon starts an import
    have hblank : ∀ c ∈ gap, Text.isBlank c = true := fun c hc =>
      hj.gap c (hgap ▸ List.mem_append_right above hc)
    rw [hrest, List.append_assoc, List.singleton_append] at h
    have hsemicolon := (Text.append_inj_of_class hblank hi.indent rfl rfl h).2
    cases hsemicolon
  · have hmem : '\n' ∈ [';'] := by
      rw [hcut]
      exact List.mem_append_left rest (List.mem_of_getLast? habove)
    exact absurd hmem (by decide)

/-- An import stands in a text, at the start of a line. -/
structure StandsIn (i : ImportLine) (text : List Char) : Prop where
  proper : i.Proper
  starts : ∃ above after, text = above ++ (i.text ++ after)
    ∧ (above = [] ∨ above.getLast? = some '\n')

end ImportLine

namespace DependencyRule

open Pattern

variable {name : Pattern} {names : List Char → Prop} {a : Place}

/-! ## What the pattern of an import matches -/

/-- Whether a pattern of names has no groups and matches the texts of a class, which are names with
    dots in them. -/
structure Names (name : Pattern) (names : List Char → Prop) : Prop where
  plain : name.isPlain = true
  spells : name.Spells names
  dotted : ∀ text, names text → '.' ∈ text ∧ ∀ c ∈ text, inDottedName c = true

/-- No character of a name with dots is a blank or a semicolon. -/
theorem inName_of_inDottedName {c : Char} (h : inDottedName c = true) :
    Text.isBlank c = false ∧ c ≠ ';' := by
  rcases Bool.or_eq_true_iff.mp h with hword | hdot
  · refine ⟨Text.isBlank_of_isWord hword, ?_⟩
    rintro rfl
    exact absurd hword (by decide +kernel)
  · rw [eq_of_beq hdot]
    decide

/-- The start of a line stands at a place. -/
def StartsLine (a : Place) : Prop :=
  a.before = none ∨ a.before = some '\n'

/-- **What is matched** is an import, and its name is kept. -/
theorem importLine_of_matchAt? (hnames : Names name names) {m : Match}
    (h : (importPattern name).matchAt? a = some m) :
    ∃ i : ImportLine, ∃ tail, i.Proper ∧ names i.name ∧ a.rest = i.text ++ tail
      ∧ m.span.stop = a.index + i.text.length ∧ m.group? 1 = some i.name := by
  rw [matchAt?_eq_thenTry, importPattern, thenTry_sequence_cons, thenTry_lineStart] at h
  obtain ⟨-, h⟩ := h
  rw [thenTry_sequence_cons] at h
  obtain ⟨indent, rest, hrest, hindent, h⟩ := thenTry_eq_some_of_spells rfl spells_blanks h
  rw [thenTry_sequence_cons] at h
  obtain ⟨_, rest, rfl, rfl, h⟩ := thenTry_eq_some_of_spells rfl (spells_word _) h
  rw [thenTry_sequence_cons] at h
  obtain ⟨space, rest, rfl, ⟨hspaced, hspace⟩, h⟩ :=
    thenTry_eq_some_of_spells rfl spells_blanks1 h
  rw [thenTry_sequence_cons, thenTry_group] at h
  obtain ⟨text, rest, rfl, htext, h⟩ :=
    thenTry_eq_some_of_spells hnames.plain hnames.spells h
  rw [thenTry_sequence_cons] at h
  obtain ⟨gap, rest, rfl, hgap, h⟩ := thenTry_eq_some_of_spells rfl spells_blanks h
  obtain ⟨_, tail, rfl, rfl, h⟩ := thenTry_eq_some_of_spells rfl (spells_word _) h
  obtain rfl := Option.some.inj h
  have hdotted := hnames.dotted text htext
  refine ⟨⟨indent, space, text, gap⟩, tail, ?_, htext, ?_, ?_, ?_⟩
  · exact {
      indent := hindent
      spaced := hspaced
      space := hspace
      named := List.ne_nil_of_mem hdotted.1
      name := fun c hc => inName_of_inDottedName (hdotted.2 c hc)
      gap := hgap }
  · rw [hrest, ImportLine.text_append, ImportLine.ending_append]
    rfl
  · simp only [Place.past_index, ImportLine.text, ImportLine.ending, List.length_append,
      Nat.add_assoc]
    rfl
  · exact congrArg some (Span.text_past rfl)

/-- **An import is matched** at the start of its line, if its name is one that is looked for. -/
theorem exists_matchAt?_of_importLine (hnames : Names name names) {i : ImportLine}
    {tail : List Char} (hi : i.Proper) (hname : names i.name) (hstart : StartsLine a)
    (hrest : a.rest = i.text ++ tail) : ∃ m, (importPattern name).matchAt? a = some m := by
  have hgroup : (Pattern.group 1 name).Spells names := hnames.spells
  have hspells := spells_blanks.sequence_cons <| (spells_word "import").sequence_cons <|
    spells_blanks1.sequence_cons <| hgroup.sequence_cons <| spells_blanks.sequence_cons <|
    spells_word ";"
  have hmatch : (importPattern name).Matches a (a.past i.text tail) :=
    ⟨a, ⟨rfl, hstart⟩, (hspells a _).mpr ⟨i.text, tail, hrest,
      ⟨i.indent, _, rfl, hi.indent, "import".toList, i.ending, rfl, rfl, i.space, _, rfl,
        ⟨hi.spaced, hi.space⟩, i.name, _, rfl, hname, i.gap, [';'], rfl, hi.gap, rfl⟩, rfl⟩⟩
  exact exists_matchAt?_of_matches hmatch

/-- What is kept comes from a match at some place of the text. -/
theorem exists_matchAt?_of_mem_captured {pattern : Pattern} {text found : List Char}
    (h : found ∈ captured pattern text) :
    ∃ position m, pattern.matchAt? (Place.inText text position) = some m
      ∧ m.group? 1 = some found := by
  obtain ⟨m, hm, hgroup⟩ := List.mem_filterMap.mp h
  obtain ⟨position, -, hmatch⟩ := exists_of_mem_findAll hm
  exact ⟨position, m, hmatch, hgroup⟩

/-- What is found are names that are looked for. -/
theorem names_of_mem_captured (hnames : Names name names) {text found : List Char}
    (h : found ∈ captured (importPattern name) text) : names found := by
  obtain ⟨position, m, hmatch, hgroup⟩ := exists_matchAt?_of_mem_captured h
  obtain ⟨i, tail, -, hname, -, -, hkept⟩ := importLine_of_matchAt? hnames hmatch
  rw [hkept] at hgroup
  obtain rfl := Option.some.inj hgroup
  exact hname

/-- The name of an import is found, if it is one that is looked for: what is found in its place
    starts above it and has the same name. -/
theorem mem_captured_of_standsIn (hnames : Names name names) {i : ImportLine} {text : List Char}
    (hi : i.StandsIn text) (hname : names i.name) :
    i.name ∈ captured (importPattern name) text := by
  obtain ⟨hproper, above, after, rfl, hline⟩ := hi
  have hstart : StartsLine ⟨above.length, above.getLast?, i.text ++ after⟩ := by
    rcases hline with rfl | hline
    · exact Or.inl rfl
    · exact Or.inr hline
  obtain ⟨m, hm⟩ := exists_matchAt?_of_importLine hnames hproper hname hstart rfl
  have hposition : above.length ≤ (above ++ (i.text ++ after)).length := by
    rw [List.length_append]
    exact Nat.le_add_right _ _
  rw [← inText_append] at hm
  obtain ⟨start, hle, hit, hhit, hmatch, hcovers⟩ := exists_mem_findAll hposition hm
  refine List.mem_filterMap.mpr ⟨hit, hhit, ?_⟩
  obtain ⟨done, covered, rfl, rfl⟩ : ∃ done covered, above = done ++ covered
      ∧ done.length = start :=
    ⟨above.take start, above.drop start, (List.take_append_drop start above).symm,
      List.length_take_of_le hle⟩
  rw [List.append_assoc, inText_append] at hmatch
  obtain ⟨j, tail, hj, hfound, hrest, hstop, hgroup⟩ := importLine_of_matchAt? hnames hmatch
  have hrest : covered ++ (i.text ++ after) = j.text ++ tail := hrest
  suffices hsame : j.name = i.name by rw [hgroup, hsame]
  rw [List.length_append] at hcovers
  by_cases hnone : covered = []
  · rw [hnone] at hrest
    exact ImportLine.name_eq_of_text_append hj hproper hrest.symm
  have hfeed : covered.getLast? = some '\n' := by
    rw [List.getLast?_append_of_ne_nil done hnone] at hline
    exact hline.resolve_left fun h => hnone (List.append_eq_nil_iff.mp h).2
  have hshort : covered.length < j.text.length := by
    have hstop : hit.span.stop = done.length + j.text.length := hstop
    have hpos := List.length_pos_iff.mpr hnone
    omega
  have hword : j.name ≠ "import".toList := by
    intro heq
    have hdot := (hnames.dotted _ hfound).1
    rw [heq] at hdot
    exact absurd hdot (by decide)
  rcases List.append_eq_append_iff.mp hrest with ⟨rest, hcut, htail⟩ | ⟨rest, hcut, -⟩
  · exact ImportLine.name_eq_of_covers hproper hj hword hfeed hcut htail.symm
  · rw [hcut, List.length_append] at hshort
    exact absurd hshort (Nat.not_lt.mpr (Nat.le_add_right _ _))

/-- **An import is found** exactly if its name is one that is looked for, whatever else stands in
    the text. -/
theorem mem_captured_iff (hnames : Names name names) {i : ImportLine} {text : List Char}
    (hi : i.StandsIn text) : i.name ∈ captured (importPattern name) text ↔ names i.name :=
  ⟨names_of_mem_captured hnames, mem_captured_of_standsIn hnames hi⟩

end DependencyRule

end FailureTriage
