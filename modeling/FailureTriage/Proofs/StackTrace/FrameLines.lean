import FailureTriage.Proofs.Pattern.Groups
import FailureTriage.Proofs.Pattern.Successive
import FailureTriage.Proofs.Text.Words
import FailureTriage.Proofs.Text.Numbers
import FailureTriage.StackTrace

/-!
# Lines with frames

How a frame stands on a line of a stack trace, and that it is read from there in one way only,
although the names of loaders, classes and methods share most of their characters.

* `FrameLine`: a line with a frame as it is written, part by part.
* `FrameLine.parts_eq_of_text`: a line is such a line in one way only.
* `FrameLine.Shows`: which frame a line shows.
* `StackFrame.ofLine?_text`, `StackFrame.ofLine?_eq_some_iff`: the frame that is read from a line.
-/

namespace FailureTriage

/-- A line with a frame as it is written: blanks, the word `at`, blanks, at most two loaders with a
    slash behind each, then the frame, and any rest of the line. -/
structure FrameLine where
  indent : List Char
  gap : List Char
  loaders : List (List Char)
  qualifier : List Char
  method : List Char
  /-- The name of the file without its extension. -/
  stem : List Char
  digits : List Char
  rest : List Char
  isIndent : ∀ c ∈ indent, Text.isBlank c = true
  isGap : gap ≠ [] ∧ ∀ c ∈ gap, Text.isBlank c = true
  atMostTwo : loaders.length ≤ 2
  isLoader : ∀ loader ∈ loaders, ∀ c ∈ loader, StackFrame.inLoader c = true
  isQualifier : qualifier ≠ [] ∧ ∀ c ∈ qualifier, StackFrame.inQualifier c = true
  isMethod : method ≠ [] ∧ ∀ c ∈ method, StackFrame.inMethod c = true
  isStem : stem ≠ [] ∧ ∀ c ∈ stem, StackFrame.inFile c = true
  isDigits : digits ≠ [] ∧ ∀ c ∈ digits, Text.isDecimalDigit c = true

namespace FrameLine

/-- The loaders of a line, each with a slash behind it. -/
def slashed (loaders : List (List Char)) : List Char :=
  loaders.flatMap (· ++ ['/'])

/-- What stands between the blanks and the parenthesis. -/
def name (l : FrameLine) : List Char :=
  slashed l.loaders ++ (l.qualifier ++ '.' :: l.method)

/-- The name of the file. -/
def file (l : FrameLine) : List Char :=
  l.stem ++ ".java".toList

/-- What stands behind the opening parenthesis. -/
def ending (l : FrameLine) : List Char :=
  l.file ++ ':' :: (l.digits ++ ')' :: l.rest)

/-- The text of the line. -/
def text (l : FrameLine) : List Char :=
  l.indent ++ ("at".toList ++ (l.gap ++ (l.name ++ '(' :: l.ending)))

/-- The frame on the line, if its number is one of 32 bits in ASCII digits. -/
def frame? (l : FrameLine) : Option StackFrame :=
  (Text.readNat? Text.maxWord32 l.digits).map fun number => {
    qualifier := String.ofList l.qualifier
    method := String.ofList l.method
    file := String.ofList l.file
    line := UInt32.ofNat number }

/-! ## Characters of names -/

section

variable {c : Char}

/-- A qualifier is made of parts of words, dots and dollar signs. -/
theorem inQualifier_iff :
    StackFrame.inQualifier c = true ↔ Text.isWord c = true ∨ c = '.' ∨ c = '$' := by
  rw [StackFrame.inQualifier, Bool.or_eq_true, Bool.or_eq_true, beq_iff_eq, beq_iff_eq, or_assoc]

/-- The name of a loader may also hold what stands between names and versions. -/
theorem inLoader_iff : StackFrame.inLoader c = true
    ↔ (Text.isWord c = true ∨ c = '.' ∨ c = '$') ∨ c = '@' ∨ c = '+' ∨ c = '-' := by
  rw [StackFrame.inLoader, Bool.or_eq_true, Bool.or_eq_true, Bool.or_eq_true, inQualifier_iff,
    beq_iff_eq, beq_iff_eq, beq_iff_eq, or_assoc, or_assoc]

/-- The name of a method is made of parts of words, dollar signs and angle brackets. -/
theorem inMethod_iff :
    StackFrame.inMethod c = true ↔ Text.isWord c = true ∨ c = '$' ∨ c = '<' ∨ c = '>' := by
  rw [StackFrame.inMethod, Bool.or_eq_true, Bool.or_eq_true, Bool.or_eq_true, beq_iff_eq,
    beq_iff_eq, beq_iff_eq, or_assoc, or_assoc]

/-- The name of a file is made of parts of words and dollar signs. -/
theorem inFile_iff : StackFrame.inFile c = true ↔ Text.isWord c = true ∨ c = '$' := by
  rw [StackFrame.inFile, Bool.or_eq_true, beq_iff_eq]

end

/-- A character of a qualifier may stand in the name of a loader. -/
theorem inLoader_of_inQualifier {c : Char} (h : StackFrame.inQualifier c = true) :
    StackFrame.inLoader c = true :=
  inLoader_iff.mpr (Or.inl (inQualifier_iff.mp h))

/-- No character of the name of a loader is a blank. -/
theorem isBlank_of_inLoader {c : Char} (h : StackFrame.inLoader c = true) :
    Text.isBlank c = false := by
  rcases inLoader_iff.mp h with (hword | rfl | rfl) | rfl | rfl | rfl
  · exact Text.isBlank_of_isWord hword
  all_goals decide

/-- What ends a name before the parenthesis is no character of it. -/
theorem ne_of_inLoader {c : Char} (h : StackFrame.inLoader c = true) : c ≠ '/' ∧ c ≠ '(' := by
  constructor
  · rintro rfl
    exact absurd h (by decide +kernel)
  · rintro rfl
    exact absurd h (by decide +kernel)

theorem ne_of_inMethod {c : Char} (h : StackFrame.inMethod c = true) :
    c ≠ '.' ∧ c ≠ '/' ∧ c ≠ '(' := by
  rcases inMethod_iff.mp h with hword | rfl | rfl | rfl
  · refine ⟨?_, ?_, ?_⟩
    all_goals
      rintro rfl
      exact absurd hword (by decide +kernel)
  all_goals decide

/-! ## A line is read in one way -/

variable {l l' : FrameLine}

theorem slashed_nil : slashed [] = [] :=
  rfl

theorem slashed_cons (loader : List Char) (loaders : List (List Char)) :
    slashed (loader :: loaders) = loader ++ '/' :: slashed loaders := by
  rw [slashed, List.flatMap_cons, List.append_assoc]
  rfl

/-- Loaders end in a slash. -/
theorem getLast?_slashed (loaders : List (List Char)) :
    slashed loaders = [] ∨ (slashed loaders).getLast? = some '/' := by
  rcases List.eq_nil_or_concat loaders with rfl | ⟨before, last, rfl⟩
  · exact Or.inl rfl
  · refine Or.inr ?_
    rw [slashed, List.concat_eq_append, List.flatMap_append, List.flatMap_singleton,
      ← List.append_assoc, List.getLast?_concat]

/-- The name of a method with its class, behind the loaders. -/
theorem slash_not_mem (l : FrameLine) : '/' ∉ l.qualifier ++ '.' :: l.method := by
  intro hmem
  rcases List.mem_append.mp hmem with hmem | hmem
  · exact (ne_of_inLoader (inLoader_of_inQualifier (l.isQualifier.2 _ hmem))).1 rfl
  · rcases List.mem_cons.mp hmem with heq | hmem
    · cases heq
    · exact (ne_of_inMethod (l.isMethod.2 _ hmem)).2.1 rfl

theorem dot_not_mem_method (l : FrameLine) : '.' ∉ l.method := fun hmem =>
  (ne_of_inMethod (l.isMethod.2 _ hmem)).1 rfl

/-- No parenthesis stands before the one of the file. -/
theorem parenthesis_not_mem_name (l : FrameLine) : '(' ∉ l.name := by
  intro hmem
  rcases List.mem_append.mp hmem with hmem | hmem
  · obtain ⟨loader, hloader, hmem⟩ := List.mem_flatMap.mp hmem
    rcases List.mem_append.mp hmem with hmem | hmem
    · exact (ne_of_inLoader (l.isLoader loader hloader _ hmem)).2 rfl
    · exact absurd hmem (by decide)
  · rcases List.mem_append.mp hmem with hmem | hmem
    · exact (ne_of_inLoader (inLoader_of_inQualifier (l.isQualifier.2 _ hmem))).2 rfl
    · rcases List.mem_cons.mp hmem with heq | hmem
      · cases heq
      · exact (ne_of_inMethod (l.isMethod.2 _ hmem)).2.2 rfl

/-- The name on a line does not start with a blank. -/
theorem head?_name (l : FrameLine) (rest : List Char) :
    (l.name ++ rest).head?.any Text.isBlank = false := by
  have hqualifier : ∀ more, (l.qualifier ++ more).head?.any Text.isBlank = false := by
    intro more
    obtain ⟨c, qualifier, hcons⟩ := List.exists_cons_of_ne_nil l.isQualifier.1
    have hc := l.isQualifier.2 c (hcons ▸ List.mem_cons_self)
    rw [hcons]
    exact isBlank_of_inLoader (inLoader_of_inQualifier hc)
  rw [name]
  cases hloaders : l.loaders with
  | nil =>
      rw [slashed_nil, List.nil_append, List.append_assoc]
      exact hqualifier _
  | cons loader loaders =>
      rw [slashed_cons]
      cases loader with
      | nil => rfl
      | cons c loader =>
          have hloader := l.isLoader (c :: loader) (hloaders ▸ List.mem_cons_self)
          exact isBlank_of_inLoader (hloader c List.mem_cons_self)

/-- The class and the method are found in a name: the last slash ends the loaders, and the last dot
    the class. -/
theorem method_eq_of_name (h : l.name = l'.name) :
    l.qualifier = l'.qualifier ∧ l.method = l'.method := by
  have hslash : ∀ loaders, (slashed loaders).getLast?.any (· != '/') = false := fun loaders =>
    Text.getLast?_any_bne.mpr (getLast?_slashed loaders)
  have hcut := (Text.append_inj_of_class_end (Text.forall_bne.mpr l.slash_not_mem)
    (Text.forall_bne.mpr l'.slash_not_mem) (hslash _) (hslash _) h).2
  have hqualifier := congrArg (Text.beforeLast? '.') hcut
  rw [Text.beforeLast?_append_cons l.dot_not_mem_method,
    Text.beforeLast?_append_cons l'.dot_not_mem_method] at hqualifier
  have hqualifier := Option.some.inj hqualifier
  rw [hqualifier] at hcut
  exact ⟨hqualifier, (List.cons.inj (List.append_cancel_left hcut)).2⟩

/-- The file and the number are found behind the parenthesis. -/
theorem number_eq_of_ending (h : l.ending = l'.ending) :
    l.stem = l'.stem ∧ l.digits = l'.digits := by
  rw [ending, ending, file, file, List.append_assoc, List.append_assoc] at h
  have hdot : ∀ rest, (".java".toList ++ rest).head?.any StackFrame.inFile = false := fun rest =>
    show StackFrame.inFile '.' = false by decide +kernel
  obtain ⟨hstem, h⟩ := Text.append_inj_of_class l.isStem.2 l'.isStem.2 (hdot _) (hdot _) h
  have h := (List.cons.inj (List.append_cancel_left h)).2
  exact ⟨hstem, (Text.append_inj_of_class l.isDigits.2 l'.isDigits.2 rfl rfl h).1⟩

/-- **A line is read in one way only**: its text has the parts of one frame. -/
theorem parts_eq_of_text (h : l.text = l'.text) :
    (l.qualifier = l'.qualifier ∧ l.method = l'.method) ∧ l.stem = l'.stem
      ∧ l.digits = l'.digits := by
  rw [text, text] at h
  have h := (Text.append_inj_of_class l.isIndent l'.isIndent rfl rfl h).2
  have h := List.append_cancel_left h
  have h := (Text.append_inj_of_class l.isGap.2 l'.isGap.2 (l.head?_name _) (l'.head?_name _) h).2
  obtain ⟨hname, h⟩ := Text.append_inj_of_class (Text.forall_bne.mpr l.parenthesis_not_mem_name)
    (Text.forall_bne.mpr l'.parenthesis_not_mem_name) rfl rfl h
  exact ⟨method_eq_of_name hname, number_eq_of_ending (List.cons.inj h).2⟩

/-! ## The frame on a line -/

/-- Whether a line shows a frame: the frame has the names on the line and the number of 32 bits that
    is written there. -/
structure Shows (l : FrameLine) (f : StackFrame) : Prop where
  qualifier : l.qualifier = f.qualifier.toList
  method : l.method = f.method.toList
  file : l.file = f.file.toList
  number : Text.Writes l.digits f.line.toNat

theorem frame?_eq_some_iff {f : StackFrame} : l.frame? = some f ↔ l.Shows f := by
  constructor
  · intro h
    obtain ⟨number, hnumber, rfl⟩ := Option.map_eq_some_iff.mp h
    exact ⟨String.toList_ofList.symm, String.toList_ofList.symm, String.toList_ofList.symm,
      Text.writes_word32_of_readNat? l.isDigits.2 hnumber⟩
  · rintro ⟨hqualifier, hmethod, hfile, hnumber⟩
    rw [frame?, hnumber.readNat?_word32, Option.map_some, hqualifier, hmethod, hfile]
    simp only [String.ofList_toList, UInt32.ofNat_toNat]

/-- A number of more than 32 bits is none of a frame. -/
theorem frame?_eq_none {number : Nat} (hnumber : Text.Writes l.digits number)
    (hlarge : Text.maxWord32 < number) : l.frame? = none := by
  rw [frame?, hnumber.readNat?_eq, if_neg (Nat.not_le.mpr hlarge)]
  rfl

end FrameLine

/-! ## What is read from a line -/

namespace StackFrame

open Pattern

theorem spells_loader : loader.Spells fun text =>
    ∃ name, text = name ++ ['/'] ∧ ∀ c ∈ name, inLoader c = true := by
  refine (Spells.sequence_cons spells_run (spells_word "/")).congr fun text => ?_
  constructor
  · rintro ⟨name, _, rfl, hname, rfl⟩
    exact ⟨name, rfl, hname⟩
  · rintro ⟨name, rfl, hname⟩
    exact ⟨name, _, rfl, hname, rfl⟩

/-- The loaders on a line: none, one or two. -/
theorem spells_loaders : (opt (sequence [loader, opt loader])).Spells fun text =>
    ∃ loaders : List (List Char), text = FrameLine.slashed loaders ∧ loaders.length ≤ 2
      ∧ ∀ loader ∈ loaders, ∀ c ∈ loader, inLoader c = true := by
  have hopt := spells_loader.alt spells_empty
  refine ((spells_loader.seq hopt).alt spells_empty).congr fun text => ?_
  constructor
  · rintro (⟨_, _, rfl, ⟨first, rfl, hfirst⟩, ⟨second, rfl, hsecond⟩ | rfl⟩ | rfl)
    · refine ⟨[first, second], ?_, Nat.le_refl _, ?_⟩
      · rw [FrameLine.slashed, List.flatMap_cons, List.flatMap_singleton]
      · exact List.forall_mem_cons.mpr ⟨hfirst, List.forall_mem_singleton.mpr hsecond⟩
    · refine ⟨[first], ?_, Nat.le_succ 1, List.forall_mem_singleton.mpr hfirst⟩
      rw [FrameLine.slashed, List.flatMap_singleton, List.append_nil]
    · exact ⟨[], rfl, by decide, List.forall_mem_nil _⟩
  · rintro ⟨loaders, rfl, hlength, hloaders⟩
    match loaders, hlength, hloaders with
    | [], _, _ => exact Or.inr rfl
    | [first], _, hloaders =>
        refine Or.inl ⟨first ++ ['/'], [], ?_, ⟨first, rfl, ?_⟩, Or.inr rfl⟩
        · rw [FrameLine.slashed, List.flatMap_singleton, List.append_nil]
        · exact hloaders first List.mem_cons_self
    | [first, second], _, hloaders =>
        refine Or.inl ⟨first ++ ['/'], second ++ ['/'], ?_, ⟨first, rfl, ?_⟩,
          Or.inl ⟨second, rfl, ?_⟩⟩
        · rw [FrameLine.slashed, List.flatMap_cons, List.flatMap_singleton]
        · exact hloaders first List.mem_cons_self
        · exact hloaders second (List.mem_cons_of_mem _ List.mem_cons_self)

theorem spells_file : (sequence [oneOrMore inFile, word ".java"]).Spells fun text =>
    ∃ stem, text = stem ++ ".java".toList ∧ stem ≠ [] ∧ ∀ c ∈ stem, inFile c = true := by
  refine (Spells.sequence_cons spells_oneOrMore (spells_word ".java")).congr fun text => ?_
  constructor
  · rintro ⟨stem, _, rfl, hstem, rfl⟩
    exact ⟨stem, rfl, hstem⟩
  · rintro ⟨stem, rfl, hstem⟩
    exact ⟨stem, _, rfl, hstem, rfl⟩

/-- **What is matched** is a line with a frame, and its parts are kept. -/
theorem exists_of_matchAt? {a : Place} {m : Match} (h : pattern.matchAt? a = some m) :
    a.before = none ∧ ∃ l : FrameLine, a.rest = l.text ∧ m.group? 1 = some l.qualifier
      ∧ m.group? 2 = some l.method ∧ m.group? 3 = some l.file ∧ m.group? 4 = some l.digits := by
  rw [matchAt?_eq_thenTry, pattern, thenTry_sequence_cons, thenTry_textStart] at h
  obtain ⟨hstart, h⟩ := h
  obtain ⟨indent, rest, hrest, hindent, h⟩ := thenTry_sequence_of_spells rfl spells_blanks h
  obtain ⟨_, rest, rfl, rfl, h⟩ := thenTry_sequence_of_spells rfl (spells_word _) h
  obtain ⟨gap, rest, rfl, hgap, h⟩ := thenTry_sequence_of_spells rfl spells_blanks1 h
  obtain ⟨_, rest, rfl, ⟨loaders, rfl, hlength, hloaders⟩, h⟩ :=
    thenTry_sequence_of_spells rfl spells_loaders h
  obtain ⟨qualifier, rest, rfl, hqualifier, h⟩ :=
    thenTry_sequence_group_of_spells rfl spells_oneOrMore h
  obtain ⟨_, rest, rfl, rfl, h⟩ := thenTry_sequence_of_spells rfl (spells_word _) h
  obtain ⟨method, rest, rfl, hmethod, h⟩ :=
    thenTry_sequence_group_of_spells rfl spells_oneOrMore h
  obtain ⟨_, rest, rfl, rfl, h⟩ := thenTry_sequence_of_spells rfl (spells_word _) h
  obtain ⟨_, rest, rfl, ⟨stem, rfl, hstem⟩, h⟩ :=
    thenTry_sequence_group_of_spells rfl spells_file h
  obtain ⟨_, rest, rfl, rfl, h⟩ := thenTry_sequence_of_spells rfl (spells_word _) h
  obtain ⟨digits, rest, rfl, hdigits, h⟩ :=
    thenTry_sequence_group_of_spells rfl spells_oneOrMore h
  obtain ⟨_, rest, rfl, rfl, h⟩ := thenTry_sequence_of_spells rfl (spells_word _) h
  rw [Pattern.sequence, thenTry_empty] at h
  obtain rfl := Option.some.inj h
  refine ⟨hstart, {
    indent, gap, loaders, qualifier, method, stem, digits, rest
    isIndent := hindent
    isGap := hgap
    atMostTwo := hlength
    isLoader := hloaders
    isQualifier := hqualifier
    isMethod := hmethod
    isStem := hstem
    isDigits := hdigits }, ?_, ?_, ?_, ?_, ?_⟩
  · rw [hrest, FrameLine.text, FrameLine.name, FrameLine.ending, FrameLine.file]
    simp only [List.append_assoc]
    rfl
  · exact congrArg some (Span.text_past rfl)
  · exact congrArg some (Span.text_past rfl)
  · exact congrArg some (Span.text_past rfl)
  · exact congrArg some (Span.text_past rfl)

/-- A line with a frame is matched. -/
theorem matches_text (l : FrameLine) :
    ∃ z, pattern.Matches (Place.inText l.text 0) z := by
  have hqualifier : (Pattern.group 1 (oneOrMore inQualifier)).Spells _ := spells_oneOrMore
  have hmethod : (Pattern.group 2 (oneOrMore inMethod)).Spells _ := spells_oneOrMore
  have hfile : (Pattern.group 3 (sequence [oneOrMore inFile, word ".java"])).Spells _ := spells_file
  have hdigits : (Pattern.group 4 (oneOrMore Text.isDecimalDigit)).Spells _ := spells_oneOrMore
  have hspells := spells_blanks.sequence_cons <| (spells_word "at").sequence_cons <|
    spells_blanks1.sequence_cons <| spells_loaders.sequence_cons <| hqualifier.sequence_cons <|
    (spells_word ".").sequence_cons <| hmethod.sequence_cons <| (spells_word "(").sequence_cons <|
    hfile.sequence_cons <| (spells_word ":").sequence_cons <| hdigits.sequence_cons <|
    spells_word ")"
  refine ⟨_, matches_sequence_cons.mpr ⟨_, ⟨rfl, rfl⟩, (hspells _ _).mpr ⟨_, l.rest, ?_,
    ⟨l.indent, _, rfl, l.isIndent, _, _, rfl, rfl, l.gap, _, rfl, l.isGap,
      _, _, rfl, ⟨l.loaders, rfl, l.atMostTwo, l.isLoader⟩, l.qualifier, _, rfl, l.isQualifier,
      _, _, rfl, rfl, l.method, _, rfl, l.isMethod, _, _, rfl, rfl,
      l.file, _, rfl, ⟨l.stem, rfl, l.isStem⟩, _, _, rfl, rfl, l.digits, _, rfl, l.isDigits, rfl⟩,
    rfl⟩⟩⟩
  show l.text = _
  rw [FrameLine.text, FrameLine.name, FrameLine.ending]
  simp only [List.append_assoc]
  rfl

/-- **A line with a frame is read** part by part. -/
theorem find?_text (l : FrameLine) :
    ∃ m, pattern.find? l.text = some m ∧ m.group? 1 = some l.qualifier
      ∧ m.group? 2 = some l.method ∧ m.group? 3 = some l.file ∧ m.group? 4 = some l.digits := by
  have hleftmost : pattern.IsLeftmost l.text 0 :=
    ⟨⟨Nat.zero_le _, matches_text l⟩, fun earlier hlt => absurd hlt (Nat.not_lt_zero _)⟩
  obtain ⟨z, hz⟩ := matches_text l
  obtain ⟨m, hm⟩ := exists_matchAt?_of_matches hz
  obtain ⟨-, l', htext, hqualifier, hmethod, hfile, hdigits⟩ := exists_of_matchAt? hm
  obtain ⟨⟨hq, hn⟩, hs, hd⟩ := FrameLine.parts_eq_of_text (show l.text = l'.text from htext)
  refine ⟨m, find?_of_isLeftmost hleftmost hm, ?_⟩
  rw [FrameLine.file, hq, hn, hs, hd]
  exact ⟨hqualifier, hmethod, hfile, hdigits⟩

/-- What is found on a line is a line with a frame. -/
theorem exists_text_eq_of_find? {line : List Char} {m : Match} (h : pattern.find? line = some m) :
    ∃ l : FrameLine, line = l.text := by
  obtain ⟨position, hm, hleftmost⟩ := exists_leftmost_of_find? h
  obtain ⟨hstart, l, hrest, -⟩ := exists_of_matchAt? hm
  obtain rfl := start_of_inText hleftmost.1.1 hstart
  exact ⟨l, hrest⟩

/-- **The frame that is read** from a line with one. -/
theorem ofLine?_text (l : FrameLine) : ofLine? l.text = l.frame? := by
  obtain ⟨m, hm, hqualifier, hmethod, hfile, hdigits⟩ := find?_text l
  rw [ofLine?, hm]
  simp only [Option.bind_eq_bind, Option.bind_some, hqualifier, hmethod, hfile, hdigits]
  rw [FrameLine.frame?]
  cases Text.readNat? Text.maxWord32 l.digits <;> rfl

/-- **A frame is read** exactly from the lines that show it. -/
theorem ofLine?_eq_some_iff {line : List Char} {f : StackFrame} :
    ofLine? line = some f ↔ ∃ l : FrameLine, line = l.text ∧ l.Shows f := by
  constructor
  · intro h
    obtain ⟨m, hm, -⟩ := Option.bind_eq_some_iff.mp h
    obtain ⟨l, rfl⟩ := exists_text_eq_of_find? hm
    exact ⟨l, rfl, FrameLine.frame?_eq_some_iff.mp ((ofLine?_text l).symm.trans h)⟩
  · rintro ⟨l, rfl, h⟩
    rw [ofLine?_text, FrameLine.frame?_eq_some_iff.mpr h]

end StackFrame

end FailureTriage
