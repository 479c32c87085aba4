import FailureTriage.Failure.Location
import FailureTriage.Proofs.StackTrace.FrameLines

/-!
# Locations and frames

The place that a stack trace names first is read by a search on each line, the frames by a pattern
of the whole line.  The two agree: what is searched stands behind the first opening parenthesis of a
line with a frame.

* `FailureLocation.numbered`: a file name and digits in parentheses.
* `FailureLocation.find?_numbered`, `FailureLocation.namesPlace_of_ofLine?`: what is found on a line.
* `FailureLocation.ofLine?_frame`: the place on a line with a frame.
* `FailureLocation.readersAgree`: the place in a stack trace and its frames.
-/

namespace FailureTriage

namespace FailureLocation

open Pattern

/-! ## What is found on a line -/

/-- A file name and digits in parentheses, and what stands behind them. -/
def numbered (name digits rest : List Char) : List Char :=
  '(' :: (name ++ ':' :: (digits ++ ')' :: rest))

/-- Whether characters are the name of a file in a stack trace. -/
def IsFileName (name : List Char) : Prop :=
  name ≠ [] ∧ ∀ c ∈ name, inFileName c = true

/-- Whether characters are the digits of a number in a stack trace. -/
def IsNumber (digits : List Char) : Prop :=
  digits ≠ [] ∧ ∀ c ∈ digits, Text.isDecimalDigit c = true

variable {before name digits rest line : List Char}

/-- A name and digits in parentheses are read in one way only. -/
theorem numbered_inj {name' digits' rest' : List Char} (hname : IsFileName name)
    (hname' : IsFileName name') (hdigits : IsNumber digits) (hdigits' : IsNumber digits')
    (h : numbered name digits rest = numbered name' digits' rest') :
    name = name' ∧ digits = digits' := by
  obtain ⟨heq, h⟩ := Text.append_inj_of_class hname.2 hname'.2 rfl rfl (List.cons.inj h).2
  exact ⟨heq, (Text.append_inj_of_class hdigits.2 hdigits'.2 rfl rfl (List.cons.inj h).2).1⟩

/-- **What is matched** is a file name and digits in parentheses, which are kept. -/
theorem exists_of_matchAt? {a : Place} {m : Match} (h : pattern.matchAt? a = some m) :
    ∃ name digits rest, a.rest = numbered name digits rest ∧ IsFileName name ∧ IsNumber digits
      ∧ m.group? 1 = some name ∧ m.group? 2 = some digits := by
  rw [matchAt?_eq_thenTry, pattern] at h
  obtain ⟨_, rest, hrest, rfl, h⟩ := thenTry_sequence_of_spells rfl (spells_word _) h
  obtain ⟨name, rest, rfl, hname, h⟩ := thenTry_sequence_group_of_spells rfl spells_oneOrMore h
  obtain ⟨_, rest, rfl, rfl, h⟩ := thenTry_sequence_of_spells rfl (spells_word _) h
  obtain ⟨digits, rest, rfl, hdigits, h⟩ := thenTry_sequence_group_of_spells rfl spells_oneOrMore h
  obtain ⟨_, rest, rfl, rfl, h⟩ := thenTry_sequence_of_spells rfl (spells_word _) h
  rw [Pattern.sequence, thenTry_empty] at h
  obtain rfl := Option.some.inj h
  exact ⟨name, digits, rest, hrest, hname, hdigits, congrArg some (Span.text_past rfl),
    congrArg some (Span.text_past rfl)⟩

/-- A file name and digits in parentheses are matched. -/
theorem matches_numbered {a : Place} (hname : IsFileName name) (hdigits : IsNumber digits)
    (hrest : a.rest = numbered name digits rest) : ∃ z, pattern.Matches a z := by
  have hfile : (Pattern.group 1 (oneOrMore inFileName)).Spells _ := spells_oneOrMore
  have hnumber : (Pattern.group 2 (oneOrMore Text.isDecimalDigit)).Spells _ := spells_oneOrMore
  have hspells := (spells_word "(").sequence_cons <| hfile.sequence_cons <|
    (spells_word ":").sequence_cons <| hnumber.sequence_cons <| spells_word ")"
  refine ⟨_, (hspells a _).mpr ⟨_, rest, ?_,
    ⟨_, _, rfl, rfl, name, _, rfl, hname, _, _, rfl, rfl, digits, _, rfl, hdigits, rfl⟩, rfl⟩⟩
  rw [hrest, numbered]
  simp only [List.append_assoc]
  rfl

/-- A match starts with a parenthesis. -/
theorem startsIn_pattern : pattern.StartsIn (· = '(') := by
  have hstart : (word "(").StartsIn (· = '(') := startsIn_word (c := '(') rfl rfl
  exact hstart.sequence _

/-- **The first parenthesis of a line** is where a name and digits in parentheses are found. -/
theorem find?_numbered (hbefore : '(' ∉ before) (hname : IsFileName name)
    (hdigits : IsNumber digits) :
    ∃ m, pattern.find? (before ++ numbered name digits rest) = some m
      ∧ m.group? 1 = some name ∧ m.group? 2 = some digits := by
  obtain ⟨z, hz⟩ := matches_numbered
    (a := ⟨before.length, before.getLast?, numbered name digits rest⟩) hname hdigits rfl
  have hdone : ∀ c ∈ before, ¬ c = '(' := by
    intro c hc heq
    exact hbefore (heq ▸ hc)
  have hleftmost := startsIn_pattern.isLeftmost hdone hz
  obtain ⟨m, hm⟩ := exists_matchAt?_of_matches hz
  obtain ⟨name', digits', rest', htext, hname', hdigits', hfirst, hsecond⟩ := exists_of_matchAt? hm
  obtain ⟨rfl, rfl⟩ := numbered_inj hname hname' hdigits hdigits' htext
  exact ⟨m, find?_of_isLeftmost hleftmost (by rwa [inText_append]), hfirst, hsecond⟩

/-- A place is read from the first parenthesis of a line. -/
theorem ofLine?_numbered {number : UInt32} (hbefore : '(' ∉ before) (hname : IsFileName name)
    (hdigits : IsNumber digits) (hnumber : Text.Writes digits number.toNat) :
    ofLine? (before ++ numbered name digits rest) = some ⟨String.ofList name, number,
      String.ofList (Text.trim (before ++ numbered name digits rest))⟩ := by
  obtain ⟨m, hm, hfile, hline⟩ := @find?_numbered before name digits rest hbefore hname hdigits
  rw [ofLine?, hm]
  simp only [Option.bind_eq_bind, Option.bind_some, hfile, hline, hnumber.readNat?_word32,
    UInt32.ofNat_toNat]

/-- Whether a line holds a file name and a number of 32 bits in parentheses. -/
def NamesPlace (line : List Char) : Prop :=
  ∃ name digits, ∃ number : UInt32, IsFileName name ∧ Text.Writes digits number.toNat
    ∧ numbered name digits [] <:+: line

/-- A place is read only from a line that names one. -/
theorem namesPlace_of_ofLine? {location : FailureLocation} (h : ofLine? line = some location) :
    NamesPlace line := by
  obtain ⟨m, hm, h⟩ := Option.bind_eq_some_iff.mp h
  obtain ⟨file, hfile, h⟩ := Option.bind_eq_some_iff.mp h
  obtain ⟨text, htext, h⟩ := Option.bind_eq_some_iff.mp h
  obtain ⟨number, hnumber, -⟩ := Option.bind_eq_some_iff.mp h
  obtain ⟨position, hat, -⟩ := exists_leftmost_of_find? hm
  obtain ⟨name, digits, rest, hrest, hname, hdigits, hfirst, hsecond⟩ := exists_of_matchAt? hat
  obtain rfl := Option.some.inj (hsecond.symm.trans htext)
  refine ⟨name, digits, UInt32.ofNat number, hname,
    Text.writes_word32_of_readNat? hdigits.2 hnumber, line.take position, rest, ?_⟩
  have hdrop : line.drop position = numbered name digits rest := hrest
  calc line.take position ++ numbered name digits [] ++ rest
      = line.take position ++ numbered name digits rest := by
        simp only [numbered, List.append_assoc, List.cons_append, List.nil_append]
    _ = line := by rw [← hdrop, List.take_append_drop]

/-! ## Lines with frames -/

/-- A character of the file name of a frame may stand in the file name of a place. -/
theorem inFileName_of_inFile {c : Char} (h : StackFrame.inFile c = true) : inFileName c = true := by
  have hblank : Text.isBlank c = false := by
    rcases FrameLine.inFile_iff.mp h with hword | rfl
    · exact Text.isBlank_of_isWord hword
    · decide
  have hne : ∀ d, StackFrame.inFile d = false → (c == d) = false := by
    intro d hd
    rw [beq_eq_false_iff_ne]
    rintro rfl
    exact Bool.false_ne_true (hd.symm.trans h)
  rw [inFileName, hblank, hne '(' (by decide +kernel), hne ')' (by decide +kernel),
    hne ':' (by decide +kernel)]
  rfl

/-- The file name of a frame is one of a place. -/
theorem isFileName_file (l : FrameLine) : IsFileName l.file := by
  refine ⟨List.append_ne_nil_of_left_ne_nil l.isStem.1 _, ?_⟩
  intro c hc
  rcases List.mem_append.mp hc with hstem | hextension
  · exact inFileName_of_inFile (l.isStem.2 c hstem)
  · have hall : ".java".toList.all inFileName = true := by decide
    exact List.all_eq_true.mp hall c hextension

/-- What stands before the parenthesis on a line with a frame. -/
theorem exists_text_eq_numbered (l : FrameLine) :
    ∃ before, '(' ∉ before ∧ l.text = before ++ numbered l.file l.digits l.rest := by
  refine ⟨l.indent ++ ("at".toList ++ (l.gap ++ l.name)), ?_, ?_⟩
  · intro hmem
    have hblank : ¬ Text.isBlank '(' = true := by decide
    rcases List.mem_append.mp hmem with hmem | hmem
    · exact hblank (l.isIndent _ hmem)
    rcases List.mem_append.mp hmem with hmem | hmem
    · exact absurd hmem (by decide)
    rcases List.mem_append.mp hmem with hmem | hmem
    · exact hblank (l.isGap.2 _ hmem)
    · exact l.parenthesis_not_mem_name hmem
  · rw [FrameLine.text, FrameLine.ending, numbered]
    simp only [List.append_assoc]

/-- The place of a frame, with the line that shows it. -/
def ofFrame (f : StackFrame) (line : List Char) : FailureLocation where
  file := f.file
  line := f.line
  stackLine := String.ofList (Text.trim line)

/-- **The place on a line with a frame** is that of the frame. -/
theorem ofLine?_frame {f : StackFrame} (h : StackFrame.ofLine? line = some f) :
    ofLine? line = some (ofFrame f line) := by
  obtain ⟨l, rfl, hshows⟩ := StackFrame.ofLine?_eq_some_iff.mp h
  obtain ⟨before, hbefore, htext⟩ := exists_text_eq_numbered l
  rw [htext, ofLine?_numbered hbefore (isFileName_file l) l.isDigits hshows.number, hshows.file,
    String.ofList_toList, ofFrame]

/-! ## Stack traces with frames -/

/-- Whether a line is the first one of a stack trace that shows a frame. -/
structure ShowsFirst (trace : String) (before : List (List Char)) (line : List Char)
    (f : StackFrame) : Prop where
  stands : ∃ after, Text.lines trace.toList = before ++ line :: after
  shows : StackFrame.ofLine? line = some f
  first : ∀ earlier ∈ before, StackFrame.ofLine? earlier = none

variable {trace : String} {f : StackFrame}

/-- The first frame of a stack trace is shown by a line. -/
theorem head?_parseAll_iff : (StackFrame.parseAll trace).head? = some f
    ↔ ∃ before line, ShowsFirst trace before line f := by
  rw [StackFrame.parseAll, List.head?_filterMap, List.findSome?_eq_some_iff]
  constructor
  · rintro ⟨before, line, after, hlines, hshows, hfirst⟩
    exact ⟨before, line, ⟨after, hlines⟩, hshows, hfirst⟩
  · rintro ⟨before, line, ⟨after, hlines⟩, hshows, hfirst⟩
    exact ⟨before, line, after, hlines, hshows, hfirst⟩

/-- How the place in a stack trace and its frames are related. -/
structure ReadersAgree (trace : String) : Prop where
  /-- Where a frame is read, a place is found. -/
  located : StackFrame.parseAll trace ≠ [] → (ofStackTrace? trace).isSome = true
  /-- On a line of its own, the place of the frame is found. -/
  single : '\n' ∉ trace.toList → ∀ f ∈ StackFrame.parseAll trace,
    ofStackTrace? trace = some (ofFrame f trace.toList)
  /-- The first frame is the one on the first line that shows a frame. -/
  first : ∀ f, (StackFrame.parseAll trace).head? = some f
    ↔ ∃ before line, ShowsFirst trace before line f
  /-- The place of the first frame is found, unless a line before it names a place. -/
  whole : ∀ before line f, ShowsFirst trace before line f →
    (∀ earlier ∈ before, ¬ NamesPlace earlier) → ofStackTrace? trace = some (ofFrame f line)

theorem ofStackTrace?_of_not_mem (hfeed : '\n' ∉ trace.toList)
    (hf : f ∈ StackFrame.parseAll trace) :
    ofStackTrace? trace = some (ofFrame f trace.toList) := by
  obtain ⟨line, hline, hshows⟩ := List.mem_filterMap.mp hf
  have hne : trace.toList ≠ [] := by
    intro h
    rw [h, Text.lines_nil] at hline
    cases hline
  rw [ofStackTrace?]
  rw [Text.lines_of_not_mem hfeed hne] at hline ⊢
  obtain rfl := List.mem_singleton.mp hline
  exact List.findSome?_singleton.trans (ofLine?_frame hshows)

theorem ofStackTrace?_of_showsFirst {before : List (List Char)}
    (hfirst : ShowsFirst trace before line f)
    (hnone : ∀ earlier ∈ before, ¬ NamesPlace earlier) :
    ofStackTrace? trace = some (ofFrame f line) := by
  obtain ⟨after, hlines⟩ := hfirst.stands
  refine List.findSome?_eq_some_iff.mpr
    ⟨before, line, after, hlines, ofLine?_frame hfirst.shows, ?_⟩
  intro earlier hearlier
  refine Option.eq_none_iff_forall_ne_some.mpr ?_
  intro location hlocation
  exact hnone earlier hearlier (namesPlace_of_ofLine? hlocation)

/-- **The two readers of a stack trace agree** on where its first frame is. -/
theorem readersAgree (trace : String) : ReadersAgree trace where
  located := by
    intro hframes
    obtain ⟨f, hf⟩ := List.exists_mem_of_ne_nil _ hframes
    obtain ⟨line, hline, hshows⟩ := List.mem_filterMap.mp hf
    rw [ofStackTrace?, List.isSome_findSome?, List.any_eq_true]
    exact ⟨line, hline, Option.isSome_of_eq_some (ofLine?_frame hshows)⟩
  single hfeed _ := ofStackTrace?_of_not_mem hfeed
  first _ := head?_parseAll_iff
  whole _ _ _ := ofStackTrace?_of_showsFirst

/-- A stack trace with a message and a frame. -/
def thrown : String :=
  "java.lang.Error: no account\n\tat app//bank.Atm.pay(Atm.java:19)\n"

/-- The place of its one frame is found in a stack trace. -/
theorem readersAgree_thrown :
    ShowsFirst thrown ["java.lang.Error: no account".toList]
        "\tat app//bank.Atm.pay(Atm.java:19)".toList ⟨"bank.Atm", "pay", "Atm.java", 19⟩
      ∧ ofStackTrace? thrown = some ⟨"Atm.java", 19, "at app//bank.Atm.pay(Atm.java:19)"⟩ := by
  have hfirst : ShowsFirst thrown ["java.lang.Error: no account".toList]
      "\tat app//bank.Atm.pay(Atm.java:19)".toList ⟨"bank.Atm", "pay", "Atm.java", 19⟩ :=
    ⟨⟨[], by decide +kernel⟩, by decide +kernel, by decide +kernel⟩
  refine ⟨hfirst, ((readersAgree thrown).whole _ _ _ hfirst ?_).trans (by decide +kernel)⟩
  refine List.forall_mem_singleton.mpr ?_
  rintro ⟨name, digits, number, -, -, hpart⟩
  exact absurd (hpart.subset List.mem_cons_self) (by decide)

end FailureLocation

end FailureTriage
