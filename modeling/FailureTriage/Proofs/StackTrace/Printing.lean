import FailureTriage.Proofs.StackTrace.FrameLines
import FailureTriage.Proofs.Text.Trimming

/-!
# Printed stack traces

A stack trace that is printed line by line is read back: its frames are found in their order, and
nothing else is.  What stands on the other lines makes no difference, as long as they do not begin
like the line of a frame.

* `Text.OnLines`: the texts with given lines, whatever ends them.
* `StackFrame.Opens`: how every line with a frame begins.
* `StackFrame.Printed`: the lines of a printed trace.
* `StackFrame.parseAll_printed`: the frames that are read from a printed trace.
-/

namespace FailureTriage

namespace Text

/-- Whether a text has given lines: each ends at a line feed, with a carriage return before it or
    without, and the end may be missing behind the last one. -/
inductive OnLines : List (List Char) → List Char → Prop where
  | none : OnLines [] []
  | last {line : List Char} : '\n' ∉ line → line ≠ [] → OnLines [line] line
  | feed {line text : List Char} {lines : List (List Char)} :
      '\n' ∉ line → OnLines lines text → OnLines (line :: lines) (line ++ '\n' :: text)
  | carriage {line text : List Char} {lines : List (List Char)} :
      '\n' ∉ line → OnLines lines text → OnLines (line :: lines) (line ++ '\r' :: '\n' :: text)

/-- What is read of lines one by one is read of the text that has them, if a carriage return at the
    end of a line makes no difference. -/
theorem OnLines.filterMap_lines {β : Type} {f : List Char → Option β}
    (hcarriage : ∀ line, f (line ++ ['\r']) = f line) {given : List (List Char)}
    {text : List Char} (h : OnLines given text) :
    (lines text).filterMap f = given.filterMap f := by
  induction h with
  | none => rfl
  | last hfeed hne => rw [lines_of_not_mem hfeed hne]
  | @feed line text given hfeed _ ih =>
      obtain ⟨first, hlines, hfirst⟩ := lines_append hfeed text
      have hsame : f first = f line := by
        rcases hfirst with rfl | rfl
        · rfl
        · rw [hcarriage]
      rw [hlines, List.filterMap_cons, List.filterMap_cons, hsame, ih]
  | @carriage line text given hfeed _ ih =>
      have hfeed : '\n' ∉ line ++ ['\r'] := by
        rw [List.mem_append, not_or]
        exact ⟨hfeed, by decide⟩
      obtain ⟨first, hlines, hfirst⟩ := lines_append hfeed text
      have hsame : f first = f line := by
        rcases hfirst with hfirst | hfirst
        · rw [← hfirst, hcarriage]
        · rw [List.append_cancel_right hfirst]
      rw [List.append_cons, hlines, List.filterMap_cons, List.filterMap_cons, hsame, ih]

end Text

namespace FrameLine

/-- What stands on a line up to the closing parenthesis. -/
def core (l : FrameLine) : List Char :=
  l.indent ++ ("at".toList ++ (l.gap ++ (l.name ++ '(' :: (l.file ++ ':' :: l.digits))))

theorem text_eq_core (l : FrameLine) : l.text = l.core ++ ')' :: l.rest := by
  rw [text, core, ending]
  simp only [List.append_assoc, List.cons_append]

/-- The line with another rest behind its frame. -/
def withRest (l : FrameLine) (rest : List Char) : FrameLine :=
  { l with rest }

theorem text_withRest (l : FrameLine) (rest : List Char) :
    (l.withRest rest).text = l.core ++ ')' :: rest :=
  text_eq_core (l.withRest rest)

theorem Shows.withRest {l : FrameLine} {f : StackFrame} (h : l.Shows f) (rest : List Char) :
    (l.withRest rest).Shows f :=
  ⟨h.qualifier, h.method, h.file, h.number⟩

end FrameLine

namespace StackFrame

variable {line : List Char} {frames : List StackFrame} {lines : List (List Char)}

/-! ## Lines that are read alike -/

/-- A character at the end of a line belongs to the rest of the line, unless it is the parenthesis
    that closes the frame. -/
theorem ofLine?_concat {c : Char} (hc : c ≠ ')') (line : List Char) :
    ofLine? (line ++ [c]) = ofLine? line := by
  refine Option.ext fun f => ?_
  rw [ofLine?_eq_some_iff, ofLine?_eq_some_iff]
  constructor
  · rintro ⟨l, htext, hshows⟩
    rw [l.text_eq_core] at htext
    rcases List.eq_nil_or_concat l.rest with hrest | ⟨rest, d, hrest⟩
    · -- without a rest the line ends in the parenthesis
      rw [hrest] at htext
      exact absurd (List.head_eq_of_cons_eq (List.append_inj' htext rfl).2) hc
    · rw [hrest, List.concat_eq_append, ← List.cons_append, ← List.append_assoc] at htext
      refine ⟨l.withRest rest, ?_, hshows.withRest rest⟩
      rw [FrameLine.text_withRest]
      exact (List.append_inj' htext rfl).1
  · rintro ⟨l, rfl, hshows⟩
    refine ⟨l.withRest (l.rest ++ [c]), ?_, hshows.withRest _⟩
    rw [FrameLine.text_withRest, l.text_eq_core, List.append_assoc, List.cons_append]

/-- **A carriage return** at the end of a line makes no difference. -/
theorem ofLine?_carriage (line : List Char) : ofLine? (line ++ ['\r']) = ofLine? line :=
  ofLine?_concat (by decide) line

/-- Whether a line begins like one with a frame: with blanks, the word `at` and a blank. -/
def Opens (line : List Char) : Prop :=
  ∃ indent c rest, line = indent ++ ("at".toList ++ c :: rest)
    ∧ (∀ d ∈ indent, Text.isBlank d = true) ∧ Text.isBlank c = true

/-- How a line begins behind its blanks. -/
theorem opens_iff : Opens line ↔ (Text.trimStart line).take 2 = "at".toList
    ∧ (Text.trimStart line)[2]?.any Text.isBlank = true := by
  constructor
  · rintro ⟨indent, c, rest, rfl, hindent, hc⟩
    rw [Text.trimStart_padded hindent]
    exact ⟨rfl, hc⟩
  · rintro ⟨hword, hblank⟩
    cases hbehind : (Text.trimStart line)[2]? with
    | none =>
        rw [hbehind] at hblank
        cases hblank
    | some c =>
        rw [hbehind] at hblank
        obtain ⟨hlt, hc⟩ := List.getElem?_eq_some_iff.mp hbehind
        refine ⟨line.takeWhile Text.isBlank, c, (Text.trimStart line).drop 3, ?_,
          fun d hd => List.mem_takeWhile_imp hd, hblank⟩
        rw [← hc, ← List.drop_eq_getElem_cons hlt, ← hword, List.take_append_drop]
        exact List.takeWhile_append_dropWhile.symm

instance (line : List Char) : Decidable (Opens line) :=
  decidable_of_iff _ opens_iff.symm

/-- Every line with a frame begins like one. -/
theorem opens_text (l : FrameLine) : Opens l.text := by
  obtain ⟨c, gap, hgap⟩ := List.exists_cons_of_ne_nil l.isGap.1
  refine ⟨l.indent, c, gap ++ (l.name ++ '(' :: l.ending), ?_, l.isIndent,
    l.isGap.2 c (hgap ▸ List.mem_cons_self)⟩
  rw [FrameLine.text, hgap, List.cons_append]

theorem ofLine?_of_not_opens (h : ¬ Opens line) : ofLine? line = none := by
  refine Option.eq_none_iff_forall_ne_some.mpr fun f hf => ?_
  obtain ⟨l, rfl, -⟩ := ofLine?_eq_some_iff.mp hf
  exact h (opens_text l)

/-! ## Traces -/

/-- Whether lines are those of a printed trace with given frames: each frame stands on a line of its
    own, between lines with a number of more than 32 bits in the place of the number and lines that
    do not begin like one with a frame. -/
inductive Printed : List StackFrame → List (List Char) → Prop where
  | nil : Printed [] []
  | frame {l : FrameLine} {f : StackFrame} {frames : List StackFrame} {lines : List (List Char)} :
      l.Shows f → Printed frames lines → Printed (f :: frames) (l.text :: lines)
  | beyond {l : FrameLine} {number : Nat} {frames : List StackFrame} {lines : List (List Char)} :
      Text.Writes l.digits number → Text.maxWord32 < number → Printed frames lines →
        Printed frames (l.text :: lines)
  | other {line : List Char} {frames : List StackFrame} {lines : List (List Char)} :
      ¬ Opens line → Printed frames lines → Printed frames (line :: lines)

/-- The frames are read from the lines one by one. -/
theorem Printed.filterMap_eq (h : Printed frames lines) : lines.filterMap ofLine? = frames := by
  induction h with
  | nil => rfl
  | frame hshows _ ih =>
      have hread := ofLine?_eq_some_iff.mpr ⟨_, rfl, hshows⟩
      rw [List.filterMap_cons_some hread, ih]
  | beyond hnumber hlarge _ ih =>
      have hread := (ofLine?_text _).trans (FrameLine.frame?_eq_none hnumber hlarge)
      rw [List.filterMap_cons_none hread, ih]
  | other hnot _ ih => rw [List.filterMap_cons_none (ofLine?_of_not_opens hnot), ih]

/-- **A printed trace is read back**: exactly its frames are found, in their order. -/
theorem parseAll_printed {trace : String} (hframes : Printed frames lines)
    (htext : Text.OnLines lines trace.toList) : parseAll trace = frames := by
  rw [parseAll, htext.filterMap_lines ofLine?_carriage, hframes.filterMap_eq]

/-- A line with two loaders, the second one without a name, and the lambda of a constructor. -/
def loadedLine : FrameLine where
  indent := ['\t']
  gap := [' ', ' ']
  loaders := ["app".toList, []]
  qualifier := "com.bank.Atm$1".toList
  method := "lambda$<init>$0".toList
  stem := "Atm".toList
  digits := "19".toList
  rest := " [bank.jar]".toList
  isIndent := List.all_eq_true.mp (by decide +kernel)
  isGap := ⟨List.cons_ne_nil _ _, List.all_eq_true.mp (by decide +kernel)⟩
  atMostTwo := by decide
  isLoader := List.forall_mem_cons.mpr ⟨List.all_eq_true.mp (by decide +kernel),
    List.forall_mem_singleton.mpr (List.forall_mem_nil _)⟩
  isQualifier := ⟨List.cons_ne_nil _ _, List.all_eq_true.mp (by decide +kernel)⟩
  isMethod := ⟨List.cons_ne_nil _ _, List.all_eq_true.mp (by decide +kernel)⟩
  isStem := ⟨List.cons_ne_nil _ _, List.all_eq_true.mp (by decide +kernel)⟩
  isDigits := ⟨List.cons_ne_nil _ _, List.all_eq_true.mp (by decide +kernel)⟩

/-- A line whose number is the smallest one of more than 32 bits. -/
def largeLine : FrameLine :=
  { loadedLine with
    loaders := []
    atMostTwo := by decide
    isLoader := List.forall_mem_nil _
    digits := "4294967296".toList
    isDigits := ⟨List.cons_ne_nil _ _, List.all_eq_true.mp (by decide +kernel)⟩ }

/-- A trace with a message, a line with a frame and a line with a number that is too large. -/
def shortTrace : String :=
  "java.lang.Error: at 3\n\tat  app//com.bank.Atm$1.lambda$<init>$0(Atm.java:19) [bank.jar]\r\n"
    ++ "\tat  com.bank.Atm$1.lambda$<init>$0(Atm.java:4294967296) [bank.jar]"

/-- The one frame of a printed trace is found. -/
theorem parseAll_printed_loaded :
    Printed [⟨"com.bank.Atm$1", "lambda$<init>$0", "Atm.java", 19⟩]
        ["java.lang.Error: at 3".toList, loadedLine.text, largeLine.text]
      ∧ Text.OnLines ["java.lang.Error: at 3".toList, loadedLine.text, largeLine.text]
        shortTrace.toList
      ∧ parseAll shortTrace = [⟨"com.bank.Atm$1", "lambda$<init>$0", "Atm.java", 19⟩] := by
  have hlarge : Text.Writes largeLine.digits 4294967296 :=
    ⟨by decide, List.all_eq_true.mp (by decide), by decide⟩
  have hnumber : Text.Writes loadedLine.digits 19 :=
    ⟨by decide, List.all_eq_true.mp (by decide), by decide⟩
  have hframes : Printed [⟨"com.bank.Atm$1", "lambda$<init>$0", "Atm.java", 19⟩]
      ["java.lang.Error: at 3".toList, loadedLine.text, largeLine.text] :=
    .other (by decide +kernel) <| .frame ⟨rfl, rfl, rfl, hnumber⟩ <|
      .beyond hlarge (by decide) .nil
  have htrace : shortTrace.toList = "java.lang.Error: at 3".toList
      ++ '\n' :: (loadedLine.text ++ '\r' :: '\n' :: largeLine.text) := by decide +kernel
  have htext : Text.OnLines ["java.lang.Error: at 3".toList, loadedLine.text, largeLine.text]
      shortTrace.toList := by
    rw [htrace]
    exact .feed (by decide +kernel) <| .carriage (by decide +kernel) <|
      .last (by decide +kernel) (by decide +kernel)
  exact ⟨hframes, htext, parseAll_printed hframes htext⟩

end StackFrame

end FailureTriage
