import FailureTriage.Proofs.Markup.Sequence
import FailureTriage.Proofs.Markup.Tags
import FailureTriage.Suite.Document

/-!
# Reading a report on from a place

`ReportBuilder.resume` is what the reading of a report gives from some place in its text on.  Each
piece of markup at that place turns it into a reading from a later place, with one equation for
each sort of piece.

* `parseReport_eq_resume`: a whole document is read from its start.
* `resume_markup`, `resume_end`: the two ways to go on.
* `resume_text`: text that nobody collects is passed over.
-/

namespace FailureTriage

open Markup

namespace ReportBuilder

variable {file : Path} {b : ReportBuilder} {openNames : List (List Char)}

/-- What is made of a document whose events have all been read. -/
def finish (b : ReportBuilder) (wellFormed : Bool) : Except ReportFault (List TestSuite) :=
  if !wellFormed then .error .markup
  else if !b.opened.isEmpty then .error .unfinishedSuite
  else .ok b.closed.reverse

/-- The builder after some more events. -/
def stepAll (file : Path) (b : ReportBuilder) (events : List Event) :
    Except ReportFault ReportBuilder :=
  events.foldlM (step file) b

/-- What the reading of a report gives from a place in its text on. -/
def resume (file : Path) (b : ReportBuilder) (text : List Char) (openNames : List (List Char)) :
    Except ReportFault (List TestSuite) := do
  let read := eventsFrom text openNames
  let b ← b.stepAll file read.events
  b.finish read.wellFormed

theorem stepAll_append (first second : List Event) :
    b.stepAll file (first ++ second) = b.stepAll file first >>= fun b => b.stepAll file second := by
  rw [stepAll, List.foldlM_append]
  rfl

theorem stepAll_singleton (event : Event) : b.stepAll file [event] = b.step file event := by
  rw [stepAll, List.foldlM_cons]
  cases b.step file event <;> rfl

/-- **Where no markup is left**, the text that is left is the last event. -/
theorem resume_end {run : List Char} (h : '<' ∉ run) :
    b.resume file run openNames
      = b.stepAll file (textEvent? run).toList >>= fun b => b.finish true := by
  rw [resume, eventsFrom_end h]

/-- **The next piece of markup** comes after the text before it. -/
theorem resume_markup {run : List Char} (h : '<' ∉ run) (markup : List Char) :
    b.resume file (run ++ '<' :: markup) openNames
      = b.stepAll file (textEvent? run).toList >>= fun b =>
          match readMarkup markup openNames with
          | none => .error .markup
          | some s => b.stepAll file s.event.toList >>= fun b =>
              b.resume file s.rest s.openNames := by
  rw [resume, eventsFrom_markup h]
  cases readMarkup markup openNames with
  | none => rfl
  | some s =>
      show (b.stepAll file ((textEvent? run).toList ++ s.event.toList
        ++ (eventsFrom s.rest s.openNames).events) >>= _) = _
      rw [stepAll_append, stepAll_append, bind_assoc, bind_assoc]
      rfl

/-- A piece of markup right at the place. -/
theorem resume_piece {markup : List Char} {s : Step}
    (hread : readMarkup markup openNames = some s) :
    b.resume file ('<' :: markup) openNames
      = b.stepAll file s.event.toList >>= fun b => b.resume file s.rest s.openNames := by
  have h := @resume_markup file b openNames [] List.not_mem_nil markup
  rw [List.nil_append] at h
  rw [h, hread]
  rfl

/-! ## Tags and what stands between them -/

theorem resume_opening (tag : Tag) (text : List Char) :
    b.resume file (tag.opening ++ text) openNames
      = b.start file tag.name.text tag.attributeText >>= fun b =>
          b.resume file text (tag.name.text.toList :: openNames) := by
  rw [Tag.opening, List.cons_append, resume_piece (readMarkup_opening tag text openNames)]
  show (b.stepAll file [_] >>= _) = _
  rw [stepAll_singleton]
  rfl

theorem resume_selfClosed (tag : Tag) (text : List Char) :
    b.resume file (tag.selfClosed ++ text) openNames
      = b.selfClosed file tag.name.text tag.attributeText >>= fun b =>
          b.resume file text openNames := by
  rw [Tag.selfClosed, List.cons_append, resume_piece (readMarkup_selfClosed tag text openNames)]
  show (b.stepAll file [_] >>= _) = _
  rw [stepAll_singleton]
  rfl

theorem resume_closing (tag : Tag) (text : List Char) :
    b.resume file (tag.closing ++ text) (tag.name.text.toList :: openNames)
      = (b.close tag.name.text).resume file text openNames := by
  rw [Tag.closing, List.cons_append, List.cons_append,
    resume_piece (readMarkup_closing tag text openNames)]
  show (b.stepAll file [_] >>= _) = _
  rw [stepAll_singleton]
  rfl

theorem resume_section (s : Section) (text : List Char) :
    b.resume file (s.write ++ text) openNames
      = (b.addText s.text).resume file text openNames := by
  have hread := readMarkup_section s text openNames
  show b.resume file ('<' :: ("![CDATA[".toList ++ (s.text.toList ++ "]]>".toList) ++ text)) _ = _
  rw [resume_piece hread]
  show (b.stepAll file [_] >>= _) = _
  rw [stepAll_singleton]
  show ((b.addText (String.ofList s.text.toList)).resume file text openNames) = _
  rw [String.ofList_toList]

theorem resume_comment (c : Comment) (text : List Char) :
    b.resume file (c.write ++ text) openNames = b.resume file text openNames :=
  resume_piece (readMarkup_comment c text openNames)

theorem resume_instruction (i : Instruction) (text : List Char) :
    b.resume file (i.write ++ text) openNames = b.resume file text openNames :=
  resume_piece (readMarkup_instruction i text openNames)

/-! ## Text -/

theorem addText_empty : b.addText "" = b := by
  obtain ⟨closed, opened, testCase, pending, target⟩ := b
  cases target <;> cases pending <;> cases testCase <;> simp [addText]

theorem addText_append (first second : String) :
    (b.addText first).addText second = b.addText (first ++ second) := by
  obtain ⟨closed, opened, testCase, pending, target⟩ := b
  cases target <;> cases pending <;> cases testCase <;> simp [addText, String.append_assoc]

theorem addText_nowhere (h : b.target = .nowhere) (text : String) : b.addText text = b := by
  rw [addText, h]

/-- Escaped text is collected without the blanks at its ends. -/
theorem stepAll_escape (text : List Char) :
    b.stepAll file (textEvent? (escape text)).toList
      = .ok (b.addText (String.ofList (inner text))) := by
  have htrimmed : Text.dropEndWhile isBlank ((escape text).dropWhile isBlank)
      = escape (inner text) := inner_escape text
  rw [textEvent?, htrimmed]
  cases hin : inner text with
  | nil => exact congrArg Except.ok addText_empty.symm
  | cons c rest =>
      -- a character never vanishes when it is escaped
      have hne : (escape (c :: rest)).isEmpty = false := by
        rw [escape, List.flatMap_cons, List.isEmpty_eq_false_iff]
        intro hnil
        have hchar := unescape?_escapeChar c
        rw [(List.append_eq_nil_iff.mp hnil).1] at hchar
        cases hchar
      rw [hne]
      show b.stepAll file [_] = _
      rw [stepAll_singleton, step, unescape?_escape]

/-- A run of text that nobody collects only has to resolve its references. -/
private theorem stepAll_nowhere (h : b.target = .nowhere) (run : List Char) :
    b.stepAll file (textEvent? run).toList
      = if (unescape? run).isSome then .ok b else .error .attributeOrReference := by
  rw [← isSome_unescape?_inner, textEvent?]
  show b.stepAll file (if (inner run).isEmpty then none else some _).toList = _
  cases hin : (inner run).isEmpty with
  | true =>
      rw [List.isEmpty_iff.mp hin]
      rfl
  | false =>
      show b.stepAll file [_] = _
      rw [stepAll_singleton, step, ← Markup.inner]
      cases unescape? (inner run) with
      | none => rfl
      | some text => exact congrArg Except.ok (addText_nowhere h _)

private theorem splitRun (text : List Char) :
    ∃ run, '<' ∉ run ∧ (text = run ∨ ∃ markup, text = run ++ '<' :: markup) := by
  induction text with
  | nil => exact ⟨[], List.not_mem_nil, Or.inl rfl⟩
  | cons c text ih =>
      by_cases hc : c = '<'
      · exact ⟨[], List.not_mem_nil, Or.inr ⟨text, by rw [hc]; rfl⟩⟩
      · obtain ⟨run, hrun, htext⟩ := ih
        refine ⟨c :: run, ?_, ?_⟩
        · intro hmem
          rcases List.mem_cons.mp hmem with heq | hmem
          · exact hc heq.symm
          · exact hrun hmem
        · rcases htext with rfl | ⟨markup, rfl⟩
          · exact Or.inl rfl
          · exact Or.inr ⟨markup, rfl⟩

/-- **Text that nobody collects is passed over**, whatever follows it. -/
theorem resume_text (h : b.target = .nowhere) {text plain : List Char}
    (hplain : unescape? text = some plain) (hmarkup : '<' ∉ text) (rest : List Char) :
    b.resume file (text ++ rest) openNames = b.resume file rest openNames := by
  have hsome : ∀ run : List Char,
      (unescape? (text ++ run)).isSome = (unescape? run).isSome := by
    intro run
    rw [unescape?_append hplain, Option.isSome_map]
  -- the text and what stands before the next piece of markup are one run
  obtain ⟨run, hrun, hrest⟩ := splitRun rest
  have hboth : '<' ∉ text ++ run := by
    intro hmem
    rcases List.mem_append.mp hmem with hmem | hmem
    · exact hmarkup hmem
    · exact hrun hmem
  rcases hrest with rfl | ⟨markup, rfl⟩
  · rw [resume_end hboth, resume_end hrun, stepAll_nowhere h, stepAll_nowhere h, hsome]
  · rw [← List.append_assoc, resume_markup hboth, resume_markup hrun, stepAll_nowhere h,
      stepAll_nowhere h, hsome]

/-- Escaped text before a piece of markup is collected. -/
theorem resume_collected (text markup : List Char) :
    b.resume file (escape text ++ '<' :: markup) openNames
      = (b.addText (String.ofList (inner text))).resume file ('<' :: markup) openNames := by
  have hescape : '<' ∉ escape text := fun hmem => (ne_of_mem_escape hmem).1 rfl
  have hnil := @resume_markup file (b.addText (String.ofList (inner text))) openNames []
    List.not_mem_nil markup
  rw [List.nil_append] at hnil
  rw [resume_markup hescape, hnil, stepAll_escape]
  rfl

/-! ## The start of a document -/

/-- A byte order mark at the start of a document is not read. -/
private theorem events_cases (document : List Char) :
    (∃ text, document = '\uFEFF' :: text ∧ events document = eventsFrom text [])
      ∨ events document = eventsFrom document [] := by
  unfold events
  split
  · rename_i text
    exact Or.inl ⟨text, rfl, rfl⟩
  · exact Or.inr rfl

/-- **A document is read from its start**, with or without a byte order mark. -/
theorem parseReport_eq_resume (document : List Char) :
    parseReport file (String.ofList document) = resume file {} document [] := by
  have hread : parseReport file (String.ofList document)
      = (stepAll file {} (events document).events) >>= fun b =>
          b.finish (events document).wellFormed := by
    rw [parseReport, String.toList_ofList]
    rfl
  rcases events_cases document with ⟨text, rfl, hevents⟩ | hevents
  · -- left in its place, the mark would be text that nobody collects
    have hmark : unescape? ['\uFEFF'] = some ['\uFEFF'] := rfl
    have hpass := @resume_text file {} [] rfl _ _ hmark (by decide) text
    rw [List.singleton_append] at hpass
    rw [hread, hevents, hpass]
    rfl
  · rw [hread, hevents]
    rfl

end ReportBuilder

end FailureTriage
