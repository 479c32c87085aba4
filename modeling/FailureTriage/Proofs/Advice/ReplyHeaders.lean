import FailureTriage.Proofs.Advice.ReplyParts

/-!
# Headers and directives

Which section a row of a reply opens, and when a row that starts with a key is followed as a
directive.  A header goes before a directive, and the name of a section counts wherever it stands
in a row.  Of several sections the one that stands first in the table decides, not the one that
stands first in the row, and of several marks of one section the first bold one.

* `Decides`, `IsHeaderOf`: the mark that makes a line a header, and the text behind it.
* `header?_eq_some_iff`: the section that a line opens.
* `Enters`, `Obeys`: what a header changes, and what a directive changes.
* `parse_header`, `parse_directive`: what a row does in the middle of any reply.
-/

namespace FailureTriage.Reply

variable {row line mark text : List Char} {before after : List (List Char)} {key : String}
  {opened : Section} {position : Nat} {p : Progress}

/-! ## The table of the sections -/

/-- The name of a section. -/
def Section.name : Section → List Char
  | .rootCause => "ROOT CAUSE".toList
  | .fixes => "EXACT FIXES".toList
  | .verification => "VERIFICATION".toList
  | .notes => "ADDITIONAL NOTES".toList

/-- The sections that are looked for before another one. -/
def Section.earlier : Section → List Section
  | .rootCause => []
  | .fixes => [.rootCause]
  | .verification => [.rootCause, .fixes]
  | .notes => [.rootCause, .fixes, .verification]

/-- The row of a section in the table. -/
def Section.entry (s : Section) : List Char × Section :=
  (s.name, s)

theorem sections_eq (s : Section) :
    ∃ later, sections = s.earlier.map Section.entry ++ s.entry :: later := by
  cases s <;> exact ⟨_, rfl⟩

/-- Of two sections one is looked for before the other. -/
theorem Section.eq_or_earlier (s opened : Section) :
    s = opened ∨ s ∈ opened.earlier ∨ opened ∈ s.earlier := by
  cases s <;> cases opened <;> simp [earlier]

/-- The rows before a row of the table are those of the earlier sections. -/
theorem eq_entry_of_sections {entry : List Char × Section}
    {front back : List (List Char × Section)} (h : sections = front ++ entry :: back) :
    entry = entry.2.entry ∧ front = entry.2.earlier.map Section.entry := by
  have hmem : entry ∈ sections := h ▸ List.mem_append_right front List.mem_cons_self
  have hentry : entry = entry.2.entry := by
    simp only [sections, List.mem_cons, List.not_mem_nil, or_false] at hmem
    rcases hmem with rfl | rfl | rfl | rfl <;> rfl
  obtain ⟨later, hsections⟩ := sections_eq entry.2
  rw [← hentry] at hsections
  have hnodup : (front ++ entry :: back).Nodup := h ▸ by decide +kernel
  have hfront : entry ∉ front := fun hin =>
    (List.nodup_append.mp hnodup).2.2 entry hin entry List.mem_cons_self rfl
  have hback : entry ∉ back := (List.nodup_cons.mp (List.nodup_append.mp hnodup).2.1).1
  exact ⟨hentry, ((List.append_cons_inj_of_notMem hfront hback).mp (h.symm.trans hsections)).1⟩

/-! ## The mark that decides -/

/-- A bold mark of a section: its name behind two asterisks. -/
def boldMark (name : List Char) : List Char :=
  '*' :: '*' :: name

/-- A plain mark of a section: its name before a colon. -/
def colonMark (name : List Char) : List Char :=
  name ++ [':']

/-- Whether a mark of a name starts after so many characters of a line, and makes the line a header
    of that name: the first bold mark does, or else the first mark with a colon. -/
inductive Decides (name line : List Char) : List Char → Nat → Prop where
  | bold {position : Nat} :
      Text.FirstAt (boldMark name) line position → Decides name line (boldMark name) position
  | colon {position : Nat} :
      ¬ boldMark name <:+: line → Text.FirstAt (colonMark name) line position →
        Decides name line (colonMark name) position

/-- All the text behind a mark that starts after so many characters of a line, without the
    asterisks, colons and blanks that belong to the header and without blanks at its end. -/
def textBehind (mark line : List Char) (position : Nat) : List Char :=
  Text.trim ((line.drop (position + mark.length)).dropWhile
    fun c => c == '*' || c == ':' || Text.isBlank c)

/-- Whether a line is the header of a section with some text: it shows no section that stands
    earlier in the table, and the text is what stands behind the mark that decides. -/
structure IsHeaderOf (line : List Char) (opened : Section) (text : List Char) : Prop where
  earlier : ∀ s ∈ opened.earlier, Unmarked [s.name] line
  behind : ∃ mark position, Decides opened.name line mark position
    ∧ text = textBehind mark line position

/-- A line shows the name that decides about it. -/
theorem Decides.shown {name : List Char} (h : Decides name line mark position) :
    ¬ Unmarked [name] line := by
  rw [Unmarked, List.flatMap_singleton]
  intro hunmarked
  cases h with
  | bold hfirst => exact hunmarked _ List.mem_cons_self hfirst.1.occurs
  | colon _ hfirst =>
      exact hunmarked _ (List.mem_cons_of_mem _ List.mem_cons_self) hfirst.1.occurs

/-- One mark of a name decides at most. -/
theorem Decides.unique {name other : List Char} {place : Nat} (h : Decides name line mark position)
    (hother : Decides name line other place) : mark = other ∧ position = place := by
  cases h with
  | bold hfirst =>
      cases hother with
      | bold hsecond => exact ⟨rfl, hfirst.unique hsecond⟩
      | colon hnone => exact absurd hfirst.1.occurs hnone
  | colon hnone hfirst =>
      cases hother with
      | bold hsecond => exact absurd hsecond.1.occurs hnone
      | colon _ hsecond => exact ⟨rfl, hfirst.unique hsecond⟩

/-- What follows the header of a name stands behind the mark that decides. -/
theorem exists_decides {name rest : List Char} (h : afterHeader? name line = some rest) :
    ∃ mark position, Decides name line mark position
      ∧ rest = line.drop (position + mark.length) := by
  rw [afterHeader?] at h
  cases hbold : Text.splitAtFirst? ('*' :: '*' :: name) line with
  | some cut =>
      rw [hbold] at h
      obtain ⟨hfirst, hrest⟩ := Text.firstAt_of_splitAtFirst? hbold
      exact ⟨_, _, .bold hfirst, (Option.some.inj h) ▸ hrest⟩
  | none =>
      rw [hbold] at h
      obtain ⟨⟨start, tail⟩, hcolon, rfl⟩ := Option.map_eq_some_iff.mp h
      obtain ⟨hfirst, hrest⟩ := Text.firstAt_of_splitAtFirst? hcolon
      exact ⟨_, _, .colon (Text.splitAtFirst?_eq_none.mp hbold) hfirst, hrest⟩

theorem Decides.afterHeader?_eq {name : List Char} (h : Decides name line mark position) :
    afterHeader? name line = some (line.drop (position + mark.length)) := by
  cases hafter : afterHeader? name line with
  | none => exact absurd (unmarked_of_afterHeader? hafter) h.shown
  | some rest =>
      obtain ⟨other, place, hdecides, hrest⟩ := exists_decides hafter
      obtain ⟨rfl, rfl⟩ := h.unique hdecides
      rw [hrest]

/-- **A line opens a section** exactly if it is a header of it. -/
theorem header?_eq_some_iff : header? line = some (opened, text) ↔ IsHeaderOf line opened text := by
  constructor
  · intro h
    obtain ⟨front, entry, back, hsections, hfound, hnone⟩ := List.findSome?_eq_some_iff.mp h
    obtain ⟨rest, hafter, heq⟩ := Option.map_eq_some_iff.mp hfound
    obtain ⟨hentry, rfl⟩ := eq_entry_of_sections hsections
    obtain ⟨hopened, rfl⟩ := Prod.mk.inj heq
    rw [hentry, hopened] at hafter
    rw [hopened] at hnone
    obtain ⟨mark, position, hdecides, rfl⟩ := exists_decides hafter
    refine ⟨fun s hs => unmarked_of_afterHeader? ?_, mark, position, hdecides, rfl⟩
    exact Option.map_eq_none_iff.mp (hnone s.entry (List.mem_map_of_mem hs))
  · rintro ⟨hearlier, mark, position, hdecides, rfl⟩
    obtain ⟨later, hsections⟩ := sections_eq opened
    have hunmarked : Unmarked ((opened.earlier.map Section.entry).map Prod.fst) line :=
      unmarked_map_iff.mpr (List.forall_mem_map.mpr hearlier)
    rw [header?, hsections, List.findSome?_append,
      findSome?_eq_none_of_unmarked hunmarked fun _ hnone => congrArg (Option.map _) hnone,
      Option.none_or]
    simp only [List.findSome?_cons, Section.entry, hdecides.afterHeader?_eq, Option.map_some,
      textBehind]

/-- A line that shows a name is the header of some section. -/
theorem exists_isHeaderOf (h : ¬ Unmarked sectionNames line) :
    ∃ opened text, header? line = some (opened, text) ∧ IsHeaderOf line opened text := by
  cases hheader : header? line with
  | none => exact absurd (header?_eq_none_iff.mp hheader) h
  | some found => exact ⟨found.1, found.2, rfl, header?_eq_some_iff.mp hheader⟩

/-- Whether a mark of a section starts after so many characters of a line, and no mark of any
    section starts before it. -/
structure Leads (s : Section) (mark line : List Char) (position : Nat) : Prop where
  mark_mem : mark ∈ marks s.name
  starts : Text.StartsAt mark line position
  first : ∀ other ∈ sectionNames.flatMap marks, ∀ earlier < position,
    ¬ Text.StartsAt other line earlier

/-- **The section that leads** a line is opened by it exactly if no earlier section is shown. -/
theorem IsHeaderOf.eq_iff_of_leads {s : Section} (h : IsHeaderOf line opened text)
    (hleads : Leads s mark line position) :
    opened = s ↔ ∀ e ∈ s.earlier, Unmarked [e.name] line := by
  constructor
  · rintro rfl
    exact h.earlier
  · intro hearlier
    rcases s.eq_or_earlier opened with rfl | hs | hopened
    · rfl
    · -- the opened section is looked for later, and only if this one is not shown
      refine absurd hleads.starts.occurs (h.earlier s hs mark ?_)
      rw [List.flatMap_singleton]
      exact hleads.mark_mem
    · obtain ⟨_, _, hdecides, -⟩ := h.behind
      exact absurd (hearlier opened hopened) hdecides.shown

/-! ## A row in the middle of a reply -/

/-- Whether a header is entered: its section is open, its text is the last one of that section, and
    nothing else is changed. -/
structure Enters (opened : Section) (text : List Char) (p next : Progress) : Prop where
  openSection : next.openSection = some opened
  texts : ∀ s, s ≠ .fixes →
    next.textsOf s = (if s = opened ∧ text ≠ [] then [text] else []) ++ p.textsOf s
  fixes : next.fixes = p.fixes

/-- A fix with the field of a key changed to a value. -/
def setField (key : String) (value : List Char) (fix : SuggestedFix) : SuggestedFix :=
  if key = "LINE:" then { fix with line := some (lineRef value) }
  else if key = "REPLACE:" then { fix with currentCode := some (String.ofList value) }
  else { fix with fixedCode := some (String.ofList value) }

/-- Whether a directive is followed: a file starts a fix, any other key changes its field of the
    current fix, if there is one, and the sections stay as they were. -/
structure Obeys (key : String) (value : List Char) (p next : Progress) : Prop where
  openSection : next.openSection = p.openSection
  texts : ∀ s, next.textsOf s = p.textsOf s
  fixes : next.fixes =
    if key = "FILE:" then { filePath := String.ofList value } :: p.fixes
    else p.fixes.modifyHead (setField key value)

theorem enters_step (h : header? (Text.trim row) = some (opened, text)) :
    Enters opened text p (p.step (Line.ofText row)) := by
  have hline : Line.ofText row = .header opened text := by
    rw [Line.ofText, h]
  rw [hline, Progress.step]
  refine ⟨Progress.openSection_addText _ _, fun s hs => ?_, Progress.fixes_addText _ _⟩
  rw [Progress.textsOf_addText hs]
  cases s <;> simp [Progress.textsOf, eq_comm]

theorem obeys_changeLast {value : List Char} (hkey : key ≠ "FILE:") (p : Progress) :
    Obeys key value p (p.changeLast (setField key value)) where
  openSection := p.openSection_changeLast _
  texts s := Progress.textsOf_changeLast s p _
  fixes := by
    rw [if_neg hkey, Progress.changeLast]
    cases hfixes : p.fixes <;> simp [hfixes]

/-- **A row with a value** for a key is followed as that directive. -/
theorem obeys_step {value : List Char} (h : rowValue? key row = some value) (hkey : key ∈ keys) :
    Obeys key value p (p.step (Line.ofText row)) := by
  have hsame : ∀ other ∈ keys, ∀ found, rowValue? other row = some found →
      other = key ∧ found = value := by
    intro other hother found hfound
    by_cases hne : other = key
    · subst hne
      exact ⟨rfl, Option.some.inj (hfound.symm.trans h)⟩
    · rw [rowValue?_unique h hkey hother hne] at hfound
      cases hfound
  have hmeans := means_ofText row
  generalize Line.ofText row = line at hmeans
  cases hmeans with
  | header hheader => exact nomatch hheader.symm.trans (header?_of_rowValue? h)
  | file hfound =>
      obtain ⟨rfl, rfl⟩ := hsame _ (by decide) _ hfound
      exact ⟨rfl, fun s => by cases s <;> rfl, rfl⟩
  | line hfound =>
      obtain ⟨rfl, rfl⟩ := hsame _ (by decide) _ hfound
      exact obeys_changeLast (by decide) p
  | replace hfound =>
      obtain ⟨rfl, rfl⟩ := hsame _ (by decide) _ hfound
      exact obeys_changeLast (by decide) p
  | replacement hfound =>
      obtain ⟨rfl, rfl⟩ := hsame _ (by decide) _ hfound
      exact obeys_changeLast (by decide) p
  | plain _ hplain => exact absurd ⟨key, hkey, Option.isSome_of_mem h⟩ hplain

theorem readRows_concat (rows : List (List Char)) (row : List Char) :
    readRows (rows ++ [row]) {} = (readRows rows {}).step (Line.ofText row) := by
  rw [readRows, List.map_append, List.foldl_append]
  rfl

/-- A reply is read up to a row, and from there on. -/
theorem parse_eq_report_after {reply : String}
    (hrows : Text.lines reply.toList = before ++ row :: after) (now : String)
    (summary : ErrorSummary) (model : String) :
    parse now reply summary model
      = (readRows after (readRows (before ++ [row]) {})).report now reply summary model := by
  rw [parse_eq_report, hrows, List.append_cons]
  congr 1
  rw [readRows, List.map_append, List.foldl_append]
  rfl

/-- **A header** opens the first section of the table that it shows, wherever the marks start in
    the line, and all the text behind the mark that decides goes to that section. -/
theorem parse_header :
    (∀ line, ¬ Unmarked sectionNames line →
      ∃ opened text, header? line = some (opened, text) ∧ IsHeaderOf line opened text
        ∧ ∀ s mark position, Leads s mark line position →
          (opened = s ↔ ∀ e ∈ s.earlier, Unmarked [e.name] line))
    ∧ ∀ (now reply : String) (summary : ErrorSummary) (model : String)
        (before : List (List Char)) (row : List Char) (after : List (List Char))
        (opened : Section) (text : List Char),
      Text.lines reply.toList = before ++ row :: after → IsHeaderOf (Text.trim row) opened text →
        let next := readRows (before ++ [row]) {}
        Enters opened text (readRows before {}) next
        ∧ parse now reply summary model = (readRows after next).report now reply summary model := by
  constructor
  · intro line hshown
    obtain ⟨opened, text, hheader, hof⟩ := exists_isHeaderOf hshown
    exact ⟨opened, text, hheader, hof, fun s mark position => hof.eq_iff_of_leads⟩
  · intro now reply summary model before row after opened text hrows hof next
    have hnext : next = (readRows before {}).step (Line.ofText row) := readRows_concat before row
    exact ⟨hnext ▸ enters_step (header?_eq_some_iff.mpr hof),
      parse_eq_report_after hrows now summary model⟩

/-- The summary of a run without tests. -/
def noTests : ErrorSummary where
  metadata := ⟨"", ⟨"reports"⟩, 0⟩
  totals := ⟨0, 0, 0, 0, 0.0, 0, 0.0⟩
  suites := []

/-- A line that starts with the verification and has a bold root cause behind it. -/
theorem parse_header_boldName :
    let row := "VERIFICATION: see **ROOT CAUSE**: lost".toList
    let reply := "VERIFICATION: see **ROOT CAUSE**: lost\nFILE: A.java"
    (¬ Unmarked sectionNames row
      ∧ ∃ opened text, header? row = some (opened, text) ∧ IsHeaderOf row opened text
        ∧ ∀ s mark position, Leads s mark row position →
          (opened = s ↔ ∀ e ∈ s.earlier, Unmarked [e.name] row))
    ∧ Text.lines reply.toList = [] ++ row :: ["FILE: A.java".toList]
    ∧ IsHeaderOf (Text.trim row) .rootCause "lost".toList
    ∧ let next := readRows ([] ++ [row]) {}
      Enters .rootCause "lost".toList (readRows [] {}) next
      ∧ parse "" reply noTests ""
        = (readRows ["FILE: A.java".toList] next).report "" reply noTests "" := by
  intro row reply
  have hshown : ¬ Unmarked sectionNames row := by decide +kernel
  have hrows : Text.lines reply.toList = [] ++ row :: ["FILE: A.java".toList] := by decide +kernel
  have hof : IsHeaderOf (Text.trim row) .rootCause "lost".toList :=
    header?_eq_some_iff.mp (by decide +kernel)
  exact ⟨⟨hshown, parse_header.1 row hshown⟩, hrows, hof,
    parse_header.2 "" reply noTests "" _ _ _ _ _ hrows hof⟩

/-- A header that names a second section: the verification leads the line, and the root cause,
    which stands earlier in the table, gets the text behind its own name. -/
theorem verification_headed_rootCause :
    let reply := "FILE: A.java\n**VERIFICATION**: check that the ROOT CAUSE: is gone"
    let line := "**VERIFICATION**: check that the ROOT CAUSE: is gone".toList
    Text.lines reply.toList = ["FILE: A.java".toList, line]
    ∧ Leads .verification (boldMark Section.verification.name) line 0
    ∧ header? line = some (.rootCause, "is gone".toList)
    ∧ (parse "" reply noTests "").fixes = [{
        filePath := "A.java"
        rootCause := "is gone"
        verification := "Run the test to verify the fix" }] := by
  intro reply line
  refine ⟨by decide +kernel, ⟨List.mem_cons_self, by decide +kernel, fun _ _ _ => nofun⟩, ?_, ?_⟩
  · decide +kernel
  · decide +kernel

/-- **A row that starts with a key** is followed as that directive exactly if it shows the name of
    no section; if it shows one, it is a header, and no fix is started or changed. -/
theorem parse_directive {reply : String}
    (hrows : Text.lines reply.toList = before ++ row :: after) (hkey : key ∈ keys)
    (hstart : key.toList <+: Text.trim row) (now : String) (summary : ErrorSummary)
    (model : String) :
    let next := readRows (before ++ [row]) {}
    parse now reply summary model = (readRows after next).report now reply summary model
    ∧ (¬ IsHeader row →
        ∃ value, directive? key.toList (Text.trim row) = some value
          ∧ Obeys key value (readRows before {}) next)
    ∧ (IsHeader row →
        ∃ opened text, IsHeaderOf (Text.trim row) opened text
          ∧ Enters opened text (readRows before {}) next) := by
  intro next
  have hnext : next = (readRows before {}).step (Line.ofText row) := readRows_concat before row
  refine ⟨parse_eq_report_after hrows now summary model, fun hplain => ?_, fun hheader => ?_⟩
  · obtain ⟨value, hvalue⟩ := Option.isSome_iff_exists.mp (isSome_directive?_iff.mpr hstart)
    have hrow : rowValue? key row = some value := (if_neg hplain).trans hvalue
    exact ⟨value, hvalue, hnext ▸ obeys_step hrow hkey⟩
  · obtain ⟨opened, text, hfound, hof⟩ := exists_isHeaderOf hheader
    exact ⟨opened, text, hof, hnext ▸ enters_step hfound⟩

/-- An indented line number, and code that says nothing of a section. -/
theorem parse_directive_lineNumber :
    let reply := "FILE: A.java\n  LINE: 7\nREPLACE: go();"
    let row := "  LINE: 7".toList
    Text.lines reply.toList = ["FILE: A.java".toList] ++ row :: ["REPLACE: go();".toList]
    ∧ "LINE:" ∈ keys ∧ "LINE:".toList <+: Text.trim row ∧ ¬ IsHeader row
    ∧ let next := readRows (["FILE: A.java".toList] ++ [row]) {}
      parse "" reply noTests ""
        = (readRows ["REPLACE: go();".toList] next).report "" reply noTests ""
      ∧ ∃ value, directive? "LINE:".toList (Text.trim row) = some value
        ∧ Obeys "LINE:" value (readRows ["FILE: A.java".toList] {}) next := by
  intro reply row
  have hrows : Text.lines reply.toList
      = ["FILE: A.java".toList] ++ row :: ["REPLACE: go();".toList] := by decide +kernel
  have hkey : "LINE:" ∈ keys := by decide
  have hstart : "LINE:".toList <+: Text.trim row := by decide +kernel
  have hplain : ¬ IsHeader row := by decide +kernel
  obtain ⟨hreport, hobeyed, -⟩ := parse_directive hrows hkey hstart "" noTests ""
  exact ⟨hrows, hkey, hstart, hplain, hreport, hobeyed hplain⟩

/-- A log text that names a section: no code is to be replaced, and the rest of the row is taken
    for the way to verify the fix. -/
theorem replacement_lost_logText :
    let reply := "FILE: A.java\nREPLACE: log(\"VERIFICATION: failed\");\nWITH: log(text);"
    let row := "REPLACE: log(\"VERIFICATION: failed\");".toList
    Text.lines reply.toList = ["FILE: A.java".toList, row, "WITH: log(text);".toList]
    ∧ "REPLACE:".toList <+: Text.trim row
    ∧ (readRows ["FILE: A.java".toList] {}).openSection = none
    ∧ (readRows ["FILE: A.java".toList, row] {}).openSection = some .verification
    ∧ (parse "" reply noTests "").fixes = [{
        filePath := "A.java"
        currentCode := none
        fixedCode := some "log(text);"
        rootCause := "See AI response for details"
        verification := "failed\");" }] := by
  decide +kernel

end FailureTriage.Reply
