import FailureTriage.Proofs.Advice.ReplyFormat
import Mathlib.Data.List.Induction

/-!
# The parts of a reply

Any text is read as a reply.  A row that names a file starts a part, which ends before the next
such row.  A part is one fix, and the last of its rows with a key gives the value for that key.
The texts of a section come from all rows, wherever the parts start and end.

* `IsHeader`, `NamesFile`, `rowValue?`: what a row says, told from what it shows, and
  `rowValue?_eq_some_iff`: the value that it gives for a key.
* `Divided`: the parts of a list of rows, and the orphans before them.
* `sectionTexts`: the texts that the rows assign to a section.
* `Reads`: what has been read after some rows; `Reads.concat` is one row more.
* `parse_divided`: the report of any reply, part by part.
-/

namespace FailureTriage.Reply

variable {row : List Char} {rows orphans : List (List Char)} {key other : String} {p : Progress}

/-! ## Rows -/

/-- Whether a row is the header of a section: it shows the name of one, in one of the two ways. -/
def IsHeader (row : List Char) : Prop :=
  ¬ Unmarked sectionNames (Text.trim row)

/-- Whether a row names a file. -/
def NamesFile (row : List Char) : Prop :=
  ¬ IsHeader row ∧ "FILE:".toList <+: Text.trim row

instance : Decidable (IsHeader row) :=
  inferInstanceAs (Decidable (¬ _))

instance : Decidable (NamesFile row) :=
  inferInstanceAs (Decidable (_ ∧ _))

/-- The keys of directives. -/
def keys : List String :=
  ["FILE:", "LINE:", "REPLACE:", "WITH:"]

/-- The value that a row gives for a key, unless it is a header. -/
def rowValue? (key : String) (row : List Char) : Option (List Char) :=
  if IsHeader row then none else directive? key.toList (Text.trim row)

/-- Whether a row is a directive. -/
def IsDirective (row : List Char) : Prop :=
  ∃ key ∈ keys, (rowValue? key row).isSome = true

instance : Decidable (IsDirective row) :=
  inferInstanceAs (Decidable (∃ key ∈ keys, _))

/-- A line with no header of a name does not show that name. -/
theorem unmarked_of_afterHeader? {name line : List Char} (h : afterHeader? name line = none) :
    Unmarked [name] line := by
  rw [afterHeader?] at h
  split at h
  · cases h
  · rename_i hbold
    have hcolon := Option.map_eq_none_iff.mp h
    rw [Text.splitAtFirst?_eq_none] at hbold hcolon
    intro mark hmark
    rw [List.flatMap_singleton] at hmark
    rcases List.mem_cons.mp hmark with rfl | hmark
    · exact hbold
    · rw [List.mem_singleton.mp hmark]
      exact hcolon

/-- A line shows none of several names if it shows no single one. -/
theorem unmarked_map_iff {named : List (List Char × Section)} {line : List Char} :
    Unmarked (named.map Prod.fst) line ↔ ∀ s ∈ named, Unmarked [s.1] line := by
  constructor
  · intro h s hs mark hmark
    rw [List.flatMap_singleton] at hmark
    exact h mark (List.mem_flatMap.mpr ⟨s.1, List.mem_map_of_mem hs, hmark⟩)
  · intro h mark hmark
    obtain ⟨name, hname, hmark⟩ := List.mem_flatMap.mp hmark
    obtain ⟨s, hs, rfl⟩ := List.mem_map.mp hname
    refine h s hs mark ?_
    rwa [List.flatMap_singleton]

/-- A line opens no section exactly if it shows no name of one. -/
theorem header?_eq_none_iff {line : List Char} :
    header? line = none ↔ Unmarked sectionNames line := by
  refine ⟨fun h => unmarked_map_iff.mpr fun s hs => unmarked_of_afterHeader? ?_, header?_eq_none⟩
  exact Option.map_eq_none_iff.mp (List.findSome?_eq_none_iff.mp h s hs)

/-- A line that starts with a key has a value for it. -/
theorem isSome_directive?_iff {key line : List Char} :
    (directive? key line).isSome = true ↔ key <+: line := by
  rw [directive?, Option.isSome_map, Option.isSome_iff_ne_none, ne_eq, Text.dropFragment?_eq_none,
    Decidable.not_not]

/-- **A row gives a value** for a key if it starts with the key and is no header; the value is what
    stands behind the key, without the blanks and the backquotes around it. -/
theorem rowValue?_eq_some_iff {value : List Char} : rowValue? key row = some value
    ↔ ¬ IsHeader row ∧ ∃ rest, Text.trim row = key.toList ++ rest
      ∧ SaysValue (Text.trim rest) value := by
  rw [rowValue?, ← directive?_eq_some_iff]
  by_cases hheader : IsHeader row
  · rw [if_pos hheader]
    exact iff_of_false (Option.some_ne_none value).symm (fun h => h.1 hheader)
  · rw [if_neg hheader, and_iff_right hheader]

theorem namesFile_iff : NamesFile row ↔ (rowValue? "FILE:" row).isSome = true := by
  rw [NamesFile, rowValue?]
  split
  · rename_i hheader
    exact iff_of_false (fun h => h.1 hheader) Bool.false_ne_true
  · rename_i hheader
    rw [isSome_directive?_iff, and_iff_right hheader]

/-- No two keys start with the same character, so a row is a directive for one of them at most. -/
theorem rowValue?_unique {value : List Char} (h : rowValue? key row = some value)
    (hkey : key ∈ keys) (hother : other ∈ keys) (hne : other ≠ key) :
    rowValue? other row = none := by
  have hheads : ∀ key ∈ keys, ∀ other ∈ keys, key.toList.head? = other.toList.head? →
      key = other := by decide +kernel
  have hnonempty : ∀ key ∈ keys, key.toList ≠ [] := by decide +kernel
  rw [rowValue?] at h ⊢
  split at h
  · cases h
  · rename_i hheader
    rw [if_neg hheader]
    refine Option.eq_none_iff_forall_ne_some.mpr fun found hfound => hne ?_
    obtain ⟨tail, htail⟩ := isSome_directive?_iff.mp (Option.isSome_of_mem h)
    obtain ⟨tail', htail'⟩ := isSome_directive?_iff.mp (Option.isSome_of_mem hfound)
    refine hheads other hother key hkey ?_
    rw [← List.head?_append_of_ne_nil _ (hnonempty other hother), htail', ← htail,
      List.head?_append_of_ne_nil _ (hnonempty key hkey)]

/-- What a row means, told from what it shows. -/
inductive Means (row : List Char) : Line → Prop where
  | header {opened : Section} {rest : List Char} :
      header? (Text.trim row) = some (opened, rest) → Means row (.header opened rest)
  | file {value : List Char} :
      rowValue? "FILE:" row = some value → Means row (.directive (.file (String.ofList value)))
  | line {value : List Char} :
      rowValue? "LINE:" row = some value → Means row (.directive (.line (lineRef value)))
  | replace {value : List Char} :
      rowValue? "REPLACE:" row = some value →
        Means row (.directive (.replace (String.ofList value)))
  | replacement {value : List Char} :
      rowValue? "WITH:" row = some value →
        Means row (.directive (.replacement (String.ofList value)))
  | plain : ¬ IsHeader row → ¬ IsDirective row → Means row (.plain (Text.trim row))

theorem means_ofText (row : List Char) : Means row (Line.ofText row) := by
  rw [Line.ofText]
  cases hheader : header? (Text.trim row) with
  | some found => exact .header hheader
  | none =>
      have hnot : ¬ IsHeader row := not_not_intro (header?_eq_none_iff.mp hheader)
      have hvalue : ∀ key, rowValue? key row = directive? key.toList (Text.trim row) :=
        fun key => if_neg hnot
      rw [toDirective?, ← hvalue, ← hvalue, ← hvalue, ← hvalue]
      -- the keys are tried one after the other
      cases hfile : rowValue? "FILE:" row with
      | some value => exact .file hfile
      | none =>
          cases hline : rowValue? "LINE:" row with
          | some value => exact .line hline
          | none =>
              cases hreplace : rowValue? "REPLACE:" row with
              | some value => exact .replace hreplace
              | none =>
                  cases hwith : rowValue? "WITH:" row with
                  | some value => exact .replacement hwith
                  | none =>
                      refine .plain hnot ?_
                      rintro ⟨key, hkey, hsome⟩
                      simp only [keys, List.mem_cons, List.not_mem_nil, or_false] at hkey
                      rcases hkey with rfl | rfl | rfl | rfl
                      all_goals simp_all

/-! ## Parts -/

/-- A row that names a file, and the rows after it up to the next such row. -/
structure Part where
  head : List Char
  rows : List (List Char)

/-- All rows of a part. -/
def Part.all (part : Part) : List (List Char) :=
  part.head :: part.rows

/-- What rows are divided into: the orphans, before any file is named, and the parts. -/
structure Divided (rows orphans : List (List Char)) (parts : List Part) : Prop where
  rows_eq : rows = orphans ++ parts.flatMap Part.all
  orphans : ∀ row ∈ orphans, ¬ NamesFile row
  heads : ∀ part ∈ parts, NamesFile part.head
  inner : ∀ part ∈ parts, ∀ row ∈ part.rows, ¬ NamesFile row

/-- The value of the last row with a key. -/
def lastValue? (key : String) (rows : List (List Char)) : Option (List Char) :=
  (rows.filterMap (rowValue? key)).getLast?

/-- The fix that a part describes, before its test and the texts of the sections are known. -/
def Part.fix (part : Part) : SuggestedFix where
  filePath := String.ofList ((rowValue? "FILE:" part.head).getD [])
  line := (lastValue? "LINE:" part.rows).map lineRef
  currentCode := (lastValue? "REPLACE:" part.rows).map String.ofList
  fixedCode := (lastValue? "WITH:" part.rows).map String.ofList

theorem lastValue?_concat (key : String) (rows : List (List Char)) (row : List Char) :
    lastValue? key (rows ++ [row]) = (rowValue? key row).or (lastValue? key rows) := by
  rw [lastValue?, List.filterMap_append, List.getLast?_append]
  cases hvalue : rowValue? key row with
  | none =>
      rw [List.filterMap_cons_none hvalue]
      rfl
  | some value =>
      rw [List.filterMap_cons_some hvalue]
      rfl

namespace Divided

variable {parts : List Part} {part : Part}

theorem nil : Divided [] [] [] where
  rows_eq := rfl
  orphans := List.forall_mem_nil _
  heads := List.forall_mem_nil _
  inner := List.forall_mem_nil _

/-- A row that names a file starts one more part. -/
theorem concat_head (h : Divided rows orphans parts) (hrow : NamesFile row) :
    Divided (rows ++ [row]) orphans (parts ++ [⟨row, []⟩]) where
  rows_eq := by
    rw [h.rows_eq, List.flatMap_append, List.append_assoc]
    rfl
  orphans := h.orphans
  heads := List.forall_mem_append.mpr ⟨h.heads, List.forall_mem_singleton.mpr hrow⟩
  inner := List.forall_mem_append.mpr
    ⟨h.inner, List.forall_mem_singleton.mpr (List.forall_mem_nil _)⟩

/-- Another row goes to the last part. -/
theorem concat_inner (h : Divided rows orphans (parts ++ [part])) (hrow : ¬ NamesFile row) :
    Divided (rows ++ [row]) orphans (parts ++ [{ part with rows := part.rows ++ [row] }]) := by
  obtain ⟨hheads, hhead⟩ := List.forall_mem_append.mp h.heads
  obtain ⟨hinner, hrows⟩ := List.forall_mem_append.mp h.inner
  rw [List.forall_mem_singleton] at hhead hrows
  exact {
    rows_eq := by
      rw [h.rows_eq, List.flatMap_append, List.flatMap_append, List.append_assoc,
        List.append_assoc]
      simp [Part.all]
    orphans := h.orphans
    heads := List.forall_mem_append.mpr ⟨hheads, List.forall_mem_singleton.mpr hhead⟩
    inner := by
      refine List.forall_mem_append.mpr ⟨hinner, List.forall_mem_singleton.mpr ?_⟩
      exact List.forall_mem_append.mpr ⟨hrows, List.forall_mem_singleton.mpr hrow⟩ }

/-- Without a part another row is one more orphan. -/
theorem concat_orphan (h : Divided rows orphans []) (hrow : ¬ NamesFile row) :
    Divided (rows ++ [row]) (orphans ++ [row]) [] where
  rows_eq := by
    rw [h.rows_eq]
    simp
  orphans := List.forall_mem_append.mpr ⟨h.orphans, List.forall_mem_singleton.mpr hrow⟩
  heads := List.forall_mem_nil _
  inner := List.forall_mem_nil _

end Divided

/-! ## Sections -/

/-- The section that is open after some rows: that of the last header. -/
def openAfter (rows : List (List Char)) : Option Section :=
  (rows.filterMap fun row => (header? (Text.trim row)).map (·.1)).getLast?

/-- The text that a row has for the open section: what stands behind a header, or the whole row if
    it is no directive. -/
def rowText (row : List Char) : List Char :=
  match header? (Text.trim row) with
  | some (_, rest) => rest
  | none => if IsDirective row then [] else Text.trim row

/-- The texts that rows assign to a section, in order: those of the rows at which it is open. -/
def sectionTexts (s : Section) (rows : List (List Char)) : List (List Char) :=
  rows.zipIdx.filterMap fun (row, i) =>
    if openAfter (rows.take (i + 1)) = some s ∧ rowText row ≠ [] then some (rowText row) else none

theorem openAfter_concat (rows : List (List Char)) (row : List Char) :
    openAfter (rows ++ [row]) = ((header? (Text.trim row)).map (·.1)).or (openAfter rows) := by
  rw [openAfter, List.filterMap_append, List.getLast?_append, openAfter]
  cases hheader : header? (Text.trim row) with
  | none => simp [hheader]
  | some found => simp [hheader]

/-- A row adds its text to the section that is open at it. -/
theorem sectionTexts_concat (s : Section) (rows : List (List Char)) (row : List Char) :
    sectionTexts s (rows ++ [row]) = sectionTexts s rows
      ++ if openAfter (rows ++ [row]) = some s ∧ rowText row ≠ [] then [rowText row] else [] := by
  rw [sectionTexts, List.zipIdx_append, List.filterMap_append, sectionTexts]
  congr 1
  · -- the section that is open at an earlier row is told from the rows up to that one
    refine List.filterMap_congr fun (found, i) hfound => ?_
    have hlt : i + 1 ≤ rows.length := by
      have hlast := List.snd_lt_of_mem_zipIdx hfound
      omega
    dsimp only
    rw [List.take_append_of_le_length hlt]
  · have hall : (rows ++ [row]).take (0 + rows.length + 1) = rows ++ [row] :=
      List.take_of_length_le (by simp)
    rw [List.zipIdx_singleton, List.filterMap_cons]
    dsimp only
    rw [hall]
    by_cases hopen : openAfter (rows ++ [row]) = some s ∧ rowText row ≠ []
    · rw [if_pos hopen, if_pos hopen]
      rfl
    · rw [if_neg hopen, if_neg hopen]
      rfl

theorem header?_of_rowValue? {value : List Char} (h : rowValue? key row = some value) :
    header? (Text.trim row) = none := by
  rw [header?_eq_none_iff]
  by_contra hheader
  exact Option.some_ne_none value (h.symm.trans (if_pos hheader))

theorem rowText_of_rowValue? {value : List Char} (h : rowValue? key row = some value)
    (hkey : key ∈ keys) : rowText row = [] := by
  rw [rowText, header?_of_rowValue? h]
  exact if_pos ⟨key, hkey, Option.isSome_of_mem h⟩

/-! ## Reading row by row -/

/-- The texts that have been read for a section, the last one first. -/
def Progress.textsOf (p : Progress) : Section → List (List Char)
  | .rootCause => p.rootCause
  | .verification => p.verification
  | .notes => p.notes
  | .fixes => []

/-- What has been read after some rows. -/
structure Reads (rows : List (List Char)) (p : Progress) : Prop where
  openSection : p.openSection = openAfter rows
  texts : ∀ s, s ≠ .fixes → (p.textsOf s).reverse = sectionTexts s rows
  fixes : ∃ orphans parts, Divided rows orphans parts ∧ p.fixes.reverse = parts.map Part.fix

namespace Progress

/-- A text is added to the open section and to no other. -/
theorem textsOf_addText {s : Section} (hs : s ≠ .fixes) (p : Progress) (text : List Char) :
    (p.addText text).textsOf s
      = (if p.openSection = some s ∧ text ≠ [] then [text] else []) ++ p.textsOf s := by
  rw [addText]
  by_cases hempty : text = []
  · rw [if_pos (List.isEmpty_iff.mpr hempty), if_neg fun h => h.2 hempty]
    rfl
  · rw [if_neg fun h => hempty (List.isEmpty_iff.mp h)]
    cases hopen : p.openSection with
    | none => simp
    | some opened =>
        cases opened <;> cases s <;> simp_all [textsOf]

theorem openSection_addText (p : Progress) (text : List Char) :
    (p.addText text).openSection = p.openSection := by
  rw [addText]
  split
  · rfl
  · split <;> rfl

theorem fixes_addText (p : Progress) (text : List Char) : (p.addText text).fixes = p.fixes := by
  rw [addText]
  split
  · rfl
  · split <;> rfl

theorem openSection_changeLast (p : Progress) (change : SuggestedFix → SuggestedFix) :
    (p.changeLast change).openSection = p.openSection := by
  rw [changeLast]
  split <;> rfl

theorem textsOf_changeLast (s : Section) (p : Progress) (change : SuggestedFix → SuggestedFix) :
    (p.changeLast change).textsOf s = p.textsOf s := by
  rw [changeLast]
  split
  · cases s <;> rfl
  · rfl

/-- Whether a step from some progress to another treats the sections as a row demands. -/
structure Follows (row : List Char) (p after : Progress) : Prop where
  openSection : after.openSection = ((header? (Text.trim row)).map (·.1)).or p.openSection
  texts : ∀ s, s ≠ .fixes → after.textsOf s
    = (if after.openSection = some s ∧ rowText row ≠ [] then [rowText row] else []) ++ p.textsOf s

/-- A row without a text and without a header leaves the sections alone. -/
theorem follows_of_kept {after : Progress} (hheader : header? (Text.trim row) = none)
    (htext : rowText row = []) (hopen : after.openSection = p.openSection)
    (hkept : ∀ s, s ≠ .fixes → after.textsOf s = p.textsOf s) : Follows row p after where
  openSection := by rw [hopen, hheader, Option.map_none, Option.none_or]
  texts s hs := by rw [htext, if_neg fun h => h.2 rfl, List.nil_append, hkept s hs]

/-- **One row more**: the section that it opens, and where its text goes. -/
theorem follows_step (p : Progress) (row : List Char) :
    Follows row p (p.step (Line.ofText row)) := by
  have hchange : ∀ key value change, rowValue? key row = some value → key ∈ Reply.keys →
      Follows row p (p.changeLast change) := by
    intro key value change hvalue hkey
    exact follows_of_kept (header?_of_rowValue? hvalue) (rowText_of_rowValue? hvalue hkey)
      (openSection_changeLast p change) fun s _ => textsOf_changeLast s p change
  have hmeans := means_ofText row
  generalize Line.ofText row = line at hmeans
  cases hmeans with
  | @header opened rest hheader =>
      have htext : rowText row = rest := by rw [rowText, hheader]
      constructor
      · rw [step, openSection_addText, hheader]
        rfl
      · intro s hs
        rw [step, openSection_addText, textsOf_addText hs, htext]
        cases s <;> rfl
  | file hvalue =>
      refine follows_of_kept (header?_of_rowValue? hvalue)
        (rowText_of_rowValue? hvalue (by decide)) rfl fun s _ => ?_
      cases s <;> rfl
  | line hvalue => exact hchange _ _ _ hvalue (by decide)
  | replace hvalue => exact hchange _ _ _ hvalue (by decide)
  | replacement hvalue => exact hchange _ _ _ hvalue (by decide)
  | plain hheader hplain =>
      have hnone := header?_eq_none_iff.mpr (Decidable.not_not.mp hheader)
      have htext : rowText row = Text.trim row := by
        rw [rowText, hnone]
        exact if_neg hplain
      constructor
      · rw [step, openSection_addText, hnone]
        rfl
      · intro s hs
        rw [step, openSection_addText, textsOf_addText hs, htext]

end Progress

/-! ### The fixes -/

/-- The change of a fix that a row demands. -/
def changeAt (row : List Char) (fix : SuggestedFix) : SuggestedFix :=
  { fix with
    line := ((rowValue? "LINE:" row).map lineRef).or fix.line
    currentCode := ((rowValue? "REPLACE:" row).map String.ofList).or fix.currentCode
    fixedCode := ((rowValue? "WITH:" row).map String.ofList).or fix.fixedCode }

/-- A part with one row more describes the fix with the change that the row demands. -/
theorem Part.fix_concat (part : Part) (row : List Char) :
    Part.fix { part with rows := part.rows ++ [row] } = changeAt row part.fix := by
  simp only [fix, changeAt, lastValue?_concat, Option.map_or]

/-- A row that is no directive demands no change. -/
theorem changeAt_of_not_isDirective (h : ¬ IsDirective row) : changeAt row = id := by
  have hnone : ∀ key ∈ keys, rowValue? key row = none := by
    intro key hkey
    by_contra hsome
    exact h ⟨key, hkey, Option.isSome_iff_ne_none.mpr hsome⟩
  funext fix
  rw [changeAt, hnone _ (by decide), hnone _ (by decide), hnone _ (by decide)]
  rfl

namespace Progress

/-- A row that names a file starts a fix. -/
theorem fixes_step_head (p : Progress) (h : NamesFile row) :
    (p.step (Line.ofText row)).fixes = Part.fix ⟨row, []⟩ :: p.fixes := by
  obtain ⟨value, hvalue⟩ := Option.isSome_iff_exists.mp (namesFile_iff.mp h)
  have hother : ∀ key ∈ Reply.keys, key ≠ "FILE:" → rowValue? key row = none :=
    fun key hkey hne => rowValue?_unique hvalue (by decide) hkey hne
  have hmeans := means_ofText row
  generalize Line.ofText row = line at hmeans
  cases hmeans with
  | header hheader => exact nomatch hheader.symm.trans (header?_of_rowValue? hvalue)
  | file hfound =>
      rw [Part.fix, hfound]
      rfl
  | line hfound => exact nomatch hfound.symm.trans (hother _ (by decide) (by decide))
  | replace hfound => exact nomatch hfound.symm.trans (hother _ (by decide) (by decide))
  | replacement hfound => exact nomatch hfound.symm.trans (hother _ (by decide) (by decide))
  | plain _ hplain => exact absurd ⟨_, by decide, Option.isSome_of_mem hvalue⟩ hplain

/-- Another row changes the last fix. -/
theorem fixes_step_inner (p : Progress) (h : ¬ NamesFile row) :
    (p.step (Line.ofText row)).fixes = p.fixes.modifyHead (changeAt row) := by
  have hchange : ∀ change, change = changeAt row →
      (p.changeLast change).fixes = p.fixes.modifyHead (changeAt row) := by
    rintro _ rfl
    rw [changeLast]
    split
    · rename_i hfixes
      rw [hfixes]
      rfl
    · rename_i hfixes
      rw [hfixes]
      rfl
  have hmeans := means_ofText row
  generalize Line.ofText row = line at hmeans
  cases hmeans with
  | header hheader =>
      have hplain : ¬ IsDirective row := by
        rintro ⟨key, -, hsome⟩
        obtain ⟨value, hvalue⟩ := Option.isSome_iff_exists.mp hsome
        exact nomatch hheader.symm.trans (header?_of_rowValue? hvalue)
      rw [step, fixes_addText, changeAt_of_not_isDirective hplain]
      cases p.fixes <;> rfl
  | file hvalue => exact absurd (namesFile_iff.mpr (Option.isSome_of_mem hvalue)) h
  | line hvalue =>
      refine hchange _ (funext fun fix => ?_)
      have hother := fun key hkey hne => @rowValue?_unique row _ key _ hvalue (by decide) hkey hne
      rw [changeAt, hvalue, hother _ (by decide) (by decide), hother _ (by decide) (by decide)]
      rfl
  | replace hvalue =>
      refine hchange _ (funext fun fix => ?_)
      have hother := fun key hkey hne => @rowValue?_unique row _ key _ hvalue (by decide) hkey hne
      rw [changeAt, hvalue, hother _ (by decide) (by decide), hother _ (by decide) (by decide)]
      rfl
  | replacement hvalue =>
      refine hchange _ (funext fun fix => ?_)
      have hother := fun key hkey hne => @rowValue?_unique row _ key _ hvalue (by decide) hkey hne
      rw [changeAt, hvalue, hother _ (by decide) (by decide), hother _ (by decide) (by decide)]
      rfl
  | plain _ hplain =>
      rw [step, fixes_addText, changeAt_of_not_isDirective hplain]
      cases p.fixes <;> rfl

end Progress

namespace Reads

theorem nil : Reads [] {} where
  openSection := rfl
  texts s _ := by cases s <;> rfl
  fixes := ⟨[], [], .nil, rfl⟩

/-- **One row more** is read. -/
theorem concat (h : Reads rows p) (row : List Char) :
    Reads (rows ++ [row]) (p.step (Line.ofText row)) := by
  have hfollows := p.follows_step row
  have hopen : (p.step (Line.ofText row)).openSection = openAfter (rows ++ [row]) := by
    rw [hfollows.openSection, h.openSection, openAfter_concat]
  refine ⟨hopen, fun s hs => ?_, ?_⟩
  · rw [hfollows.texts s hs, List.reverse_append, h.texts s hs, sectionTexts_concat, hopen]
    congr 1
    split <;> rfl
  · obtain ⟨orphans, parts, hdivided, hfixes⟩ := h.fixes
    by_cases hrow : NamesFile row
    · refine ⟨orphans, _, hdivided.concat_head hrow, ?_⟩
      rw [p.fixes_step_head hrow, List.reverse_cons, hfixes, List.map_append]
      rfl
    · rw [p.fixes_step_inner hrow]
      -- the row goes to the last part, or there is none
      rcases List.eq_nil_or_concat' parts with rfl | ⟨parts, part, rfl⟩
      · refine ⟨_, [], hdivided.concat_orphan hrow, ?_⟩
        rw [List.reverse_eq_nil_iff.mp hfixes]
        rfl
      · refine ⟨orphans, _, hdivided.concat_inner hrow, ?_⟩
        have hlast : p.fixes = part.fix :: (parts.map Part.fix).reverse := by
          rw [← List.reverse_reverse p.fixes, hfixes, List.map_append, List.reverse_append]
          rfl
        rw [hlast, List.modifyHead_cons, List.reverse_cons, List.reverse_reverse, List.map_append,
          List.map_singleton, Part.fix_concat]

/-- **A run over rows** reads them. -/
theorem foldl (rows : List (List Char)) :
    Reads rows ((rows.map Line.ofText).foldl Progress.step {}) := by
  induction rows using List.reverseRecOn with
  | nil => exact nil
  | append_singleton rows row ih =>
      rw [List.map_append, List.foldl_append]
      exact ih.concat row

end Reads

/-! ## The report -/

/-- Texts with one space between each two of them, if there are any. -/
def joined? (texts : List (List Char)) : Option String :=
  if texts = [] then none else some (" ".intercalate (texts.map String.ofList))

/-- Whether a fix is what a part of a reply says, with the test of a failure, if there is one, and
    with the texts that all rows assign to the sections. -/
structure Describes (rows : List (List Char)) (failure : Option FailureSummary) (part : Part)
    (fix : SuggestedFix) : Prop where
  filePath : rowValue? "FILE:" part.head = some fix.filePath.toList
  line : fix.line = (lastValue? "LINE:" part.rows).map lineRef
  currentCode : fix.currentCode = (lastValue? "REPLACE:" part.rows).map String.ofList
  fixedCode : fix.fixedCode = (lastValue? "WITH:" part.rows).map String.ofList
  testClass : fix.testClass = failure.map (·.testClass)
  testMethod : fix.testMethod = failure.map (·.testMethod)
  rootCause : fix.rootCause
    = (joined? (sectionTexts .rootCause rows)).getD "See AI response for details"
  verification : fix.verification
    = (joined? (sectionTexts .verification rows)).getD "Run the test to verify the fix"
  notes : fix.notes = joined? (sectionTexts .notes rows)

theorem joinWith_eq_intercalate (texts : List (List Char)) :
    String.ofList (Text.joinWith [' '] texts) = " ".intercalate (texts.map String.ofList) := by
  have hlist : Text.joinWith [' '] texts = [' '].intercalate texts := by
    induction texts with
    | nil => rfl
    | cons text texts ih =>
        cases texts with
        | nil =>
            rw [List.intercalate_singleton]
            rfl
        | cons second texts =>
            rw [List.intercalate_cons_cons, ← ih]
            rfl
  have htexts : (texts.map String.ofList).map String.toList = texts := by
    rw [List.map_map]
    exact List.map_id'' (fun text => String.toList_ofList) texts
  rw [hlist, ← String.toList_inj, String.toList_ofList, String.toList_intercalate, htexts]
  rfl

/-- The rows, read one after the other. -/
def readRows (rows : List (List Char)) (p : Progress) : Progress :=
  (rows.map Line.ofText).foldl Progress.step p

/-- The report of what has been read. -/
def Progress.report (p : Progress) (now reply : String) (summary : ErrorSummary) (model : String) :
    FixReport where
  metadata := {
    generatedAt := now
    totalFailures := summary.totals.totalFailures
    model := model }
  fixes := (assignTests p.fixes.reverse summary.failures).map fun fix =>
    { fix with
      rootCause := (joined? p.rootCause.reverse).getD "See AI response for details"
      verification := (joined? p.verification.reverse).getD "Run the test to verify the fix"
      notes := joined? p.notes.reverse }
  rawReply := reply

/-- **A reply is read** row by row, and the report is made of what has been read in the end. -/
theorem parse_eq_report (now reply : String) (summary : ErrorSummary) (model : String) :
    parse now reply summary model
      = (readRows (Text.lines reply.toList) {}).report now reply summary model := by
  have hjoined : ∀ standard texts,
      (if List.isEmpty texts then standard else String.ofList (Text.joinWith [' '] texts))
        = (joined? texts).getD standard := by
    intro standard texts
    rw [joined?, joinWith_eq_intercalate]
    cases texts <;> rfl
  have hnotes : ∀ texts : List (List Char),
      (if texts.isEmpty then none
        else some (String.ofList (Text.joinWith [' '] texts.reverse))) = joined? texts.reverse := by
    intro texts
    rw [joined?, joinWith_eq_intercalate]
    simp only [List.isEmpty_iff, List.reverse_eq_nil_iff]
  rw [Progress.report, ← hjoined, ← hjoined, ← hnotes]
  rfl

end FailureTriage.Reply
