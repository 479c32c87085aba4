import FailureTriage.Context.Reconstruction
import FailureTriage.Proofs.Advice.ShownContext
import FailureTriage.Proofs.Files.Spellings
import FailureTriage.Proofs.Pattern.Groups
import FailureTriage.Proofs.Pattern.Successive
import FailureTriage.Proofs.Source.Discovery
import FailureTriage.Proofs.Source.Suspicions
import FailureTriage.Proofs.Text.Cutting

/-!
# Compared values

How the two values of a failed assertion stand in its message, and that they are read from there
whatever the values are made of: the expected value reaches as far as the last `but was:` and the
actual value as far as the last closing bracket of its line.

* `ComparedMessage`: a message as it is written, part by part.
* `ComparedMessage.ofMessage?_text`: the values that are read from it.
* `SourceReader.value_readAll`, `Workspace.related_reconstruct`: what is read of related sources.
* `Workspace.reconstruct_compared`: the suspicions about sources that gave no items.
-/

namespace FailureTriage

/-- A message with two compared values as it is written: the words `expected:` and `but was:`, each
    with a value in angle brackets behind it, between any other texts. -/
structure ComparedMessage where
  before : List Char
  /-- The blanks behind the word `expected:`. -/
  gap : List Char
  expected : List Char
  /-- The blanks behind the first value. -/
  middleGap : List Char
  /-- The blanks behind the words `but was:`. -/
  lastGap : List Char
  actual : List Char
  after : List Char
  isGap : ∀ c ∈ gap, Text.isBlank c = true
  isMiddleGap : ∀ c ∈ middleGap, Text.isBlank c = true
  isLastGap : ∀ c ∈ lastGap, Text.isBlank c = true
  notBefore : ¬ "expected:".toList <:+: before
  expectedInLine : '\n' ∉ expected
  actualInLine : '\n' ∉ actual
  notActual : ¬ "but was:".toList <:+: actual
  notAfter : ¬ "but was:".toList <:+: after
  /-- No bracket is closed on the line behind the second value. -/
  unclosed : '>' ∉ Text.beforeFirst '\n' after

namespace ComparedMessage

open Pattern

variable (m : ComparedMessage)

/-- What stands from the second value on. -/
def ending : List Char :=
  m.actual ++ '>' :: m.after

/-- What stands between the two values, behind the bracket that closes the first one. -/
def middle : List Char :=
  m.middleGap ++ ("but was:".toList ++ (m.lastGap ++ ['<']))

/-- What stands from the first value on. -/
def values : List Char :=
  m.expected ++ '>' :: (m.middle ++ m.ending)

/-- The text of the message. -/
def text : List Char :=
  m.before ++ ("expected:".toList ++ (m.gap ++ '<' :: m.values))

/-! ## Where the values end -/

variable {m} {more later : List Char}

/-- No bracket is closed between the two values. -/
theorem bracket_not_mem_middle (m : ComparedMessage) : '>' ∉ m.middle := by
  have hblank : ¬ Text.isBlank '>' = true := by decide
  intro hmem
  rcases List.mem_append.mp hmem with hmem | hmem
  · exact hblank (m.isMiddleGap _ hmem)
  rcases List.mem_append.mp hmem with hmem | hmem
  · exact absurd hmem (by decide)
  rcases List.mem_append.mp hmem with hmem | hmem
  · exact hblank (m.isLastGap _ hmem)
  · exact absurd hmem (by decide)

/-- Behind a later closing bracket the words `but was:` do not follow. -/
theorem not_infix_of_later (h : '>' :: (m.middle ++ m.ending) = more ++ '>' :: later)
    (hne : more ≠ []) : ¬ "but was:".toList <:+: later := by
  intro hin
  obtain ⟨c, more, rfl⟩ := List.exists_cons_of_ne_nil hne
  have htail : m.middle ++ m.ending = more ++ '>' :: later := (List.cons.inj h).2
  have hsuffix := Text.suffix_of_append_cons m.bracket_not_mem_middle htail
  have hending : "but was:".toList <:+: m.ending :=
    hin.trans ((List.suffix_cons '>' later).trans hsuffix).isInfix
  -- the words have no bracket, so they lie in the second value or behind the message
  exact (Text.infix_append_cons (by decide) hending).elim m.notActual m.notAfter

/-- No bracket is closed later on the line behind the second value. -/
theorem later_not_inLine (h : '>' :: m.after = more ++ '>' :: later) (hne : more ≠ []) :
    ¬ ∀ c ∈ more, Assertion.inLine c = true := by
  intro hline
  obtain ⟨c, more, rfl⟩ := List.exists_cons_of_ne_nil hne
  have hafter : m.after = more ++ '>' :: later := (List.cons.inj h).2
  have hmore : ∀ c ∈ more, (c != '\n') = true := (List.forall_mem_cons.mp hline).2
  refine m.unclosed ?_
  rw [hafter, Text.beforeFirst, List.takeWhile_append_of_pos hmore,
    List.takeWhile_cons_of_pos (by decide)]
  exact List.mem_append_right _ List.mem_cons_self

/-! ## The values that are read -/

/-- What is matched from the second value on. -/
def lastParts : List Pattern :=
  [.group 2 (zeroOrMore Assertion.inLine), word ">"]

/-- What is matched behind the first value. -/
def delimited : List Pattern :=
  word ">" :: blanks :: word "but was:" :: blanks :: word "<" :: lastParts

variable {β : Type} {next : Way → Option β} {f : Way → β} {groups : List (Nat × Span)} {b : β}
  {a : Place}

/-- Behind a later closing bracket nothing more is matched. -/
theorem delimited_later (h : '>' :: (m.middle ++ m.ending) = more ++ a.rest) (hne : more ≠ []) :
    (sequence delimited).thenTry next ⟨a, groups⟩ = none := by
  refine Option.eq_none_iff_forall_ne_some.mpr ?_
  intro b hb
  -- one could go on only where the words stand once more
  obtain ⟨_, rest, hrest, rfl, hb⟩ := thenTry_sequence_of_spells rfl (spells_word _) hb
  obtain ⟨gap, rest', hgap, -, hb⟩ := thenTry_sequence_of_spells rfl spells_blanks hb
  obtain ⟨_, rest'', hword, rfl, -⟩ := thenTry_sequence_of_spells rfl (spells_word _) hb
  rw [hrest] at h
  refine not_infix_of_later h hne ⟨gap, rest'', ?_⟩
  have hgap : rest = gap ++ rest' := hgap
  have hword : rest' = "but was:".toList ++ rest'' := hword
  rw [hgap, hword, List.append_assoc]
  rfl

/-- What stands between the values is passed. -/
theorem delimited_middle (hrest : a.rest = '>' :: (m.middle ++ m.ending))
    (hb : (sequence lastParts).thenTry next ⟨a.past ('>' :: m.middle) m.ending, groups⟩ = some b) :
    (sequence delimited).thenTry next ⟨a, groups⟩ = some b := by
  have hmiddle : m.middle ++ m.ending
      = m.middleGap ++ ("but was:".toList ++ (m.lastGap ++ ("<".toList ++ m.ending))) := by
    simp only [middle, List.append_assoc]
    rfl
  rw [hmiddle] at hrest
  refine thenTry_sequence_word hrest <| thenTry_sequence_blanks rfl m.isMiddleGap rfl <|
    thenTry_sequence_word rfl <| thenTry_sequence_blanks rfl m.isLastGap rfl <|
    thenTry_sequence_word rfl ?_
  simp only [Place.past_past]
  rw [← hb]
  simp only [middle, List.append_assoc]
  rfl

/-- The second value is kept whole. -/
theorem exists_lastParts (hrest : a.rest = m.ending) (f : Way → β) (groups : List (Nat × Span)) :
    ∃ (span : Span) (z : Place), span.text = m.actual
      ∧ (sequence lastParts).thenTry (fun way => some (f way)) ⟨a, groups⟩
        = some (f ⟨z, (2, span) :: groups⟩) := by
  let last := a.past m.actual ('>' :: m.after)
  refine ⟨⟨a, last.index⟩, last.past ['>'] m.after, Span.text_past hrest, ?_⟩
  rw [lastParts, thenTry_sequence_cons, thenTry_group]
  refine thenTry_run_of_longest hrest (Text.forall_bne.mpr m.actualInLine)
    (thenTry_sequence_word rfl (thenTry_empty _ _)) ?_
  intro more tail hmore hne hline
  refine Option.eq_none_iff_forall_ne_some.mpr ?_
  intro b hb
  obtain ⟨_, later, htail, rfl, -⟩ := thenTry_sequence_of_spells rfl (spells_word _) hb
  have htail : tail = '>' :: later := htail
  exact later_not_inLine (hmore.trans (congrArg (more ++ ·) htail)) hne hline

/-- Both values are kept whole. -/
theorem exists_values (hrest : a.rest = m.values) (f : Way → β) (groups : List (Nat × Span)) :
    ∃ (first second : Span) (z : Place), first.text = m.expected ∧ second.text = m.actual
      ∧ (sequence (.group 1 (zeroOrMore Assertion.inLine) :: delimited)).thenTry
          (fun way => some (f way)) ⟨a, groups⟩
        = some (f ⟨z, (2, second) :: (1, first) :: groups⟩) := by
  let last := a.past m.expected ('>' :: (m.middle ++ m.ending))
  obtain ⟨second, z, hsecond, hb⟩ := exists_lastParts (m := m)
    (a := last.past ('>' :: m.middle) m.ending) rfl f ((1, ⟨a, last.index⟩) :: groups)
  refine ⟨⟨a, last.index⟩, second, z, Span.text_past hrest, hsecond, ?_⟩
  rw [thenTry_sequence_cons, thenTry_group]
  refine thenTry_run_of_longest hrest (Text.forall_bne.mpr m.expectedInLine)
    (delimited_middle rfl hb) ?_
  intro more tail hmore hne _
  exact delimited_later hmore hne

/-- A message is matched at its first word. -/
theorem exists_matchAt? (hrest : a.rest = "expected:".toList ++ (m.gap ++ '<' :: m.values)) :
    ∃ found, Assertion.pattern.matchAt? a = some found ∧ found.group? 1 = some m.expected
      ∧ found.group? 2 = some m.actual := by
  let start := ((a.past "expected:".toList (m.gap ++ '<' :: m.values)).past m.gap
    ('<' :: m.values)).past ['<'] m.values
  obtain ⟨first, second, z, hfirst, hsecond, hb⟩ := exists_values (m := m) (a := start) rfl
    (fun way => (⟨⟨a, way.place.index⟩, way.groups⟩ : Match)) []
  refine ⟨⟨⟨a, z.index⟩, [(2, second), (1, first)]⟩, (matchAt?_eq_thenTry _ a).trans ?_,
    congrArg some hfirst, congrArg some hsecond⟩
  exact thenTry_sequence_word hrest <| thenTry_sequence_blanks rfl m.isGap rfl <|
    thenTry_sequence_word rfl hb

/-- A match is found at the first word of a message. -/
theorem exists_find?_text (m : ComparedMessage) :
    ∃ found, Assertion.pattern.find? m.text = some found ∧ found.group? 1 = some m.expected
      ∧ found.group? 2 = some m.actual := by
  obtain ⟨found, hfound, hexpected, hactual⟩ := exists_matchAt? (m := m)
    (a := ⟨m.before.length, m.before.getLast?, _⟩) rfl
  obtain ⟨-, hmatches⟩ := start_of_matchAt? hfound
  have hsplit := Text.splitAtFirst?_append "expected".toList ':' (by decide) m.notBefore
    (m.gap ++ '<' :: m.values)
  rw [List.append_assoc] at hsplit
  have hfirst := (Text.firstAt_of_splitAtFirst? hsplit).1
  have hleftmost : Assertion.pattern.IsLeftmost m.text m.before.length := by
    refine ⟨hmatches, ?_⟩
    intro earlier hlt hearlier
    exact hfirst.2 earlier hlt (startsAt_of_matchesAt hearlier)
  refine ⟨found, find?_of_isLeftmost hleftmost ?_, hexpected, hactual⟩
  rw [text, inText_append, hfound]

/-- **The two values of a message** are read from it, whatever they are made of. -/
theorem ofMessage?_text (m : ComparedMessage) :
    Assertion.ofMessage? (String.ofList m.text)
      = some ⟨String.ofList m.expected, String.ofList m.actual⟩ := by
  obtain ⟨found, hfound, hexpected, hactual⟩ := exists_find?_text m
  rw [Assertion.ofMessage?, String.toList_ofList, hfound]
  simp only [Option.bind_eq_bind, Option.bind_some, hexpected, hactual]

/-! ## Items that were not there -/

theorem isBlank_of_mem_space : ∀ c ∈ [' '], Text.isBlank c = true :=
  List.forall_mem_singleton.mpr (by decide)

/-- The message that some number of items was expected, and that there were none. -/
def missing (n : UInt64) : ComparedMessage where
  before := []
  gap := [' ']
  expected := Text.natDigits n.toNat
  middleGap := [' ']
  lastGap := [' ']
  actual := ['0']
  after := []
  isGap := isBlank_of_mem_space
  isMiddleGap := isBlank_of_mem_space
  isLastGap := isBlank_of_mem_space
  notBefore h := absurd (Text.contains_iff_infix.mpr h) (by decide)
  expectedInLine hmem := absurd (Text.isDigit_of_mem_natDigits hmem) (by decide)
  actualInLine := Text.forall_bne.mp (List.all_eq_true.mp (by decide))
  notActual h := absurd (Text.contains_iff_infix.mpr h) (by decide)
  notAfter h := absurd (Text.contains_iff_infix.mpr h) (by decide)
  unclosed := Text.forall_bne.mp (List.all_eq_true.mp (by decide))

theorem text_missing (n : UInt64) :
    String.ofList (missing n).text = s!"expected: <{n}> but was: <0>" := by
  have hdigits : (toString n).toList = Text.natDigits n.toNat := String.toList_ofList
  have htext : (missing n).text
      = "expected: <".toList ++ (Text.natDigits n.toNat ++ "> but was: <0>".toList) := rfl
  refine String.toList_inj.mp ?_
  rw [String.toList_ofList, htext, String.toList_append, String.toList_append, hdigits,
    List.append_assoc]
  rfl

/-- A positive number of items is asked for. -/
theorem asksFor_missing {n : UInt64} (hpos : 0 < n) :
    Suspicion.AsksFor (String.ofList (missing n).expected) (String.ofList (missing n).actual)
      n.toNat where
  gotNone := show Text.trim "0".toList = ['0'] by decide
  reads := by
    have hle : n.toNat ≤ Text.maxWord64 := Nat.le_of_lt_succ n.toNat_lt
    rw [String.toList_ofList]
    exact Text.readNat?_natDigits hle
  positive := hpos

end ComparedMessage

/-! ## What is read of the related sources -/

namespace SourceReader

variable {files : FileTree} {path : Path}

theorem value_textOf : (textOf files path).value = (files.readText path).toOption.getD "" := by
  rw [textOf]
  cases files.readText path with
  | ok text => rfl
  | error fault => cases fault <;> rfl

/-- A source of which nothing is known is read. -/
theorem value_read {reader : SourceReader}
    (h : ∀ known ∈ reader.known, known.1.components ≠ path.components) :
    (reader.read files path).value = ((files.readText path).toOption.getD "",
      ⟨(path, (files.readText path).toOption.getD "") :: reader.known⟩) := by
  have hunknown : reader.lookup? path = none := by
    rw [lookup?, Option.map_eq_none_iff, List.find?_eq_none]
    exact fun known hknown hsame => h known hknown (beq_iff_eq.mp hsame)
  rw [read, hunknown, ← value_textOf]
  rfl

/-- **Sources with different paths** are all read. -/
theorem value_readAll {reader : SourceReader} {paths : List Path}
    (hfresh : ∀ path ∈ paths, ∀ known ∈ reader.known, known.1.components ≠ path.components)
    (hdistinct : (paths.map Path.components).Nodup) :
    (reader.readAll files paths).value
      = paths.map fun path => (path, (files.readText path).toOption.getD "") := by
  induction paths generalizing reader with
  | nil => rfl
  | cons path paths ih =>
      rw [List.map_cons, List.nodup_cons] at hdistinct
      obtain ⟨hnow, hlater⟩ := List.forall_mem_cons.mp hfresh
      have hrest := @ih ⟨(path, (files.readText path).toOption.getD "") :: reader.known⟩
        (fun other hother => List.forall_mem_cons.mpr
          ⟨fun heq => hdistinct.1 (List.mem_map.mpr ⟨other, hother, heq.symm⟩),
            hlater other hother⟩) hdistinct.2
      rw [readAll, Logged.value_bind, value_read hnow]
      dsimp only
      rw [Logged.value_bind, hrest, Logged.value_pure, List.map_cons]

end SourceReader

namespace Workspace

variable {w : Workspace} {now : Timestamp} {failure : FailureRecord}

/-- The paths that are found for a failure. -/
def searchedPaths (w : Workspace) (failure : FailureRecord) : List Path :=
  let test := (w.locateTest failure.testClass failure.testMethod).value
  (w.relatedSearch failure (test.path.filter w.files.isFile)).value.paths

/-- No two paths that are found have the same components, since they lead to different files. -/
theorem nodup_components_searchedPaths :
    ((w.searchedPaths failure).map Path.components).Nodup := by
  have hdistinct : ((w.searchedPaths failure).map w.files.locate?).Nodup := by
    rw [searchedPaths, (value_relatedSearch w failure _).2]
    exact nodup_keys_firstOfEach _
  have hfile : ∀ path ∈ w.searchedPaths failure, w.files.isFile path = true :=
    fun path hpath => isFile_of_mem_discovered (discovered_of_mem_paths hpath)
  rw [List.Nodup, List.pairwise_map] at hdistinct ⊢
  refine hdistinct.imp_of_mem fun {a b} ha hb hne heq => hne ?_
  obtain ⟨place, content, hfind⟩ := FileTree.isFile_iff.mp (hfile a ha)
  obtain ⟨place', content', hfind'⟩ := FileTree.isFile_iff.mp (hfile b hb)
  rw [FileTree.locate?, FileTree.locate?, hfind, hfind',
    FileTree.find?_eq_of_components heq hfind hfind']

/-- The related sources are the files at the paths that are found, each with what is read of it. -/
theorem related_reconstruct :
    (w.reconstruct now failure).value.related = (w.searchedPaths failure).map fun path =>
      relatedSource (Assertion.ofMessage? failure.message) path
        ((w.files.readText path).toOption.getD "") := by
  have hread : (w.reconstruct now failure).value.related
      = (SourceReader.readAll {} w.files (w.searchedPaths failure)).value.map
        fun read => relatedSource (Assertion.ofMessage? failure.message) read.1 read.2 :=
    rfl
  rw [hread, SourceReader.value_readAll (fun _ _ => List.forall_mem_nil _)
    nodup_components_searchedPaths, List.map_map]
  rfl

/-- **The values of a message** are read whole, whatever they are made of; and if they say that some
    number of items was expected and that there were none, every related source is searched for the
    lines that could explain it, as it is read from the file at its path. -/
theorem reconstruct_compared :
    (∀ m : ComparedMessage, Assertion.ofMessage? (String.ofList m.text)
      = some ⟨String.ofList m.expected, String.ofList m.actual⟩)
    ∧ ∀ (w : Workspace) (now : Timestamp) (failure : FailureRecord) (n : UInt64), 0 < n →
      failure.message = s!"expected: <{n}> but was: <0>" →
      (w.reconstruct now failure).value.related.map RelatedSource.path = w.searchedPaths failure
        ∧ ∀ source ∈ (w.reconstruct now failure).value.related,
          source.content = (w.files.readText source.path).toOption.getD ""
          ∧ source.suspicions = (Text.lines source.content.toList).zipIdx.flatMap
            fun (line, index) => Suspicion.ofLine n.toNat (index + 1) line := by
  refine ⟨ComparedMessage.ofMessage?_text, ?_⟩
  intro w now failure n hpos hmessage
  have hvalues := (ComparedMessage.missing n).ofMessage?_text
  rw [ComparedMessage.text_missing, ← hmessage] at hvalues
  rw [related_reconstruct, hvalues]
  refine ⟨?_, fun source hsource => ?_⟩
  · rw [List.map_map]
    exact List.map_id _
  · obtain ⟨path, -, rfl⟩ := List.mem_map.mp hsource
    exact ⟨rfl, Suspicion.scan_of_asksFor (ComparedMessage.asksFor_missing hpos) _⟩

/-- A message whose first value holds the words between the values, and whose second value has
    brackets of its own. -/
def nestedMessage : ComparedMessage where
  before := "Failed: ".toList
  gap := [' ']
  expected := "a> but was: <b".toList
  middleGap := [' ']
  lastGap := [' ']
  actual := "<c>".toList
  after := " <d\n>".toList
  isGap := ComparedMessage.isBlank_of_mem_space
  isMiddleGap := ComparedMessage.isBlank_of_mem_space
  isLastGap := ComparedMessage.isBlank_of_mem_space
  notBefore h := absurd (Text.contains_iff_infix.mpr h) (by decide)
  expectedInLine := Text.forall_bne.mp (List.all_eq_true.mp (by decide))
  actualInLine := Text.forall_bne.mp (List.all_eq_true.mp (by decide))
  notActual h := absurd (Text.contains_iff_infix.mpr h) (by decide)
  notAfter h := absurd (Text.contains_iff_infix.mpr h) (by decide)
  unclosed := Text.forall_bne.mp (List.all_eq_true.mp (by decide))

/-- Brackets in the values, and a source that returns nothing where three items were expected. -/
theorem reconstruct_compared_nested :
    Assertion.ofMessage? "Failed: expected: <a> but was: <b> but was: <<c>> <d\n>"
        = some ⟨"a> but was: <b", "<c>"⟩
      ∧ 0 < (3 : UInt64)
      ∧ (FailureRecord.saying .failure "expected: <3> but was: <0>").message
        = s!"expected: <{(3 : UInt64)}> but was: <0>"
      ∧ ∀ source ∈ (returningNothing.reconstruct ⟨2024, 1, 1, 0, 0, 0, 0⟩
            (.saying .failure "expected: <3> but was: <0>")).value.related,
          source.content = (returningNothing.files.readText source.path).toOption.getD ""
          ∧ source.suspicions = (Text.lines source.content.toList).zipIdx.flatMap
            fun (line, index) => Suspicion.ofLine 3 (index + 1) line := by
  have htext : String.ofList nestedMessage.text
      = "Failed: expected: <a> but was: <b> but was: <<c>> <d\n>" := by decide +kernel
  have hmessage : (FailureRecord.saying .failure "expected: <3> but was: <0>").message
      = s!"expected: <{(3 : UInt64)}> but was: <0>" := by decide +kernel
  refine ⟨?_, by decide, hmessage, (reconstruct_compared.2 _ _ _ 3 (by decide) hmessage).2⟩
  exact (congrArg Assertion.ofMessage? htext).symm.trans (reconstruct_compared.1 nestedMessage)

end Workspace

end FailureTriage
