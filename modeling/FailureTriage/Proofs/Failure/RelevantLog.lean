import FailureTriage.Failure.Output
import FailureTriage.Proofs.Pattern.Matching
import FailureTriage.Proofs.Text.LineEnds
import FailureTriage.Proofs.Text.Words
import Mathlib.Data.List.Forall2

/-!
# What is kept of captured output

Of captured output exactly the lines are kept that tell of a problem.  The blanks around a line do
not decide whether it does, so nothing changes when what is kept is filtered once more.

* `Output.Tells`: a line that tells of a problem, said without patterns.
* `Output.problem_occursIn_iff`: which lines the pattern occurs in.
* `Output.keptLines`: the lines that are kept of a text.
* `Output.relevantLog_kept`: what is kept within a limit and beyond it.
-/

namespace FailureTriage

namespace Pattern

variable {a z : Place}

/-- Whether a text has the letters of another one, in any case. -/
def InAnyCase (letters text : List Char) : Prop :=
  List.Forall₂ (fun letter c => sameLetter letter c = true) letters text

theorem spells_anyCase (text : String) : (anyCase text).Spells (InAnyCase text.toList) := by
  rw [anyCase]
  induction text.toList with
  | nil => exact spells_empty.congr fun _ => Iff.symm List.forall₂_nil_left_iff
  | cons letter letters ih =>
      refine (Spells.sequence_cons spells_one ih).congr fun other => ?_
      constructor
      · rintro ⟨_, more, rfl, ⟨c, rfl, hc⟩, hmore⟩
        exact List.Forall₂.cons hc hmore
      · rintro (_ | ⟨hc, hmore⟩)
        exact ⟨[_], _, rfl, ⟨_, rfl, hc⟩, hmore⟩

/-- One of several patterns is matched. -/
theorem matches_anyOf {ps : List Pattern} :
    (anyOf ps).Matches a z ↔ ∃ p ∈ ps, p.Matches a z := by
  have hnone : ¬ (one fun _ => false).Matches a z := by
    rintro ⟨_, _, _, hc, _⟩
    cases hc
  induction ps with
  | nil => exact iff_of_false hnone fun ⟨_, hmem, _⟩ => absurd hmem List.not_mem_nil
  | cons p ps ih =>
      have hstep : (anyOf (p :: ps)).Matches a z ↔ p.Matches a z ∨ (anyOf ps).Matches a z := by
        cases ps with
        | nil => exact (or_iff_left hnone).symm
        | cons q ps => exact Iff.rfl
      exact hstep.trans ((or_congr_right ih).trans
        (List.exists_mem_cons_iff (fun p : Pattern => p.Matches a z) p ps).symm)

end Pattern

namespace Output

open Pattern Text

/-! ## Lines that tell of a problem -/

/-- The words that tell of a problem wherever they stand. -/
def signs : List String :=
  ["ERROR", "WARN", "Exception:", "Caused by", "AssertionFailedError", "expected:", "actual:"]

/-- The word for a failure, with no part of a word before it. -/
def failMark : Pattern :=
  sequence [.wordEdge, anyCase "FAIL", opt (anyCase "URE"), opt (anyCase "!")]

/-- Whether a line tells of a problem: by one of the signs, or by the word for a failure. -/
def Tells (line : List Char) : Prop :=
  ∃ before word after, line = before ++ (word ++ after)
    ∧ ((∃ sign ∈ signs, InAnyCase sign.toList word)
      ∨ (InAnyCase "FAIL".toList word ∧ before.getLast?.any isWord = false))

variable {line word before after : List Char}

/-- A letter of the alphabet is part of a word in any case. -/
theorem isWord_of_toLower {c : Char} (h : c.toLower = 'f') : isWord c = true := by
  by_cases hupper : c.val ≥ 'A'.val ∧ c.val ≤ 'Z'.val
  · have hlower : c.toLower = ⟨c.val + ('a'.val - 'A'.val), _⟩ := dif_pos hupper
    have hval := congrArg Char.val (hlower.symm.trans h)
    have hc : c.val = 'F'.val := (UInt32.add_left_inj ('a'.val - 'A'.val)).mp hval
    rw [Char.ext hc]
    decide
  · have hlower : c.toLower = c := dif_neg hupper
    rw [hlower.symm.trans h]
    decide

/-- The word for a failure starts with a part of a word. -/
theorem isWord_of_fail (h : InAnyCase "FAIL".toList word) :
    ∃ c more, word = c :: more ∧ isWord c = true := by
  obtain ⟨c, more, hc, -, rfl⟩ := List.forall₂_cons_left_iff.mp h
  have hletter : sameLetter 'F' c = true := hc
  exact ⟨c, more, rfl, isWord_of_toLower (by simpa [sameLetter] using hletter)⟩

/-- **Where a line tells of a problem**: where the pattern occurs. -/
theorem problem_occursIn_iff : problem.occursIn line = true ↔ Tells line := by
  have hproblem : problem = anyOf (signs.map anyCase ++ [failMark]) := rfl
  rw [occursIn_iff, hproblem]
  constructor
  · rintro ⟨position, -, z, hz⟩
    obtain ⟨p, hp, hz⟩ := matches_anyOf.mp hz
    refine ⟨line.take position, ?_⟩
    rcases List.mem_append.mp hp with hp | hp
    · obtain ⟨sign, hsign, rfl⟩ := List.mem_map.mp hp
      obtain ⟨word, after, hrest, hword, -⟩ := (spells_anyCase sign _ _).mp hz
      refine ⟨word, after, ?_, Or.inl ⟨sign, hsign, hword⟩⟩
      rw [← show line.drop position = word ++ after from hrest, List.take_append_drop]
    · rw [List.mem_singleton.mp hp, failMark] at hz
      obtain ⟨_, ⟨rfl, hedge⟩, hz⟩ := matches_sequence_cons.mp hz
      obtain ⟨b, hfail, -⟩ := matches_sequence_cons.mp hz
      obtain ⟨word, after, hrest, hword, -⟩ := (spells_anyCase "FAIL" _ _).mp hfail
      obtain ⟨c, more, rfl, hc⟩ := isWord_of_fail hword
      refine ⟨c :: more, after, ?_, Or.inr ⟨hword, ?_⟩⟩
      · rw [← show line.drop position = c :: more ++ after from hrest, List.take_append_drop]
      · rw [hrest] at hedge
        exact Bool.eq_false_iff.mpr fun hbefore => hedge (hbefore.trans hc.symm)
  · rintro ⟨before, word, after, rfl, hword⟩
    refine ⟨before.length, by simp, ?_⟩
    rw [inText_append]
    rcases hword with ⟨sign, hsign, hword⟩ | ⟨hword, hbefore⟩
    · refine ⟨_, matches_anyOf.mpr ⟨anyCase sign, ?_, (spells_anyCase sign).matches_past hword rfl⟩⟩
      exact List.mem_append_left _ (List.mem_map_of_mem hsign)
    · obtain ⟨c, more, rfl, hc⟩ := isWord_of_fail hword
      let start : Place := ⟨before.length, before.getLast?, c :: more ++ after⟩
      have hedge : wordEdge.Matches start start := by
        refine ⟨rfl, ?_⟩
        show before.getLast?.any isWord ≠ isWord c
        rw [hbefore, hc]
        exact Bool.false_ne_true
      have hfail : (anyCase "FAIL").Matches start (start.past (c :: more) after) :=
        (spells_anyCase "FAIL").matches_past hword rfl
      -- what may follow the word need not be there
      have hopt : ∀ (p : Pattern) (a : Place), (opt p).Matches a a := fun _ _ => Or.inr rfl
      have hmark : failMark.Matches start (start.past (c :: more) after) :=
        matches_sequence_cons.mpr ⟨_, hedge, matches_sequence_cons.mpr
          ⟨_, hfail, matches_sequence_cons.mpr ⟨_, hopt (anyCase "URE") _, hopt (anyCase "!") _⟩⟩⟩
      exact ⟨_, matches_anyOf.mpr ⟨failMark, List.mem_append_right _ List.mem_cons_self, hmark⟩⟩

/-! ## Blanks around a line -/

/-- The letters that the words for a problem start and end with. -/
def outerLetters : List Char :=
  "EWCAeaFRN:yrL".toList

/-- A blank is none of these letters. -/
theorem sameLetter_blank {letter c : Char} (hletter : letter ∈ outerLetters)
    (hc : isBlank c = true) : sameLetter letter c = false := by
  have hnone : (blankCodes.all fun n => outerLetters.all fun l => !sameLetter l (Char.ofNat n))
      = true := by decide +kernel
  have h := List.all_eq_true.mp (List.all_eq_true.mp hnone _ (toNat_mem_blankCodes hc)) letter
    hletter
  rwa [Char.ofNat_toNat, Bool.not_eq_true'] at h

/-- The words for a problem start and end with no blank. -/
theorem not_blank_of_inAnyCase {sign : String} (hsign : sign ∈ "FAIL" :: signs)
    (h : InAnyCase sign.toList word) :
    (∃ c more, word = c :: more ∧ isBlank c = false)
      ∧ ∃ more c, word = more ++ [c] ∧ isBlank c = false := by
  have houter : ∀ s ∈ "FAIL" :: signs, s.toList.head?.any outerLetters.contains = true
      ∧ s.toList.getLast?.any outerLetters.contains = true := by decide +kernel
  obtain ⟨hhead, hend⟩ := houter sign hsign
  obtain ⟨first, hhead, hfirst⟩ := (Option.any_eq_true ..).mp hhead
  obtain ⟨last, hend, hlast⟩ := (Option.any_eq_true ..).mp hend
  rw [List.contains_iff_mem] at hfirst hlast
  constructor
  · obtain ⟨letters, hletters⟩ := List.head?_eq_some_iff.mp hhead
    rw [hletters] at h
    obtain ⟨c, more, hc, -, rfl⟩ := List.forall₂_cons_left_iff.mp h
    refine ⟨c, more, rfl, Bool.eq_false_iff.mpr fun hblank => ?_⟩
    rw [sameLetter_blank hfirst hblank] at hc
    cases hc
  · obtain ⟨letters, hletters⟩ := List.getLast?_eq_some_iff.mp hend
    rw [hletters] at h
    have hreverse := List.rel_reverse h
    rw [List.reverse_append] at hreverse
    obtain ⟨c, more, hc, -, hword⟩ := List.forall₂_cons_left_iff.mp hreverse
    refine ⟨more.reverse, c, ?_, Bool.eq_false_iff.mpr fun hblank => ?_⟩
    · rw [← List.reverse_cons, ← hword, List.reverse_reverse]
    · rw [sameLetter_blank hlast hblank] at hc
      cases hc

/-- The word of a line that tells of a problem starts and ends with no blank. -/
theorem not_blank_of_tells
    (h : (∃ sign ∈ signs, InAnyCase sign.toList word)
      ∨ (InAnyCase "FAIL".toList word ∧ before.getLast?.any isWord = false)) :
    (∃ c more, word = c :: more ∧ isBlank c = false)
      ∧ ∃ more c, word = more ++ [c] ∧ isBlank c = false := by
  rcases h with ⟨sign, hsign, hword⟩ | ⟨hword, -⟩
  · exact not_blank_of_inAnyCase (List.mem_cons_of_mem _ hsign) hword
  · exact not_blank_of_inAnyCase List.mem_cons_self hword

/-- A line that tells of a problem is not blank. -/
theorem Tells.hasText (h : Tells line) : HasText line := by
  obtain ⟨before, word, after, rfl, hword⟩ := h
  obtain ⟨⟨c, more, rfl, hc⟩, -⟩ := not_blank_of_tells hword
  exact ⟨c, by simp, hc⟩

/-- **A blank behind a line** does not decide whether it tells of a problem. -/
theorem tells_concat {c : Char} (hc : isBlank c = true) : Tells (line ++ [c]) ↔ Tells line := by
  constructor
  · rintro ⟨before, word, after, hline, hword⟩
    rcases List.eq_nil_or_concat after with rfl | ⟨rest, d, rfl⟩
    · -- the line would end with the word, and so with no blank
      obtain ⟨-, more, d, rfl, hd⟩ := not_blank_of_tells hword
      rw [List.append_nil, ← List.append_assoc] at hline
      have hsame := List.head_eq_of_cons_eq (List.append_inj' hline rfl).2
      rw [hsame, hd] at hc
      cases hc
    · rw [List.concat_eq_append, ← List.append_assoc, ← List.append_assoc] at hline
      refine ⟨before, word, rest, ?_, hword⟩
      rw [← List.append_assoc]
      exact (List.append_inj' hline rfl).1
  · rintro ⟨before, word, after, rfl, hword⟩
    exact ⟨before, word, after ++ [c], by simp only [List.append_assoc], hword⟩

/-- **A blank before a line** does not decide whether it tells of a problem. -/
theorem tells_cons {c : Char} (hc : isBlank c = true) : Tells (c :: line) ↔ Tells line := by
  have hedge : ∀ before : List Char,
      (c :: before).getLast?.any isWord = before.getLast?.any isWord := by
    intro before
    cases before with
    | nil => exact isWord_of_isBlank hc
    | cons d before => rw [List.getLast?_cons_cons]
  constructor
  · rintro ⟨before, word, after, hline, hword⟩
    cases before with
    | nil =>
        -- the line would start with the word, and so with no blank
        obtain ⟨⟨d, more, rfl, hd⟩, -⟩ := not_blank_of_tells hword
        rw [(List.cons.inj hline).1, hd] at hc
        cases hc
    | cons d before =>
        obtain ⟨rfl, rfl⟩ := List.cons.inj hline
        rw [hedge] at hword
        exact ⟨before, word, after, rfl, hword⟩
  · rintro ⟨before, word, after, rfl, hword⟩
    rw [← hedge] at hword
    exact ⟨c :: before, word, after, rfl, hword⟩

theorem tells_append (hafter : ∀ c ∈ after, isBlank c = true) :
    Tells (line ++ after) ↔ Tells line := by
  induction after generalizing line with
  | nil => rw [List.append_nil]
  | cons c after ih =>
      obtain ⟨hc, hafter⟩ := List.forall_mem_cons.mp hafter
      rw [List.append_cons, ih hafter, tells_concat hc]

theorem tells_padded (hbefore : ∀ c ∈ before, isBlank c = true) :
    Tells (before ++ line) ↔ Tells line := by
  induction before with
  | nil => rfl
  | cons c before ih =>
      obtain ⟨hc, hbefore⟩ := List.forall_mem_cons.mp hbefore
      rw [List.cons_append, tells_cons hc, ih hbefore]

theorem tells_trimEnd : Tells (trimEnd line) ↔ Tells line := by
  obtain ⟨after, hline, hblank⟩ := exists_eq_trimEnd_append line
  rw [← tells_append hblank, ← hline]

theorem tells_trimStart : Tells (trimStart line) ↔ Tells line := by
  obtain ⟨before, hline, hblank⟩ := exists_eq_append_trimStart line
  rw [← tells_padded hblank, ← hline]

/-! ## The lines that are kept -/

/-- What a line that tells of a problem leaves: the line without the blanks behind it. -/
def problem? (line : List Char) : Option (List Char) :=
  if problem.occursIn line then some (trimEnd line) else none

/-- The lines of a text that tell of a problem, without the blanks behind them. -/
def told (text : List Char) : List (List Char) :=
  ((lines text).filter problem.occursIn).map trimEnd

/-- The lines that are kept of a text: those that tell of a problem, without the blanks behind them,
    and the first of them without the blanks before it. -/
def keptLines (text : List Char) : List (List Char) :=
  (told text).modifyHead trimStart

/-- The lines that are kept of a text, as one text. -/
def keptText (text : List Char) : List Char :=
  unlines (keptLines text)

variable {text row : List Char}

theorem problem?_of_tells (h : Tells line) : problem? line = some (trimEnd line) :=
  if_pos (problem_occursIn_iff.mpr h)

theorem problem?_of_not_tells (h : ¬ Tells line) : problem? line = none :=
  if_neg (mt problem_occursIn_iff.mp h)

theorem skipsEnd_problem? : SkipsEnd problem? where
  empty := problem?_of_not_tells fun h => nomatch h.hasText
  behind line c hc := by
    have htrim := trimEnd_padded (List.forall_mem_singleton.mpr hc) line
    by_cases h : Tells line
    · rw [problem?_of_tells h, problem?_of_tells ((tells_concat hc).mpr h), htrim]
    · rw [problem?_of_not_tells h, problem?_of_not_tells (mt (tells_concat hc).mp h)]

theorem told_eq (text : List Char) : told text = (lines text).filterMap problem? := by
  rw [told, ← List.filterMap_eq_filter, ← List.filterMap_eq_map, List.filterMap_filterMap]
  refine congrArg (List.filterMap · (lines text)) (funext fun line => ?_)
  rw [problem?, Option.guard]
  cases problem.occursIn line with
  | true => rfl
  | false => rfl

/-- A line is found to tell of a problem before or after it is trimmed. -/
theorem problemLines_eq (text : List Char) : problemLines text = told (trim text) := by
  have hsame : ∀ line, problem.occursIn (trimEnd line) = problem.occursIn line := by
    intro line
    rw [Bool.eq_iff_iff, problem_occursIn_iff, problem_occursIn_iff, tells_trimEnd]
  rw [problemLines, told, List.filter_map]
  exact congrArg (List.map trimEnd) (List.filter_congr fun line _ => hsame line)

/-- The blanks before a text are at most the blanks before the first line that is kept. -/
theorem keptLines_padded (hbefore : ∀ c ∈ before, isBlank c = true) (text : List Char) :
    keptLines (before ++ text) = keptLines text := by
  rw [keptLines, keptLines, told_eq, told_eq, skipsEnd_problem?.filterMap_lines,
    skipsEnd_problem?.filterMap_lines]
  induction before with
  | nil => rfl
  | cons c before ih =>
      obtain ⟨hc, hbefore⟩ := List.forall_mem_cons.mp hbefore
      rw [List.cons_append, ← ih hbefore]
      by_cases hfeed : c = '\n'
      · rw [hfeed, splitOn_cons_separator, List.filterMap_cons_none skipsEnd_problem?.empty]
      obtain ⟨first, rest, hparts⟩ := exists_splitOn '\n' (before ++ text)
      rw [splitOn_cons hfeed hparts, hparts]
      by_cases hfirst : Tells first
      · -- the blank is lost with the others before the line
        have hmore : trimEnd (c :: first) = c :: trimEnd first :=
          trimEnd_append hfirst.hasText [c]
        rw [List.filterMap_cons_some (problem?_of_tells hfirst),
          List.filterMap_cons_some (problem?_of_tells ((tells_cons hc).mpr hfirst)), hmore,
          List.modifyHead_cons, List.modifyHead_cons, trimStart, List.dropWhile_cons_of_pos hc,
          trimStart]
      · rw [List.filterMap_cons_none (problem?_of_not_tells hfirst),
          List.filterMap_cons_none (problem?_of_not_tells (mt (tells_cons hc).mp hfirst))]

/-- Trimming a text makes no difference to the lines that are kept. -/
theorem keptLines_trim (text : List Char) : keptLines (trim text) = keptLines text := by
  obtain ⟨before, hbefore, hblank⟩ := exists_eq_append_trimStart text
  have hend : told (trim text) = told (trimStart text) := by
    rw [told_eq, told_eq, trim, skipsEnd_problem?.filterMap_lines_trimEnd]
  rw [keptLines, hend, ← keptLines, ← keptLines_padded hblank, ← hbefore]

/-! ## What is kept is kept again -/

/-- Whether a text is a line that tells of a problem, without blanks behind it. -/
structure IsTold (row : List Char) : Prop where
  tells : Tells row
  ended : trimEnd row = row
  feed : '\n' ∉ row

/-- The lines that tell of a problem do so when the blanks behind them are left out. -/
theorem isTold_of_mem (h : row ∈ told text) : IsTold row := by
  obtain ⟨line, hline, rfl⟩ := List.mem_map.mp h
  obtain ⟨hline, hproblem⟩ := List.mem_filter.mp hline
  exact {
    tells := tells_trimEnd.mpr (problem_occursIn_iff.mp hproblem)
    ended := List.rdropWhile_idempotent isBlank line
    feed := fun hmem =>
      not_mem_of_mem_lines hline ((List.rdropWhile_prefix isBlank line).subset hmem) }

/-- Such a line is one without the blanks before it, too. -/
theorem IsTold.trimStart (h : IsTold row) : IsTold (trimStart row) := by
  have htells := tells_trimStart.mpr h.tells
  obtain ⟨before, hrow, -⟩ := exists_eq_append_trimStart row
  refine ⟨htells, ?_, fun hmem => h.feed ((List.dropWhile_suffix isBlank).subset hmem)⟩
  have hended := h.ended
  rw [hrow, trimEnd_append htells.hasText] at hended
  exact List.append_cancel_left hended

theorem isTold_of_mem_keptLines (h : row ∈ keptLines text) : IsTold row := by
  rw [keptLines] at h
  cases htold : told text with
  | nil =>
      rw [htold] at h
      cases h
  | cons first rest =>
      have hall : ∀ row ∈ first :: rest, IsTold row := fun row hrow =>
        isTold_of_mem (htold ▸ hrow)
      rw [htold, List.modifyHead_cons] at h
      rcases List.mem_cons.mp h with rfl | h
      · exact (hall first List.mem_cons_self).trimStart
      · exact hall row (List.mem_cons_of_mem _ h)

/-- The lines that are kept are the lines of the text they are put together to. -/
theorem lines_keptText (text : List Char) : lines (keptText text) = keptLines text := by
  refine lines_unlines (fun row hrow => (isTold_of_mem_keptLines hrow).feed) ?_ ?_
  · intro row hrow hnil
    obtain ⟨c, hc, -⟩ := (isTold_of_mem_keptLines hrow).tells.hasText
    rw [hnil] at hc
    cases hc
  · intro row hrow hlast
    -- a carriage return at its end would have been trimmed
    cases isBlank_getLast (isTold_of_mem_keptLines hrow).ended hlast

/-- **What is kept is kept again**, all of it. -/
theorem keptLines_keptText (text : List Char) : keptLines (keptText text) = keptLines text := by
  have hall : ∀ row ∈ keptLines text, IsTold row := fun row => isTold_of_mem_keptLines
  have htold : told (keptText text) = keptLines text := by
    rw [told, lines_keptText, List.filter_eq_self.mpr fun row hrow =>
      problem_occursIn_iff.mpr (hall row hrow).tells]
    exact (List.map_congr_left fun row hrow => (hall row hrow).ended).trans (List.map_id _)
  rw [keptLines, htold, keptLines]
  cases told text with
  | nil => rfl
  | cons first rest =>
      rw [List.modifyHead_cons, List.modifyHead_cons, trimStart, trimStart,
        List.dropWhile_idempotent]

/-! ## Within the limit and beyond it -/

/-- Only the first line loses blanks when the lines that tell of a problem are put together and
    trimmed. -/
theorem trim_unlines_told (text : List Char) : trim (unlines (told text)) = keptText text := by
  have hall : ∀ row ∈ told text, IsTold row := fun row => isTold_of_mem
  rw [keptText, keptLines]
  cases htold : told text with
  | nil => rfl
  | cons first rest =>
      rw [htold] at hall
      obtain ⟨hfirst, hrest⟩ := List.forall_mem_cons.mp hall
      have hkept : ∀ row ∈ trimStart first :: rest, HasText row ∧ trimEnd row = row :=
        List.forall_mem_cons.mpr ⟨⟨hfirst.trimStart.tells.hasText, hfirst.trimStart.ended⟩,
          fun row hrow => ⟨(hrest row hrow).tells.hasText, (hrest row hrow).ended⟩⟩
      rw [trim, trimStart_unlines hfirst.tells.hasText, trimEnd_unlines hkept]
      rfl

theorem relevantLog_eq (limit : Nat) (text : String) :
    relevantLog limit text
      = String.ofList (if (keptText text.toList).length ≤ limit then keptText text.toList
          else (keptText text.toList).take limit
            ++ truncationNote ((keptText text.toList).length - limit)) := by
  have htrim : trim (unlines (problemLines text.toList)) = keptText text.toList := by
    rw [problemLines_eq, trim_unlines_told, keptText, keptLines_trim, keptText]
  rw [relevantLog, excerpt, htrim]

/-- The note as it is read behind a text. -/
theorem ofList_truncationNote (start : List Char) (dropped : Nat) :
    String.ofList (start ++ truncationNote dropped)
      = String.ofList start ++ "\n...[truncated " ++ toString dropped ++ " characters]" := by
  have hdigits : natDigits dropped = (toString dropped).toList := String.toList_ofList.symm
  -- the letters of the two words do not matter
  have hwords : ∀ u v : String,
      String.ofList (start ++ (u.toList ++ natDigits dropped ++ v.toList))
        = String.ofList start ++ u ++ toString dropped ++ v := by
    intro u v
    simp only [hdigits, String.ofList_append, String.ofList_toList, String.append_assoc]
  exact hwords "\n...[truncated " " characters]"

/-- **What is kept of captured output**, if it fits within the limit, are the lines that tell of a
    problem, all of them in their order, without the blanks behind them and before the first of
    them; filtering them once more leaves them as they are.  Of a longer text the start is kept,
    followed by a note on the number of characters that are missing. -/
theorem relevantLog_kept (limit : Nat) (text : String) :
    ((keptText text.toList).length ≤ limit →
      lines (relevantLog limit text).toList = keptLines text.toList
      ∧ (relevantLog limit text).toList = keptText text.toList
      ∧ relevantLog limit (relevantLog limit text) = relevantLog limit text)
    ∧ (limit < (keptText text.toList).length →
      relevantLog limit text
        = String.ofList ((keptText text.toList).take limit) ++ "\n...[truncated "
          ++ toString ((keptText text.toList).length - limit) ++ " characters]") := by
  constructor
  · intro hfits
    have hkept : (relevantLog limit text).toList = keptText text.toList := by
      rw [relevantLog_eq, if_pos hfits, String.toList_ofList]
    have hagain : keptText (keptText text.toList) = keptText text.toList := by
      rw [keptText, keptLines_keptText, keptText]
    refine ⟨?_, hkept, ?_⟩
    · rw [hkept, lines_keptText]
    · rw [relevantLog_eq, relevantLog_eq limit text, if_pos hfits, String.toList_ofList, hagain,
        if_pos hfits]
  · intro hlong
    rw [relevantLog_eq, if_neg (Nat.not_le.mpr hlong), ofList_truncationNote]

/-- Captured output with an indented line, a lone carriage return and a line that passes. -/
def mixedOutput : String :=
  "\n  start\n  ERROR one \r\r\n all well\r\n\tprefail\n a failure!\rof two\u2003\n"

/-- Captured output of which two lines are kept, whole and in part. -/
theorem relevantLog_kept_mixedOutput :
    (keptText mixedOutput.toList).length ≤ 40
    ∧ 12 < (keptText mixedOutput.toList).length
    ∧ (lines (relevantLog 40 mixedOutput).toList = keptLines mixedOutput.toList
      ∧ (relevantLog 40 mixedOutput).toList = keptText mixedOutput.toList
      ∧ relevantLog 40 (relevantLog 40 mixedOutput) = relevantLog 40 mixedOutput)
    ∧ relevantLog 12 mixedOutput
      = String.ofList ((keptText mixedOutput.toList).take 12) ++ "\n...[truncated "
        ++ toString ((keptText mixedOutput.toList).length - 12) ++ " characters]" := by
  have hfits : (keptText mixedOutput.toList).length ≤ 40 := by decide +kernel
  have hlong : 12 < (keptText mixedOutput.toList).length := by decide +kernel
  exact ⟨hfits, hlong, (relevantLog_kept 40 mixedOutput).1 hfits,
    (relevantLog_kept 12 mixedOutput).2 hlong⟩

end Output

end FailureTriage
