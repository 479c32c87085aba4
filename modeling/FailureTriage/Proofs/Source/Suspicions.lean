import FailureTriage.Proofs.Source.Comparisons

/-!
# Which lines are suspicious

Which suspicions a source text arouses, for every text and every two values of an assertion: their
order and the lines they are about, and for each line whether a threshold on it is held to shut out
the expected count.  The rule takes any threshold that is not below the expected count, also in
`count >= n`, which the expected count passes.

* `OpensCondition`: a line that starts with a condition, said without patterns.
* `Aroused`: what the suspicions about a text are.
* `scan_aroused`: all suspicions about a text.
* `offByOne_excludes_iff`: when a threshold shuts out the expected count indeed.
-/

namespace FailureTriage

/-- The place of a kind in the order of the rules. -/
def SuspicionKind.rank : SuspicionKind → Nat
  | .offByOne => 0
  | .sizeCheck => 1
  | .emptyReturn => 2

namespace Suspicion

open Pattern

/-! ## Conditions -/

/-- The words that open a condition. -/
inductive IsKeyword : List Char → Prop where
  | ifWord : IsKeyword "if".toList
  | elseIf {gap : List Char} : gap ≠ [] → (∀ c ∈ gap, Text.isBlank c = true) →
      IsKeyword ("else".toList ++ gap ++ "if".toList)
  | whileWord : IsKeyword "while".toList

/-- What may stand before the words that open a condition: nothing, or a closing brace and
    blanks. -/
def IsBrace (text : List Char) : Prop :=
  text = [] ∨ ∃ gap, text = '\x7d' :: gap ∧ ∀ c ∈ gap, Text.isBlank c = true

/-- Whether a line starts with a condition: with whole words that open one. -/
def OpensCondition (line : List Char) : Prop :=
  ∃ brace keyword rest, line = brace ++ keyword ++ rest ∧ IsBrace brace ∧ IsKeyword keyword
    ∧ rest.head?.any Text.isWord = false

theorem spells_brace : (opt (sequence [.one (· == '\x7d'), blanks])).Spells IsBrace := by
  refine ((spells_one.seq spells_run).alt spells_empty).congr fun text => ?_
  constructor
  · rintro (⟨_, gap, rfl, ⟨c, rfl, hc⟩, hgap⟩ | rfl)
    · rw [eq_of_beq hc]
      exact Or.inr ⟨gap, rfl, hgap⟩
    · exact Or.inl rfl
  · rintro (rfl | ⟨gap, rfl, hgap⟩)
    · exact Or.inr rfl
    · exact Or.inl ⟨['\x7d'], gap, rfl, ⟨_, rfl, beq_self_eq_true _⟩, hgap⟩

theorem spells_keyword :
    (anyOf [word "if", sequence [word "else", blanks1, word "if"], word "while"]).Spells
      IsKeyword := by
  have hblanks : blanks1.Spells _ := spells_oneOrMore
  have helse := (spells_literal "else".toList).seq (hblanks.seq (spells_literal "if".toList))
  refine ((spells_literal _).alt (helse.alt (spells_literal _))).congr fun text => ?_
  constructor
  · rintro (rfl | ⟨_, _, rfl, rfl, gap, _, rfl, ⟨hne, hgap⟩, rfl⟩ | rfl)
    · exact .ifWord
    · rw [← List.append_assoc]
      exact .elseIf hne hgap
    · exact .whileWord
  · rintro (_ | ⟨hne, hgap⟩ | _)
    · exact Or.inl rfl
    · exact Or.inr (Or.inl ⟨_, _, List.append_assoc .., rfl, _, _, rfl, ⟨hne, hgap⟩, rfl⟩)
    · exact Or.inr (Or.inr rfl)

/-- The words that open a condition end in a letter. -/
theorem IsKeyword.exists_getLast? {keyword : List Char} (h : IsKeyword keyword) :
    ∃ c, keyword.getLast? = some c ∧ Text.isWord c = true := by
  cases h with
  | ifWord => exact ⟨'f', rfl, by decide⟩
  | elseIf => exact ⟨'f', List.getLast?_append_of_ne_nil _ (List.cons_ne_nil _ _), by decide⟩
  | whileWord => exact ⟨'e', rfl, by decide⟩

/-- Behind the words that open a condition a word ends where none goes on. -/
theorem IsKeyword.edge_iff {keyword rest : List Char} (h : IsKeyword keyword) (a : Place) :
    (a.past keyword rest).before.any Text.isWord ≠ rest.head?.any Text.isWord
      ↔ rest.head?.any Text.isWord = false := by
  obtain ⟨c, hlast, hc⟩ := h.exists_getLast?
  have hbefore : (a.past keyword rest).before = some c := by
    rw [Place.past, hlast, Option.some_or]
  rw [hbefore, Option.any_some, hc, ne_comm, Ne, Bool.not_eq_true]

/-- **A line is a condition** exactly if it starts with one. -/
theorem conditional_occursIn {line : List Char} :
    conditional.occursIn line = true ↔ OpensCondition line := by
  rw [occursIn_iff]
  constructor
  · rintro ⟨position, hle, z, b, ⟨rfl, hstart⟩, b', hfirst, b'', hsecond, rfl, hedge⟩
    obtain rfl := start_of_inText hle hstart
    obtain ⟨brace, rest, hline, hbrace, rfl⟩ := (spells_brace _ _).mp hfirst
    obtain ⟨keyword, rest, rfl, hkeyword, rfl⟩ := (spells_keyword _ _).mp hsecond
    refine ⟨brace, keyword, rest, ?_, hbrace, hkeyword, (hkeyword.edge_iff _).mp hedge⟩
    rw [List.append_assoc]
    exact hline
  · rintro ⟨brace, keyword, rest, rfl, hbrace, hkeyword, hend⟩
    let a := Place.inText (brace ++ keyword ++ rest) 0
    have hrest : a.rest = brace ++ (keyword ++ rest) := List.append_assoc ..
    refine ⟨0, Nat.zero_le _, (a.past brace (keyword ++ rest)).past keyword rest, a, ⟨rfl, rfl⟩,
      _, (spells_brace _ _).mpr ⟨brace, _, hrest, hbrace, rfl⟩,
      _, (spells_keyword _ _).mpr ⟨keyword, rest, rfl, hkeyword, rfl⟩,
      rfl, (hkeyword.edge_iff _).mpr hend⟩

/-! ## A threshold on a line -/

/-- A letter of the word `count` in some case is that letter in lower case. -/
theorem lowerChar_eq {letter c : Char} (h : c.toLower = letter) (hmem : letter ∈ "count".toList) :
    Text.lowerChar c = [letter] := by
  rw [Text.lowerChar]
  split
  · rw [h]
  · rename_i hupper
    have hsame : c.toLower = c := dif_neg fun hrange => hupper (decide_eq_true hrange)
    obtain rfl := hsame.symm.trans h
    have hne : ∀ d, d ∉ "count".toList → c ≠ d := fun d hd heq => hd (heq ▸ hmem)
    rw [if_neg (hne '\u212A' (by decide)), if_neg (hne '\u0130' (by decide))]

/-- A line with a comparison mentions the word `count`. -/
theorem Comparison.StandsAt.mentions {c : Comparison} {line : List Char} {position : Nat}
    (h : c.StandsAt line position) : mentions ["count"] (Text.lower line) = true := by
  obtain ⟨tail, hproper, hrest, -⟩ := h
  have hword : Text.lower c.word = "count".toList := by
    rw [← hproper.word, Text.lower, List.map_eq_flatMap]
    refine List.flatMap_congr fun d hd => lowerChar_eq rfl ?_
    rw [← hproper.word]
    exact List.mem_map_of_mem hd
  have hin : c.word <:+: line := by
    have htext : c.word <+: c.text ++ tail := by
      rw [text]
      simp only [List.append_assoc]
      exact List.prefix_append _ _
    rw [← hrest] at htext
    exact htext.isInfix.trans (List.drop_suffix position line).isInfix
  obtain ⟨before, after, hline⟩ := hin
  rw [Suspicion.mentions, List.any_cons, List.any_nil, Bool.or_false, Text.contains_iff_infix,
    ← hword, ← hline]
  refine ⟨Text.lower before, Text.lower after, ?_⟩
  rw [Text.lower, Text.lower, Text.lower, Text.lower, List.flatMap_append, List.flatMap_append]

/-- What is said about a threshold. -/
def Comparator.condition (r : Comparator) (threshold : Nat) : String :=
  s!"count {r.sign} {threshold}"

/-- The suspicion that a threshold on a line shuts out the expected count. -/
def ofThreshold (expected number : Nat) (line : List Char) (r : Comparator) (threshold : Nat) :
    Suspicion where
  lineNumber := number
  lineContent := String.ofList line
  kind := .offByOne
  description := s!"Condition requires {r.condition threshold}, but test expects {expected} items"
  suggestedFix := s!"Change to \"count > 0\" or \"{Comparator.atLeast.condition expected}\""
  confidence := .high

theorem ofThreshold_eq (expected number : Nat) (line : List Char) (r : Comparator)
    (threshold : Nat) :
    ofThreshold expected number line r threshold = {
      lineNumber := number
      lineContent := String.ofList line
      kind := .offByOne
      description := s!"Condition requires count {r.sign} {threshold}, "
        ++ s!"but test expects {expected} items"
      suggestedFix := s!"Change to \"count > 0\" or \"count >= {expected}\""
      confidence := .high } := by
  have hfirst : "Condition requires count " = "Condition requires " ++ "count " := rfl
  have hsecond : ", but test expects " = ", " ++ "but test expects " := rfl
  rw [ofThreshold]
  congr 1
  simp only [Comparator.condition, toString, hfirst, hsecond, String.append_assoc]

/-- **The rule for thresholds**: a condition with a comparison that asks for too much. -/
theorem offByOne?_eq_some_iff {expected number : Nat} {line : List Char} {s : Suspicion} :
    offByOne? expected number line = some s
      ↔ OpensCondition line ∧ ∃ (c : Comparison) (position threshold : Nat),
        c.FirstFlagged expected threshold line position
          ∧ s = ofThreshold expected number line c.comparator threshold := by
  constructor
  · intro h
    rw [offByOne?] at h
    split at h
    · rename_i hboth
      obtain ⟨⟨sign, threshold⟩, htaken, rfl⟩ := Option.map_eq_some_iff.mp h
      obtain ⟨c, position, hfirst, rfl⟩ := excludingThreshold?_eq_some_iff.mp htaken
      exact ⟨conditional_occursIn.mp (Bool.and_eq_true_iff.mp hboth).1, c, position, threshold,
        hfirst, (ofThreshold_eq ..).symm⟩
    · cases h
  · -- that the line mentions the word is no further condition
    rintro ⟨hcondition, c, position, threshold, hfirst, rfl⟩
    have hboth := Bool.and_eq_true_iff.mpr
      ⟨conditional_occursIn.mpr hcondition, hfirst.stands.mentions⟩
    have htaken := excludingThreshold?_eq_some_iff.mpr ⟨c, position, hfirst, rfl⟩
    rw [offByOne?, if_pos hboth, htaken, ofThreshold_eq]
    rfl

/-! ## The suspicions about a line -/

/-- Whether a suspicion is of some kind and about a numbered line. -/
structure About (s : Suspicion) (number : Nat) (line : List Char) (kind : SuspicionKind) :
    Prop where
  lineNumber : s.lineNumber = number
  lineContent : s.lineContent = String.ofList line
  kind : s.kind = kind

variable {expected number : Nat} {line : List Char} {s : Suspicion}

theorem offByOne?_about (h : offByOne? expected number line = some s) :
    About s number line .offByOne := by
  obtain ⟨-, c, position, threshold, -, rfl⟩ := offByOne?_eq_some_iff.mp h
  exact ⟨rfl, rfl, rfl⟩

theorem sizeCheck?_about (h : sizeCheck? expected number line = some s) :
    About s number line .sizeCheck := by
  rw [sizeCheck?] at h
  split at h
  · obtain rfl := Option.some.inj h
    exact ⟨rfl, rfl, rfl⟩
  · cases h

theorem emptyReturn?_about (h : emptyReturn? number line = some s) :
    About s number line .emptyReturn := by
  rw [emptyReturn?] at h
  split at h
  · obtain rfl := Option.some.inj h
    exact ⟨rfl, rfl, rfl⟩
  · cases h

/-- What a rule finds is of its kind. -/
theorem sublist_kinds {found : Option Suspicion} {kind : SuspicionKind}
    (h : ∀ s, found = some s → About s number line kind) :
    (found.toList.map Suspicion.kind).Sublist [kind] := by
  cases found with
  | none => exact List.nil_sublist _
  | some s =>
      rw [Option.toList_some, List.map_singleton, (h s rfl).kind]

/-- **A line is flagged once** by each rule at most, and in the order of the rules. -/
theorem kinds_ofLine (expected number : Nat) (raw : List Char) :
    ((ofLine expected number raw).map Suspicion.kind).Sublist
      [.offByOne, .sizeCheck, .emptyReturn] := by
  rw [ofLine, List.map_append, List.map_append]
  exact ((sublist_kinds fun _ => offByOne?_about).append
    (sublist_kinds fun _ => sizeCheck?_about)).append (sublist_kinds fun _ => emptyReturn?_about)

theorem mem_ofLine {raw : List Char} :
    s ∈ ofLine expected number raw ↔ offByOne? expected number (Text.trim raw) = some s
      ∨ sizeCheck? expected number (Text.trim raw) = some s
      ∨ emptyReturn? number (Text.trim raw) = some s := by
  rw [ofLine, List.mem_append, List.mem_append, Option.mem_toList, Option.mem_toList,
    Option.mem_toList, or_assoc]

/-- Every suspicion about a line is about that line. -/
theorem about_of_mem_ofLine {raw : List Char} (h : s ∈ ofLine expected number raw) :
    About s number (Text.trim raw) s.kind := by
  rcases mem_ofLine.mp h with h | h | h
  · exact (offByOne?_about h).kind ▸ offByOne?_about h
  · exact (sizeCheck?_about h).kind ▸ sizeCheck?_about h
  · exact (emptyReturn?_about h).kind ▸ emptyReturn?_about h

/-- Only one of the rules is about thresholds. -/
theorem mem_ofLine_offByOne {raw : List Char} :
    s ∈ ofLine expected number raw ∧ s.kind = .offByOne
      ↔ offByOne? expected number (Text.trim raw) = some s := by
  constructor
  · rintro ⟨h, hkind⟩
    rcases mem_ofLine.mp h with h | h | h
    · exact h
    · exact absurd (hkind.symm.trans (sizeCheck?_about h).kind) nofun
    · exact absurd (hkind.symm.trans (emptyReturn?_about h).kind) nofun
  · exact fun h => ⟨mem_ofLine.mpr (Or.inl h), (offByOne?_about h).kind⟩

/-! ## The suspicions about a text -/

/-- Whether an assertion asks for some number of items, and got none. -/
structure AsksFor (expected actual : String) (count : Nat) : Prop where
  gotNone : Text.trim actual.toList = ['0']
  reads : Text.readNat? Text.maxWord64 (Text.trim expected.toList) = some count
  positive : 0 < count

/-- Whether a suspicion stands before another one: on an earlier line, or by an earlier rule. -/
def Precedes (s t : Suspicion) : Prop :=
  s.lineNumber < t.lineNumber ∨ s.lineNumber = t.lineNumber ∧ s.kind.rank < t.kind.rank

theorem Precedes.ne {s t : Suspicion} (h : Precedes s t) :
    (s.lineNumber, s.kind) ≠ (t.lineNumber, t.kind) := by
  intro heq
  obtain ⟨hnumber, hkind⟩ := Prod.mk.inj heq
  rcases h with hlt | ⟨-, hlt⟩
  · exact Nat.lt_irrefl _ (hnumber ▸ hlt)
  · exact Nat.lt_irrefl _ (hkind ▸ hlt)

/-- What the suspicions about a text are, given the expected number of items. -/
structure Aroused (source : List Char) (expected : Nat) (found : List Suspicion) : Prop where
  /-- They stand in line order, and on each line in the order of the rules. -/
  ordered : found.Pairwise Precedes
  /-- No line has two suspicions of one kind. -/
  distinct : (found.map fun s => (s.lineNumber, s.kind)).Nodup
  /-- Each is about a line of the text, which it holds without the blanks around it. -/
  placed : ∀ s ∈ found, 1 ≤ s.lineNumber ∧ s.lineNumber ≤ (Text.lines source).length
    ∧ ∃ raw, (Text.lines source)[s.lineNumber - 1]? = some raw
      ∧ s.lineContent = String.ofList (Text.trim raw)
  /-- A threshold is suspected on the lines that start with a condition and show a comparison that
      asks for too much. -/
  suspected : ∀ index raw, (Text.lines source)[index]? = some raw →
    ((∃ s ∈ found, s.lineNumber = index + 1 ∧ s.kind = .offByOne)
      ↔ OpensCondition (Text.trim raw) ∧ ∃ (c : Comparison) (position threshold : Nat),
        c.StandsAt (Text.trim raw) position ∧ c.Flagged expected threshold)
  /-- The suspicion names the leftmost of them. -/
  named : ∀ index raw, (Text.lines source)[index]? = some raw →
    ∀ s, (s ∈ found ∧ s.lineNumber = index + 1 ∧ s.kind = .offByOne)
      ↔ OpensCondition (Text.trim raw) ∧ ∃ (c : Comparison) (position threshold : Nat),
        c.FirstFlagged expected threshold (Text.trim raw) position
          ∧ s = ofThreshold expected (index + 1) (Text.trim raw) c.comparator threshold

variable {count : Nat} {actual expectedText source : String}

theorem missingCount?_eq_some_iff :
    missingCount? expectedText actual = some count ↔ AsksFor expectedText actual count := by
  rw [missingCount?]
  split
  · rename_i hnone
    rw [Option.filter_eq_some_iff, decide_eq_true_eq]
    exact ⟨fun ⟨hreads, hpos⟩ => ⟨hnone, hreads, hpos⟩, fun h => ⟨h.reads, h.positive⟩⟩
  · rename_i hnone
    exact iff_of_false nofun fun h => hnone h.gotNone

theorem scan_of_asksFor (h : AsksFor expectedText actual count) (source : String) :
    scan source expectedText actual
      = (Text.lines source.toList).zipIdx.flatMap fun (line, index) =>
          ofLine count (index + 1) line := by
  rw [scan, missingCount?_eq_some_iff.mpr h]

theorem mem_scan (h : AsksFor expectedText actual count) :
    s ∈ scan source expectedText actual ↔ ∃ index raw,
      (Text.lines source.toList)[index]? = some raw ∧ s ∈ ofLine count (index + 1) raw := by
  rw [scan_of_asksFor h, List.mem_flatMap]
  constructor
  · rintro ⟨⟨raw, index⟩, hline, hs⟩
    exact ⟨index, raw, List.mem_zipIdx_iff_getElem?.mp hline, hs⟩
  · rintro ⟨index, raw, hline, hs⟩
    exact ⟨(raw, index), List.mem_zipIdx_iff_getElem?.mpr hline, hs⟩

/-- The suspicions stand in line order, and on each line in the order of the rules. -/
theorem scan_pairwise (h : AsksFor expectedText actual count) :
    (scan source expectedText actual).Pairwise Precedes := by
  rw [scan_of_asksFor h, List.pairwise_flatMap]
  constructor
  · -- on one line
    rintro ⟨raw, index⟩ -
    have hranks : ((ofLine count (index + 1) raw).map Suspicion.kind).Pairwise
        fun k k' => k.rank < k'.rank :=
      List.Pairwise.sublist (kinds_ofLine count (index + 1) raw) (by decide)
    refine (List.pairwise_map.mp hranks).imp_of_mem fun hs ht hlt => Or.inr ⟨?_, hlt⟩
    rw [(about_of_mem_ofLine hs).lineNumber, (about_of_mem_ofLine ht).lineNumber]
  · -- on two lines
    have hindex : ((Text.lines source.toList).zipIdx.map Prod.snd).Pairwise (· < ·) := by
      rw [List.zipIdx_map_snd]
      exact List.pairwise_lt_range'
    refine (List.pairwise_map.mp hindex).imp ?_
    intro a b hlt s hs t ht
    refine Or.inl ?_
    rw [(about_of_mem_ofLine hs).lineNumber, (about_of_mem_ofLine ht).lineNumber]
    exact Nat.succ_lt_succ hlt

/-- The suspicions of one kind about a line are those that its rule finds. -/
theorem mem_scan_offByOne (h : AsksFor expectedText actual count) {index : Nat} {raw : List Char}
    (hline : (Text.lines source.toList)[index]? = some raw) :
    (s ∈ scan source expectedText actual ∧ s.lineNumber = index + 1 ∧ s.kind = .offByOne)
      ↔ offByOne? count (index + 1) (Text.trim raw) = some s := by
  rw [← mem_ofLine_offByOne, mem_scan h]
  constructor
  · rintro ⟨⟨index', raw', hline', hs⟩, hnumber, hkind⟩
    rw [(about_of_mem_ofLine hs).lineNumber] at hnumber
    obtain rfl := Nat.succ.inj hnumber
    obtain rfl := Option.some.inj (hline'.symm.trans hline)
    exact ⟨hs, hkind⟩
  · rintro ⟨hs, hkind⟩
    exact ⟨⟨index, raw, hline, hs⟩, (about_of_mem_ofLine hs).lineNumber, hkind⟩

/-- **The suspicions about a text**: none, unless an assertion asks for some number of items and got
    none, and then those that the rules find on each line, in order. -/
theorem scan_aroused (source expected actual : String) :
    ((∀ count, ¬ AsksFor expected actual count) → scan source expected actual = [])
      ∧ ∀ count, AsksFor expected actual count →
        Aroused source.toList count (scan source expected actual) := by
  constructor
  · intro hnone
    have hmissing : missingCount? expected actual = none :=
      Option.eq_none_iff_forall_ne_some.mpr fun count hcount =>
        hnone count (missingCount?_eq_some_iff.mp hcount)
    rw [scan, hmissing]
  · intro count hasks
    exact {
      ordered := scan_pairwise hasks
      distinct := List.pairwise_map.mpr ((scan_pairwise hasks).imp Precedes.ne)
      placed := by
        intro s hs
        obtain ⟨index, raw, hline, hs⟩ := (mem_scan hasks).mp hs
        have habout := about_of_mem_ofLine hs
        rw [habout.lineNumber]
        exact ⟨Nat.le_add_left 1 index, (List.getElem?_eq_some_iff.mp hline).1, raw, hline,
          habout.lineContent⟩
      suspected := by
        intro index raw hline
        simp only [mem_scan_offByOne hasks hline, offByOne?_eq_some_iff]
        constructor
        · rintro ⟨s, hcondition, c, position, threshold, hfirst, -⟩
          exact ⟨hcondition, c, position, threshold, hfirst.stands, hfirst.flagged⟩
        · rintro ⟨hcondition, c, position, threshold, hstands, hflagged⟩
          obtain ⟨c, position, threshold, hfirst⟩ := exists_firstFlagged ⟨c, hstands, hflagged⟩
          exact ⟨_, hcondition, c, position, threshold, hfirst, rfl⟩
      named := by
        intro index raw hline s
        rw [mem_scan_offByOne hasks hline, offByOne?_eq_some_iff] }

/-- A condition that opens behind a brace, with a comparison that does not ask for too much before
    one that does; a word that only starts like a condition; and an assertion that got items. -/
theorem scan_aroused_twoLines :
    (∀ count, ¬ AsksFor "3" "2" count) ∧ scan "if (count > 3) \x7b" "3" "2" = []
      ∧ AsksFor " 3 " "0" 3
      ∧ Aroused "\x7d else if (count < 1 || Count >5) \x7b\n iffy(count > 9);".toList 3
          (scan "\x7d else if (count < 1 || Count >5) \x7b\n iffy(count > 9);" " 3 " "0") := by
  have hsome : ∀ count, ¬ AsksFor "3" "2" count := fun count h =>
    absurd h.gotNone (by decide +kernel)
  have hnone : AsksFor " 3 " "0" 3 := ⟨by decide +kernel, by decide +kernel, by decide⟩
  exact ⟨hsome, (scan_aroused _ "3" "2").1 hsome, hnone, (scan_aroused _ " 3 " "0").2 3 hnone⟩

/-! ## What a threshold shuts out -/

/-- The text of a condition tells how it compares, and with which threshold. -/
theorem Comparator.condition_inj {r r' : Comparator} {threshold threshold' : Nat} :
    r.condition threshold = r'.condition threshold' ↔ r = r' ∧ threshold = threshold' := by
  refine ⟨fun h => ?_, fun ⟨hr, hthreshold⟩ => by rw [hr, hthreshold]⟩
  have htext : ∀ (r : Comparator) (threshold : Nat), (r.condition threshold).toList
      = "count ".toList ++ (r.sign.toList ++ ' ' :: Text.natDigits threshold) := by
    intro r threshold
    simp [condition, toString, Nat.repr_eq_ofList_toDigits, Text.natDigits]
  have hsign : ∀ r : Comparator, ' ' ∉ r.sign.toList := by
    intro r
    cases r <;> decide
  have hdigits : ' ' ∉ Text.natDigits threshold := fun hmem =>
    absurd (Text.isDigit_of_mem_natDigits hmem) (by decide)
  have hlist := congrArg String.toList h
  rw [htext, htext, List.append_cancel_left_eq] at hlist
  obtain ⟨hsigns, -, hthresholds⟩ :=
    (List.append_cons_inj_of_notMem (hsign r) hdigits).mp hlist
  refine ⟨sign_inj.mp (String.toList_inj.mp hsigns), ?_⟩
  rw [← Text.digitsValue_natDigits threshold, hthresholds, Text.digitsValue_natDigits]

/-- A count passes a condition that is suspected only at the threshold itself. -/
theorem Comparison.Flagged.holds_iff {c : Comparison} {threshold : Nat}
    (h : c.Flagged count threshold) :
    c.comparator.Holds count threshold ↔ c.comparator = .atLeast ∧ threshold = count := by
  rcases h.upward with hr | hr
  · rw [hr]
    exact iff_of_false (Nat.not_lt.mpr h.notBelow) fun hboth => nomatch hboth.1
  · rw [hr, and_iff_right rfl]
    exact ⟨fun hle => Nat.le_antisymm hle h.notBelow, fun heq => Nat.le_of_eq heq⟩

/-- **A threshold shuts out** the expected count, as the suspicion about it says, unless it is the
    expected count itself and asked for at least: then the condition is the suggested one. -/
theorem offByOne_excludes_iff (hasks : AsksFor expectedText actual count)
    (hs : s ∈ scan source expectedText actual) (hkind : s.kind = .offByOne) :
    ∃ (raw : List Char) (c : Comparison) (position threshold : Nat),
      (Text.lines source.toList)[s.lineNumber - 1]? = some raw
      ∧ c.FirstFlagged count threshold (Text.trim raw) position
      ∧ s = ofThreshold count s.lineNumber (Text.trim raw) c.comparator threshold
      ∧ (c.comparator.Holds count threshold ↔ c.comparator = .atLeast ∧ threshold = count)
      ∧ (c.comparator.condition threshold = Comparator.atLeast.condition count
        ↔ c.comparator = .atLeast ∧ threshold = count) := by
  obtain ⟨index, raw, hline, hmem⟩ := (mem_scan hasks).mp hs
  obtain ⟨-, c, position, threshold, hfirst, rfl⟩ :=
    offByOne?_eq_some_iff.mp (mem_ofLine_offByOne.mp ⟨hmem, hkind⟩)
  exact ⟨raw, c, position, threshold, hline, hfirst, rfl, hfirst.flagged.holds_iff,
    Comparator.condition_inj⟩

/-- The condition asks for more than the expected count. -/
theorem offByOne_excludes_above :
    AsksFor "3" "0" 3
      ∧ ofThreshold 3 1 "if (count > 3) \x7b".toList .above 3 ∈ scan "if (count > 3) \x7b" "3" "0"
      ∧ ∃ (raw : List Char) (c : Comparison) (position threshold : Nat),
        c.FirstFlagged 3 threshold (Text.trim raw) position
          ∧ (c.comparator.Holds 3 threshold ↔ c.comparator = .atLeast ∧ threshold = 3) := by
  have hasks : AsksFor "3" "0" 3 := ⟨by decide +kernel, by decide +kernel, by decide⟩
  have hmem : ofThreshold 3 1 "if (count > 3) \x7b".toList .above 3
      ∈ scan "if (count > 3) \x7b" "3" "0" := by decide +kernel
  obtain ⟨raw, c, position, threshold, -, hfirst, -, hholds, -⟩ :=
    offByOne_excludes_iff hasks hmem rfl
  exact ⟨hasks, hmem, raw, c, position, threshold, hfirst, hholds⟩

/-- **A condition that the expected count passes** is suspected as well, with high confidence, and
    the very same condition is suggested. -/
theorem offByOne_includes_threshold :
    ∃ s ∈ scan "if (count >= 3) \x7b" "3" "0", s.kind = .offByOne ∧ s.confidence = .high
      ∧ s.description = "Condition requires count >= 3, but test expects 3 items"
      ∧ s.suggestedFix = "Change to \"count > 0\" or \"count >= 3\""
      ∧ Comparator.atLeast.Holds 3 3 := by
  refine ⟨ofThreshold 3 1 "if (count >= 3) \x7b".toList .atLeast 3, ?_, rfl, rfl, ?_, ?_, ?_⟩
  · decide +kernel
  · decide +kernel
  · decide +kernel
  · exact Nat.le_refl 3

end Suspicion

end FailureTriage
