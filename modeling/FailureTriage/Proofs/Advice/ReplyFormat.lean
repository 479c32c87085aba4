import FailureTriage.Advice.Reply
import FailureTriage.Proofs.Text.Numbers
import FailureTriage.Proofs.Text.Trimming
import FailureTriage.Proofs.Text.Words

/-!
# Replies in the requested format

What a reply says is found in it again, if it is written in the lines that are asked for and none
of its texts looks like the header of a section.

* `Answer.lines`: the lines of a reply; `LaidOut`: the rows that they may stand in.
* `Line.ofText_rootCause` and the lemmas after it: the meaning of each line.
* `Suggestion.readLines_lines`: the lines for one fix, read one after the other.
* `parse_laidOut`: the whole reply, read back.
-/

namespace FailureTriage.Reply

/-! ## The requested format -/

/-- A fix as a reply suggests it. -/
structure Suggestion where
  filePath : String
  line : Option LineRef := none
  currentCode : Option String := none
  fixedCode : Option String := none
  deriving DecidableEq

/-- All that a reply says. -/
structure Answer where
  rootCause : String
  fixes : List Suggestion
  verification : String
  notes : Option String := none

/-- The lines for a fix; what is not known is left out. -/
def Suggestion.lines (s : Suggestion) : List String :=
  ["FILE: " ++ s.filePath]
    ++ (s.line.map fun ref => "LINE: " ++ ref.toText).toList
    ++ (s.currentCode.map fun code => "REPLACE: \x60" ++ code ++ "\x60").toList
    ++ (s.fixedCode.map fun code => "WITH: \x60" ++ code ++ "\x60").toList

/-- The lines of a reply. -/
def Answer.lines (answer : Answer) : List String :=
  ["1. **ROOT CAUSE**: " ++ answer.rootCause, "2. **EXACT FIXES**:"]
    ++ answer.fixes.flatMap Suggestion.lines
    ++ ["3. **VERIFICATION**: " ++ answer.verification]
    ++ (answer.notes.map fun text => "**ADDITIONAL NOTES**: " ++ text).toList

/-- Whether a text is blank and lies in one line. -/
def Margin (text : List Char) : Prop :=
  ∀ c ∈ text, Text.isBlank c = true ∧ c ≠ '\n'

/-- The rows that some lines may stand in: each line has a row, with any blanks around it, and
    anywhere between the lines there may be blank rows. -/
inductive LaidOut : List String → List (List Char) → Prop where
  | nil : LaidOut [] []
  | blank {lines : List String} {rows : List (List Char)} {row : List Char} :
      Margin row → LaidOut lines rows → LaidOut lines (row :: rows)
  | line {text : String} {lines : List String} {rows : List (List Char)}
      {before after : List Char} :
      Margin before → Margin after → LaidOut lines rows →
        LaidOut (text :: lines) ((before ++ text.toList ++ after) :: rows)

/-- The two ways in which a line shows the name of a section. -/
def marks (name : List Char) : List (List Char) :=
  ['*' :: '*' :: name, name ++ [':']]

/-- Whether a line shows none of the names. -/
def Unmarked (names : List (List Char)) (line : List Char) : Prop :=
  ∀ mark ∈ names.flatMap marks, ¬ mark <:+: line

instance (names : List (List Char)) (line : List Char) : Decidable (Unmarked names line) :=
  inferInstanceAs (Decidable (∀ mark ∈ _, _))

/-- The names of all sections. -/
def sectionNames : List (List Char) :=
  sections.map Prod.fst

/-- Whether a text can be written as a value: it lies in one line, without blanks at its ends, and
    shows no name of a section. -/
structure IsValue (text : String) : Prop where
  oneLine : '\n' ∉ text.toList
  trimmed : Text.Trimmed text.toList
  unmarked : Unmarked sectionNames text.toList

/-- Whether a value has no backquote at its ends. -/
structure IsUnquoted (text : String) : Prop extends IsValue text where
  first : text.toList.head? ≠ some '\x60'
  last : text.toList.getLast? ≠ some '\x60'

/-- Whether a value can be the text of a section. -/
structure IsSectionText (text : String) : Prop extends IsValue text where
  nonempty : text.toList ≠ []
  noAsterisk : text.toList.head? ≠ some '*'
  noColon : text.toList.head? ≠ some ':'

/-- Whether a line reference can be written; one that is a text must not read as a number. -/
def IsReference : LineRef → Prop
  | .number _ => True
  | .text s => IsUnquoted s ∧ s.toList ≠ [] ∧ Text.readNat? Text.maxWord64 s.toList = none

/-- Whether a fix can be written. -/
structure Suggestion.Writable (s : Suggestion) : Prop where
  filePath : IsUnquoted s.filePath ∧ s.filePath.toList ≠ []
  line : ∀ ref ∈ s.line, IsReference ref
  currentCode : ∀ code ∈ s.currentCode, IsUnquoted code
  fixedCode : ∀ code ∈ s.fixedCode, IsUnquoted code

/-- Whether a reply can be written. -/
structure Answer.Writable (answer : Answer) : Prop where
  rootCause : IsSectionText answer.rootCause
  fixes : ∀ s ∈ answer.fixes, s.Writable
  verification : IsSectionText answer.verification
  notes : ∀ text ∈ answer.notes, IsSectionText text

instance (text : String) : Decidable (IsValue text) :=
  decidable_of_iff ('\n' ∉ text.toList ∧ Text.Trimmed text.toList
      ∧ Unmarked sectionNames text.toList)
    ⟨fun h => ⟨h.1, h.2.1, h.2.2⟩, fun h => ⟨h.1, h.2, h.3⟩⟩

instance (text : String) : Decidable (IsUnquoted text) :=
  decidable_of_iff (IsValue text ∧ text.toList.head? ≠ some '\x60'
      ∧ text.toList.getLast? ≠ some '\x60')
    ⟨fun h => ⟨h.1, h.2.1, h.2.2⟩, fun h => ⟨h.1, h.2, h.3⟩⟩

instance (text : String) : Decidable (IsSectionText text) :=
  decidable_of_iff (IsValue text ∧ text.toList ≠ [] ∧ text.toList.head? ≠ some '*'
      ∧ text.toList.head? ≠ some ':')
    ⟨fun h => ⟨h.1, h.2.1, h.2.2.1, h.2.2.2⟩, fun h => ⟨h.1, h.2, h.3, h.4⟩⟩

instance (ref : LineRef) : Decidable (IsReference ref) :=
  match ref with
  | .number _ => .isTrue trivial
  | .text s => inferInstanceAs (Decidable (IsUnquoted s ∧ _ ∧ _))

instance (s : Suggestion) : Decidable s.Writable :=
  decidable_of_iff ((IsUnquoted s.filePath ∧ s.filePath.toList ≠ [])
      ∧ (∀ ref ∈ s.line, IsReference ref) ∧ (∀ code ∈ s.currentCode, IsUnquoted code)
      ∧ ∀ code ∈ s.fixedCode, IsUnquoted code)
    ⟨fun h => ⟨h.1, h.2.1, h.2.2.1, h.2.2.2⟩, fun h => ⟨h.1, h.2, h.3, h.4⟩⟩

instance (answer : Answer) : Decidable answer.Writable :=
  decidable_of_iff (IsSectionText answer.rootCause ∧ (∀ s ∈ answer.fixes, s.Writable)
      ∧ IsSectionText answer.verification ∧ ∀ text ∈ answer.notes, IsSectionText text)
    ⟨fun h => ⟨h.1, h.2.1, h.2.2.1, h.2.2.2⟩, fun h => ⟨h.1, h.2, h.3, h.4⟩⟩

/-! ## Lines without a header -/

/-- A fragment of a text that is joined from two parts lies in one of them, unless a first part of
    it ends the first one. -/
theorem not_infix_append {mark start text : List Char} (hstart : ¬ mark <:+: start)
    (hseam : ∀ k < mark.length, ¬ mark.take (k + 1) <:+ start) (htext : ¬ mark <:+: text) :
    ¬ mark <:+: start ++ text := by
  intro h
  rcases List.infix_append_iff.mp h with h | h | ⟨first, second, rfl, hfirst, hsecond⟩
  · exact hstart h
  · exact htext h
  · cases first with
    | nil => exact htext hsecond.isInfix
    | cons c first =>
        refine hseam first.length ?_ (by simpa using hfirst)
        rw [List.length_append, List.length_cons]
        omega

/-- No mark is shown by what is joined from two parts. -/
theorem Unmarked.append {names : List (List Char)} {start text : List Char}
    (h : Unmarked names text) (hstart : Unmarked names start)
    (hseam : ∀ mark ∈ names.flatMap marks, ∀ k < mark.length, ¬ mark.take (k + 1) <:+ start) :
    Unmarked names (start ++ text) :=
  fun mark hmark => not_infix_append (hstart mark hmark) (hseam mark hmark) (h mark hmark)

/-- A character that is in no mark does not complete one. -/
theorem Unmarked.concat {names : List (List Char)} {text : List Char} {c : Char}
    (h : Unmarked names text) (hc : ∀ mark ∈ names.flatMap marks, c ∉ mark) :
    Unmarked names (text ++ [c]) := by
  intro mark hmark hfound
  have hnone : ∀ part : List Char, part ⊆ [c] → part ⊆ mark → part = [] := by
    intro part hsub hmem
    refine List.eq_nil_iff_forall_not_mem.mpr fun d hd => hc mark hmark ?_
    rw [← List.mem_singleton.mp (hsub hd)]
    exact hmem hd
  rcases List.infix_append_iff.mp hfound with hin | hin | ⟨first, second, heq, hfirst, hsecond⟩
  · exact h mark hmark hin
  · exact h mark hmark (hnone mark hin.subset (List.Subset.refl _) ▸ List.nil_infix)
  · rw [hnone second hsecond.subset (heq ▸ List.subset_append_right _ _), List.append_nil] at heq
    exact h mark hmark (heq ▸ hfirst.isInfix)

/-- A line that does not show the name of a section does not open that section. -/
theorem afterHeader?_eq_none {name line : List Char} (h : Unmarked [name] line) :
    afterHeader? name line = none := by
  rw [Unmarked, List.flatMap_singleton] at h
  rw [afterHeader?, Text.splitAtFirst?_eq_none.mpr (h _ List.mem_cons_self),
    Text.splitAtFirst?_eq_none.mpr (h _ (List.mem_cons_of_mem _ List.mem_cons_self))]
  rfl

/-- Nothing is found in a line that shows none of the names. -/
theorem findSome?_eq_none_of_unmarked {β : Type} {named : List (List Char × Section)}
    {line : List Char} {f : List Char × Section → Option β} (h : Unmarked (named.map Prod.fst) line)
    (hf : ∀ s, afterHeader? s.1 line = none → f s = none) : named.findSome? f = none := by
  refine List.findSome?_eq_none_iff.mpr fun s hs => hf s (afterHeader?_eq_none fun mark hmark => ?_)
  rw [List.flatMap_singleton] at hmark
  exact h mark (List.mem_flatMap.mpr ⟨s.1, List.mem_map_of_mem hs, hmark⟩)

/-- A line that shows no name opens no section. -/
theorem header?_eq_none {line : List Char} (h : Unmarked sectionNames line) :
    header? line = none :=
  findSome?_eq_none_of_unmarked h fun _ hnone => congrArg (Option.map _) hnone

/-! ## Lines with a header -/

/-- **A header** is read from the first section whose name the line shows. -/
theorem header?_eq_some {earlier later : List (List Char × Section)} {opened : Section}
    {name line before rest text : List Char}
    (hsections : sections = earlier ++ (name, opened) :: later)
    (hearlier : Unmarked (earlier.map Prod.fst) line)
    (hfound : Text.splitAtFirst? ('*' :: '*' :: name) line = some (before, rest))
    (htext : Text.trim (rest.dropWhile fun c => c == '*' || c == ':' || Text.isBlank c) = text) :
    header? line = some (opened, text) := by
  have hafter : afterHeader? name line = some rest := by
    rw [afterHeader?, hfound]
  rw [header?, hsections, List.findSome?_append,
    findSome?_eq_none_of_unmarked hearlier fun _ hnone => congrArg (Option.map _) hnone,
    Option.none_or]
  simp only [List.findSome?_cons, hafter, Option.map_some, htext]

/-- The text of a section is found behind the marks of its header. -/
theorem IsSectionText.trim_dropWhile {text : String} (h : IsSectionText text) :
    Text.trim (("**: ".toList ++ text.toList).dropWhile
      fun c => c == '*' || c == ':' || Text.isBlank c) = text.toList := by
  rw [List.dropWhile_append_of_pos (List.all_eq_true.mp (by decide))]
  cases htext : text.toList with
  | nil => exact absurd htext h.nonempty
  | cons c rest =>
      have hasterisk : c ≠ '*' := fun heq => h.noAsterisk (by rw [htext, heq]; rfl)
      have hcolon : c ≠ ':' := fun heq => h.noColon (by rw [htext, heq]; rfl)
      have htrimmed : Text.Trimmed (c :: rest) := htext ▸ h.trimmed
      rw [List.dropWhile_cons_of_neg (by simp [hasterisk, hcolon, htrimmed.isBlank_head])]
      exact htrimmed

theorem Line.ofText_eq_header {line text : List Char} {opened : Section}
    (htrimmed : Text.Trimmed line) (h : header? line = some (opened, text)) :
    ofText line = .header opened text := by
  rw [ofText, show Text.trim line = line from htrimmed, h]

/-- Whether a text can stand before any value and none of the names is shown because of it. -/
def Opens (names : List (List Char)) (start : List Char) : Prop :=
  start.head?.map Text.isBlank = some false ∧ Unmarked names start
    ∧ ∀ mark ∈ names.flatMap marks, ∀ k < mark.length, ¬ mark.take (k + 1) <:+ start

instance (names : List (List Char)) (start : List Char) : Decidable (Opens names start) :=
  inferInstanceAs (Decidable (_ ∧ _ ∧ _))

/-- A value stays trimmed behind such a text. -/
theorem Opens.trimmed {names : List (List Char)} {start text : List Char} (h : Opens names start)
    (htext : Text.Trimmed text) (hne : text ≠ []) : Text.Trimmed (start ++ text) := by
  cases start with
  | nil => exact nomatch h.1
  | cons c start => exact htext.append hne (Option.some.inj h.1)

theorem Opens.unmarked {names : List (List Char)} {start text : List Char} (h : Opens names start)
    (htext : Unmarked names text) : Unmarked names (start ++ text) :=
  htext.append h.2.1 h.2.2

/-- The header of a section, with the text of the section behind it. -/
theorem Line.ofText_eq_sectionText (earlier : List (List Char × Section))
    {later : List (List Char × Section)} {opened : Section} {name before start : List Char}
    {text : String} (hsections : sections = earlier ++ (name, opened) :: later)
    (hfound : Text.splitAtFirst? ('*' :: '*' :: name) (start ++ text.toList)
      = some (before, "**: ".toList ++ text.toList))
    (hopens : Opens (earlier.map Prod.fst) start) (h : IsSectionText text) :
    ofText (start ++ text.toList) = .header opened text.toList := by
  have htext : Unmarked (earlier.map Prod.fst) text.toList := by
    intro mark hmark
    obtain ⟨found, hfound, hmark⟩ := List.mem_flatMap.mp hmark
    obtain ⟨s, hs, rfl⟩ := List.mem_map.mp hfound
    refine h.unmarked mark (List.mem_flatMap.mpr ⟨s.1, List.mem_map_of_mem ?_, hmark⟩)
    rw [hsections]
    exact List.mem_append_left _ hs
  exact ofText_eq_header (hopens.trimmed h.trimmed h.nonempty)
    (header?_eq_some hsections (hopens.unmarked htext) hfound h.trim_dropWhile)

/-- The headers with a text, each seen from the sections before its own. -/
theorem opens_header : ∀ header ∈ [(0, "1. **ROOT CAUSE**: "), (2, "3. **VERIFICATION**: "),
      (3, "**ADDITIONAL NOTES**: ")],
    Opens ((sections.take header.1).map Prod.fst) header.2.toList := by
  decide +kernel

theorem Line.ofText_rootCause {text : String} (h : IsSectionText text) :
    ofText ("1. **ROOT CAUSE**: " ++ text).toList = .header .rootCause text.toList := by
  have hfound : Text.splitAtFirst? ('*' :: '*' :: "ROOT CAUSE".toList)
      ("1. **ROOT CAUSE**: ".toList ++ text.toList)
        = some ("1. ".toList, "**: ".toList ++ text.toList) := rfl
  rw [String.toList_append]
  exact ofText_eq_sectionText [] rfl hfound (opens_header _ List.mem_cons_self) h

theorem Line.ofText_fixes : ofText "2. **EXACT FIXES**:".toList = .header .fixes [] :=
  ofText_eq_header (by decide +kernel) (by decide +kernel)

theorem Line.ofText_verification {text : String} (h : IsSectionText text) :
    ofText ("3. **VERIFICATION**: " ++ text).toList = .header .verification text.toList := by
  have hfound : Text.splitAtFirst? ('*' :: '*' :: "VERIFICATION".toList)
      ("3. **VERIFICATION**: ".toList ++ text.toList)
        = some ("3. ".toList, "**: ".toList ++ text.toList) := rfl
  rw [String.toList_append]
  exact ofText_eq_sectionText (sections.take 2) rfl hfound (opens_header (2, _) (by simp)) h

theorem Line.ofText_notes {text : String} (h : IsSectionText text) :
    ofText ("**ADDITIONAL NOTES**: " ++ text).toList = .header .notes text.toList := by
  have hfound : Text.splitAtFirst? ('*' :: '*' :: "ADDITIONAL NOTES".toList)
      ("**ADDITIONAL NOTES**: ".toList ++ text.toList)
        = some ([], "**: ".toList ++ text.toList) := rfl
  rw [String.toList_append]
  exact ofText_eq_sectionText (sections.take 3) rfl hfound (opens_header (3, _) (by simp)) h

/-! ## Lines with a directive -/

/-- One blank before a trimmed text does not count. -/
theorem trim_blank_cons {value : List Char} (h : Text.Trimmed value) :
    Text.trim (' ' :: value) = value := by
  have hpadded := @Text.trim_padded [' '] [] (List.all_eq_true.mp rfl) (List.forall_mem_nil _) value
  rw [List.append_nil, List.singleton_append] at hpadded
  rw [hpadded, h]

/-- The value after a key is taken as it is, unless it starts with a backquote. -/
theorem directive?_append {key value : List Char} (h : Text.Trimmed value)
    (hfirst : value.head? ≠ some '\x60') :
    directive? key (key ++ ' ' :: value) = some value := by
  rw [directive?, Text.dropFragment?_eq_some.mpr rfl, Option.map_some, trim_blank_cons h]
  exact congrArg some (if_neg hfirst)

/-- The backquotes around a value are taken off, and none of its own. -/
theorem dropEndWhile_quoted {code : List Char} (hfirst : code.head? ≠ some '\x60')
    (hlast : code.getLast? ≠ some '\x60') (before after : Nat) :
    Text.dropEndWhile (· == '\x60')
        ((List.replicate before '\x60' ++ (code ++ List.replicate after '\x60')).dropWhile
          (· == '\x60'))
      = code := by
  have hquote : ∀ count, ∀ c ∈ List.replicate count '\x60', (c == '\x60') = true :=
    fun count c hc => beq_iff_eq.mpr (List.eq_of_mem_replicate hc)
  have hkept : ∀ text : List Char, text.head? ≠ some '\x60' →
      text.dropWhile (· == '\x60') = text := by
    intro text hne
    cases text with
    | nil => rfl
    | cons c rest =>
        exact List.dropWhile_cons_of_neg fun heq => hne (congrArg some (eq_of_beq heq))
  rw [List.dropWhile_append_of_pos (hquote before)]
  by_cases hcode : code = []
  · have hall := List.dropWhile_eq_nil_iff.mpr (hquote after)
    rw [hcode, List.nil_append, hall]
    rfl
  · have hhead : (code ++ List.replicate after '\x60').head? ≠ some '\x60' := by
      rwa [List.head?_append_of_ne_nil _ hcode]
    rw [hkept _ hhead, Text.dropEndWhile, List.reverse_append, List.reverse_replicate,
      List.dropWhile_append_of_pos (hquote after), hkept _ (by rwa [List.head?_reverse]),
      List.reverse_reverse]

/-- What a text says as a value: itself, or what stands between the backquotes at its ends if it
    starts with one. -/
def SaysValue (text value : List Char) : Prop :=
  (text.head? ≠ some '\x60' ∧ value = text)
    ∨ (text.head? = some '\x60' ∧ value.head? ≠ some '\x60' ∧ value.getLast? ≠ some '\x60'
      ∧ ∃ before after,
        text = List.replicate before '\x60' ++ (value ++ List.replicate after '\x60'))

/-- Every text is a value between backquotes. -/
theorem exists_quoted (text : List Char) : ∃ value before after,
    text = List.replicate before '\x60' ++ (value ++ List.replicate after '\x60')
      ∧ value.head? ≠ some '\x60' ∧ value.getLast? ≠ some '\x60' := by
  have hreplicate : ∀ quotes : List Char, (∀ c ∈ quotes, (c == '\x60') = true) →
      quotes = List.replicate quotes.length '\x60' := fun quotes h =>
    List.eq_replicate_iff.mpr ⟨rfl, fun c hc => beq_iff_eq.mp (h c hc)⟩
  have hany : ∀ c : Option Char, c.any (· == '\x60') = false ↔ c ≠ some '\x60' := by
    intro c
    cases c <;> simp
  obtain ⟨value, ending, hrest, hending, hlast⟩ :=
    Text.exists_ending (· == '\x60') (text.dropWhile (· == '\x60'))
  refine ⟨value, (text.takeWhile (· == '\x60')).length, ending.length, ?_, ?_, (hany _).mp hlast⟩
  · rw [← hreplicate _ (List.all_eq_true.mp List.all_takeWhile), ← hreplicate _ hending, ← hrest,
      List.takeWhile_append_dropWhile]
  · have hfirst := Text.any_head?_dropWhile (· == '\x60') text
    rw [hrest] at hfirst
    cases value with
    | nil => exact fun h => nomatch h
    | cons c value => exact (hany _).mp hfirst

/-- **The value of a directive** is what stands behind the key, without the blanks and the
    backquotes around it. -/
theorem directive?_eq_some_iff {key line value : List Char} :
    directive? key line = some value
      ↔ ∃ rest, line = key ++ rest ∧ SaysValue (Text.trim rest) value := by
  have hvalue : ∀ text : List Char, SaysValue text value
      ↔ (if text.head? = some '\x60' then
          Text.dropEndWhile (· == '\x60') (text.dropWhile (· == '\x60')) else text) = value := by
    intro text
    by_cases hquoted : text.head? = some '\x60'
    · rw [if_pos hquoted, SaysValue, and_iff_right hquoted, or_iff_right (fun h => h.1 hquoted)]
      constructor
      · rintro ⟨hfirst, hlast, before, after, rfl⟩
        exact dropEndWhile_quoted hfirst hlast before after
      · rintro rfl
        obtain ⟨inner, before, after, htext, hfirst, hlast⟩ := exists_quoted text
        have hinner := dropEndWhile_quoted hfirst hlast before after
        rw [← htext] at hinner
        rw [hinner]
        exact ⟨hfirst, hlast, before, after, htext⟩
    · rw [if_neg hquoted, SaysValue, and_iff_right hquoted, or_iff_left (fun h => hquoted h.1),
        eq_comm]
  rw [directive?, Option.map_eq_some_iff]
  simp only [Text.dropFragment?_eq_some, hvalue]

theorem trimmed_quoted (code : List Char) : Text.Trimmed ('\x60' :: code ++ ['\x60']) :=
  (Text.trimmed_singleton (by decide)).append (List.cons_ne_nil _ _) (by decide)

theorem directive?_append_quoted {key code : List Char} (hfirst : code.head? ≠ some '\x60')
    (hlast : code.getLast? ≠ some '\x60') :
    directive? key (key ++ ' ' :: ('\x60' :: code ++ ['\x60'])) = some code := by
  rw [directive?, Text.dropFragment?_eq_some.mpr rfl, Option.map_some,
    trim_blank_cons (trimmed_quoted code)]
  exact congrArg some ((if_pos rfl).trans (dropEndWhile_quoted hfirst hlast 1 1))

/-- What stands before the value of a directive. -/
theorem opens_directive : ∀ start ∈ ["FILE: ", "LINE: ", "REPLACE: ", "WITH: ", "\x60"],
    Opens sectionNames start.toList := by
  decide +kernel

/-- No mark has a backquote in it. -/
theorem unmarked_quoted {code : List Char} (h : Unmarked sectionNames code) :
    Unmarked sectionNames ('\x60' :: code ++ ['\x60']) := by
  have hopens : Opens sectionNames ['\x60'] := opens_directive "\x60" (by simp)
  exact (hopens.unmarked h).concat (by decide +kernel)

/-! ### Their meaning -/

theorem Line.ofText_eq_directive {line : List Char} {d : Directive}
    (htrimmed : Text.Trimmed line) (hunmarked : Unmarked sectionNames line)
    (h : toDirective? line = some d) : ofText line = .directive d := by
  rw [ofText, show Text.trim line = line from htrimmed, header?_eq_none hunmarked, h]

theorem Line.ofText_file {path : String} (h : IsUnquoted path) (hne : path.toList ≠ []) :
    ofText ("FILE: " ++ path).toList = .directive (.file path) := by
  have hopens := opens_directive "FILE: " (by simp)
  have hvalue : directive? "FILE:".toList ("FILE: ".toList ++ path.toList) = some path.toList :=
    directive?_append h.trimmed h.first
  rw [String.toList_append]
  refine ofText_eq_directive (hopens.trimmed h.trimmed hne) (hopens.unmarked h.unmarked) ?_
  rw [toDirective?, hvalue, Option.map_some, String.ofList_toList]
  rfl

/-- Every mark has a character that is no digit, so a number can be written as a value. -/
theorem isUnquoted_of_isDigit {text : String} (h : ∀ c ∈ text.toList, c.isDigit = true) :
    IsUnquoted text where
  oneLine := fun hmem => absurd (h _ hmem) (by decide)
  trimmed := Text.trim_eq_self fun c hc => Text.isBlank_of_isDigit (h c hc)
  unmarked := by
    intro mark hmark hfound
    have hall : ((sectionNames.flatMap marks).all fun mark => mark.any fun c => !c.isDigit)
        = true := by decide +kernel
    obtain ⟨c, hc, hno⟩ := List.any_eq_true.mp (List.all_eq_true.mp hall mark hmark)
    rw [h c (hfound.subset hc)] at hno
    cases hno
  first := fun hfirst => absurd (h _ (List.mem_of_mem_head? hfirst)) (by decide)
  last := fun hlast => absurd (h _ (List.mem_of_getLast? hlast)) (by decide)

/-- A reference is read back from its own text. -/
theorem lineRef_toText {ref : LineRef} (h : IsReference ref) :
    IsUnquoted ref.toText ∧ ref.toText.toList ≠ [] ∧ lineRef ref.toText.toList = ref := by
  cases ref with
  | text s =>
      refine ⟨h.1, h.2.1, ?_⟩
      rw [lineRef, show (LineRef.text s).toText = s from rfl, h.2.2, String.ofList_toList]
  | number n =>
      have hdigits : (LineRef.number n).toText.toList = Text.natDigits n.toNat :=
        String.toList_ofList
      have hall : ∀ c ∈ (LineRef.number n).toText.toList, c.isDigit = true :=
        fun c hc => Text.isDigit_of_mem_natDigits (hdigits ▸ hc)
      have htrimmed : Text.Trimmed (LineRef.number n).toText.toList :=
        Text.trim_eq_self fun c hc => Text.isBlank_of_isDigit (hall c hc)
      refine ⟨isUnquoted_of_isDigit hall, hdigits ▸ Nat.toDigits_ne_nil, ?_⟩
      have hread := Text.readNat?_natDigits (Nat.le_of_lt_succ n.toNat_lt)
      rw [← hdigits, show Text.trim _ = _ from htrimmed] at hread
      rw [lineRef, show Text.readNat? Text.maxWord64 _ = _ from hread]
      exact congrArg LineRef.number UInt64.ofNat_toNat

theorem Line.ofText_line {ref : LineRef} (h : IsReference ref) :
    ofText ("LINE: " ++ ref.toText).toList = .directive (.line ref) := by
  obtain ⟨hvalue, hne, href⟩ := lineRef_toText h
  have hopens := opens_directive "LINE: " (by simp)
  have hfound : directive? "LINE:".toList ("LINE: ".toList ++ ref.toText.toList)
      = some ref.toText.toList := directive?_append hvalue.trimmed hvalue.first
  rw [String.toList_append]
  refine ofText_eq_directive (hopens.trimmed hvalue.trimmed hne)
    (hopens.unmarked hvalue.unmarked) ?_
  have hfile : directive? "FILE:".toList ("LINE: ".toList ++ ref.toText.toList) = none := rfl
  rw [toDirective?, hfile, hfound, Option.map_some, href]
  rfl

/-- A directive whose value stands between backquotes. -/
theorem Line.ofText_quoted {label : List Char} {start code : String} {d : Directive}
    (hstart : start.toList = label ++ ['\x60']) (hopens : Opens sectionNames label)
    (h : IsUnquoted code)
    (hd : toDirective? (label ++ ('\x60' :: code.toList ++ ['\x60'])) = some d) :
    ofText (start ++ code ++ "\x60").toList = .directive d := by
  have htext : (start ++ code ++ "\x60").toList
      = label ++ ('\x60' :: code.toList ++ ['\x60']) := by
    rw [String.toList_append, String.toList_append, hstart, List.append_assoc, List.append_assoc]
    rfl
  rw [htext]
  exact ofText_eq_directive (hopens.trimmed (trimmed_quoted _) (List.cons_ne_nil _ _))
    (hopens.unmarked (unmarked_quoted h.unmarked)) hd

theorem Line.ofText_replace {code : String} (h : IsUnquoted code) :
    ofText ("REPLACE: \x60" ++ code ++ "\x60").toList = .directive (.replace code) := by
  refine @ofText_quoted "REPLACE: ".toList _ _ _ rfl (opens_directive _ (by simp)) h ?_
  generalize hvalue : '\x60' :: code.toList ++ ['\x60'] = value
  have hfile : directive? "FILE:".toList ("REPLACE: ".toList ++ value) = none := rfl
  have hline : directive? "LINE:".toList ("REPLACE: ".toList ++ value) = none := rfl
  have hfound : directive? "REPLACE:".toList ("REPLACE: ".toList ++ value) = some code.toList :=
    hvalue ▸ directive?_append_quoted h.first h.last
  rw [toDirective?, hfile, hline, hfound, Option.map_some, String.ofList_toList]
  rfl

theorem Line.ofText_replacement {code : String} (h : IsUnquoted code) :
    ofText ("WITH: \x60" ++ code ++ "\x60").toList = .directive (.replacement code) := by
  refine @ofText_quoted "WITH: ".toList _ _ _ rfl (opens_directive _ (by simp)) h ?_
  generalize hvalue : '\x60' :: code.toList ++ ['\x60'] = value
  have hfile : directive? "FILE:".toList ("WITH: ".toList ++ value) = none := rfl
  have hline : directive? "LINE:".toList ("WITH: ".toList ++ value) = none := rfl
  have hreplace : directive? "REPLACE:".toList ("WITH: ".toList ++ value) = none := rfl
  have hfound : directive? "WITH:".toList ("WITH: ".toList ++ value) = some code.toList :=
    hvalue ▸ directive?_append_quoted h.first h.last
  rw [toDirective?, hfile, hline, hreplace, hfound, Option.map_some, String.ofList_toList]
  rfl

/-! ## Rows -/

/-- What a row means does not depend on the blanks around it. -/
theorem Line.ofText_congr {row line : List Char} (h : Text.trim row = Text.trim line) :
    ofText row = ofText line := by
  rw [ofText, ofText, h]

/-- A carriage return at the end of a row is a blank like any other, and an empty last row means
    nothing, so the lines of a text of rows mean what the rows mean. -/
theorem foldl_lines_unlines {rows : List (List Char)} (h : ∀ row ∈ rows, '\n' ∉ row)
    (p : Progress) :
    ((Text.lines (Text.unlines rows)).map Line.ofText).foldl Progress.step p
      = (rows.map Line.ofText).foldl Progress.step p := by
  induction rows generalizing p with
  | nil => rfl
  | cons row rest ih =>
      have hrow := h row List.mem_cons_self
      cases rest with
      | nil =>
          have htext : Text.unlines [row] = row := rfl
          rw [htext]
          by_cases hempty : row = []
          · rw [hempty]
            rfl
          · rw [Text.lines_of_not_mem hrow hempty]
      | cons second rest =>
          have htext : Text.unlines (row :: second :: rest)
              = row ++ '\n' :: Text.unlines (second :: rest) := by
            show row ++ ['\n'] ++ _ = _
            rw [List.append_assoc]
            rfl
          obtain ⟨line, hlines, hline⟩ := Text.lines_append hrow (Text.unlines (second :: rest))
          have hmeaning : Line.ofText line = Line.ofText row := by
            rcases hline with rfl | rfl
            · rfl
            · exact Line.ofText_congr
                (Text.trim_padded (List.forall_mem_nil _) (List.all_eq_true.mp rfl) line).symm
          rw [htext, hlines, List.map_cons, List.foldl_cons, hmeaning,
            ih fun row hrow => h row (List.mem_cons_of_mem _ hrow)]
          rfl

namespace LaidOut

variable {lines : List String} {rows : List (List Char)}

/-- Any lines may be indented. -/
theorem indented {before : List Char} (h : Margin before) (lines : List String) :
    LaidOut lines (lines.map fun line => before ++ line.toList) := by
  induction lines with
  | nil => exact nil
  | cons text lines ih =>
      have hrow := @line text lines _ before [] h (List.forall_mem_nil _) ih
      rwa [List.append_nil] at hrow

/-- Rows are rows: none of them has a line feed in it, if no line has one. -/
theorem not_mem (h : LaidOut lines rows) (hlines : ∀ line ∈ lines, '\n' ∉ line.toList) :
    ∀ row ∈ rows, '\n' ∉ row := by
  induction h with
  | nil => exact List.forall_mem_nil _
  | blank hblank _ ih =>
      exact List.forall_mem_cons.mpr ⟨fun hmem => (hblank _ hmem).2 rfl, ih hlines⟩
  | line hbefore hafter _ ih =>
      rw [List.forall_mem_cons] at hlines ⊢
      refine ⟨?_, ih hlines.2⟩
      rw [List.mem_append, List.mem_append, not_or, not_or]
      exact ⟨⟨fun hmem => (hbefore _ hmem).2 rfl, hlines.1⟩, fun hmem => (hafter _ hmem).2 rfl⟩

/-- **Rows mean** what their lines mean. -/
theorem foldl_step (h : LaidOut lines rows) (p : Progress) :
    (rows.map Line.ofText).foldl Progress.step p
      = (lines.map fun line => Line.ofText line.toList).foldl Progress.step p := by
  induction h generalizing p with
  | nil => rfl
  | @blank _ _ row hblank _ ih =>
      have hnothing : Line.ofText row = Line.ofText [] :=
        Line.ofText_congr (Text.trim_eq_nil_iff.mpr fun c hc => (hblank c hc).1)
      rw [List.map_cons, List.foldl_cons, hnothing]
      exact ih p
  | @line text _ _ _ _ hbefore hafter _ ih =>
      rw [List.map_cons, List.foldl_cons, List.map_cons, List.foldl_cons, ih,
        Line.ofText_congr (Text.trim_padded (fun c hc => (hbefore c hc).1)
          (fun c hc => (hafter c hc).1) text.toList)]

end LaidOut

/-! ## The whole reply -/

/-- The fix that is found for a suggestion, before the texts of the sections are known. -/
def Suggestion.fix (s : Suggestion) : SuggestedFix where
  filePath := s.filePath
  line := s.line
  currentCode := s.currentCode
  fixedCode := s.fixedCode

/-- What a fix suggests. -/
def suggestionOf (fix : SuggestedFix) : Suggestion where
  filePath := fix.filePath
  line := fix.line
  currentCode := fix.currentCode
  fixedCode := fix.fixedCode

/-- The lines, read one after the other. -/
def readLines (lines : List String) (p : Progress) : Progress :=
  (lines.map fun line => Line.ofText line.toList).foldl Progress.step p

theorem readLines_cons (line : String) (lines : List String) (p : Progress) :
    readLines (line :: lines) p = readLines lines (p.step (Line.ofText line.toList)) :=
  rfl

theorem readLines_append (lines more : List String) (p : Progress) :
    readLines (lines ++ more) p = readLines more (readLines lines p) := by
  rw [readLines, List.map_append, List.foldl_append]
  rfl

/-- **The lines for a fix** give that fix, whatever has been read before them. -/
theorem Suggestion.readLines_lines {s : Suggestion} (h : s.Writable) (p : Progress) :
    readLines s.lines p = { p with fixes := s.fix :: p.fixes } := by
  obtain ⟨path, line, currentCode, fixedCode⟩ := s
  have hfile : readLines ["FILE: " ++ path] p
      = { p with fixes := { filePath := path } :: p.fixes } := by
    rw [readLines, List.map_singleton, Line.ofText_file h.filePath.1 h.filePath.2]
    rfl
  have hline : readLines (line.map fun ref => "LINE: " ++ ref.toText).toList
        { p with fixes := { filePath := path } :: p.fixes }
      = { p with fixes := { filePath := path, line } :: p.fixes } := by
    cases line with
    | none => rfl
    | some ref =>
        rw [readLines, Option.map_some, Option.toList_some, List.map_singleton,
          Line.ofText_line (h.line ref rfl)]
        rfl
  have hcurrent : readLines (currentCode.map fun code => "REPLACE: \x60" ++ code ++ "\x60").toList
        { p with fixes := { filePath := path, line } :: p.fixes }
      = { p with fixes := { filePath := path, line, currentCode } :: p.fixes } := by
    cases currentCode with
    | none => rfl
    | some code =>
        rw [readLines, Option.map_some, Option.toList_some, List.map_singleton,
          Line.ofText_replace (h.currentCode code rfl)]
        rfl
  have hfixed : readLines (fixedCode.map fun code => "WITH: \x60" ++ code ++ "\x60").toList
        { p with fixes := { filePath := path, line, currentCode } :: p.fixes }
      = { p with fixes := { filePath := path, line, currentCode, fixedCode } :: p.fixes } := by
    cases fixedCode with
    | none => rfl
    | some code =>
        rw [readLines, Option.map_some, Option.toList_some, List.map_singleton,
          Line.ofText_replacement (h.fixedCode code rfl)]
        rfl
  rw [lines, readLines_append, readLines_append, readLines_append, hfile, hline, hcurrent, hfixed]
  rfl

/-- **The lines for several fixes** give these fixes; progress has the last one first. -/
theorem readLines_flatMap {fixes : List Suggestion} (h : ∀ s ∈ fixes, s.Writable) (p : Progress) :
    readLines (fixes.flatMap Suggestion.lines) p
      = { p with fixes := (fixes.map Suggestion.fix).reverse ++ p.fixes } := by
  induction fixes generalizing p with
  | nil => rfl
  | cons s rest ih =>
      rw [List.forall_mem_cons] at h
      rw [List.flatMap_cons, readLines_append, s.readLines_lines h.1, ih h.2, List.map_cons,
        List.reverse_cons, List.append_assoc, List.singleton_append]

/-- A header opens its section, and the text behind it is the section's first. -/
theorem Progress.step_header {p : Progress} {opened : Section} {text : List Char}
    (h : text ≠ []) :
    p.step (.header opened text) = match opened with
      | .rootCause => { p with openSection := some opened, rootCause := text :: p.rootCause }
      | .fixes => { p with openSection := some opened }
      | .verification =>
        { p with openSection := some opened, verification := text :: p.verification }
      | .notes => { p with openSection := some opened, notes := text :: p.notes } := by
  rw [step, addText, if_neg (by simpa using h)]
  cases opened <;> rfl

/-- **The lines of a reply** give its fixes and the texts of its sections. -/
theorem Answer.readLines_lines {answer : Answer} (h : answer.Writable) :
    ∃ opened, readLines answer.lines {} = {
      fixes := (answer.fixes.map Suggestion.fix).reverse
      openSection := opened
      rootCause := [answer.rootCause.toList]
      verification := [answer.verification.toList]
      notes := answer.notes.toList.map String.toList } := by
  obtain ⟨rootCause, fixes, verification, notes⟩ := answer
  have hstart : readLines ["1. **ROOT CAUSE**: " ++ rootCause, "2. **EXACT FIXES**:"] {}
      = { openSection := some .fixes, rootCause := [rootCause.toList] } := by
    rw [readLines_cons, Line.ofText_rootCause h.rootCause, readLines_cons, Line.ofText_fixes,
      Progress.step_header h.rootCause.nonempty]
    rfl
  have hfixes := readLines_flatMap h.fixes
    { openSection := some .fixes, rootCause := [rootCause.toList] }
  have hverification : readLines ["3. **VERIFICATION**: " ++ verification]
        { fixes := (fixes.map Suggestion.fix).reverse, openSection := some .fixes,
          rootCause := [rootCause.toList] }
      = { fixes := (fixes.map Suggestion.fix).reverse, openSection := some .verification,
          rootCause := [rootCause.toList], verification := [verification.toList] } := by
    rw [readLines_cons, Line.ofText_verification h.verification,
      Progress.step_header h.verification.nonempty]
    rfl
  rw [List.append_nil] at hfixes
  rw [lines, readLines_append, readLines_append, readLines_append, hstart, hfixes, hverification]
  cases notes with
  | none => exact ⟨_, rfl⟩
  | some text =>
      have htext := h.notes text rfl
      refine ⟨some .notes, ?_⟩
      rw [Option.map_some, Option.toList_some, readLines_cons, Line.ofText_notes htext,
        Progress.step_header htext.nonempty]
      rfl

/-- No line for a fix has a line feed in it. -/
theorem Suggestion.Writable.oneLine {s : Suggestion} (h : s.Writable) :
    ∀ line ∈ s.lines, '\n' ∉ line.toList := by
  intro line hline
  simp only [Suggestion.lines, List.mem_append, List.mem_singleton, Option.mem_toList,
    Option.map_eq_some_iff] at hline
  rcases hline with ((rfl | ⟨ref, href, rfl⟩) | ⟨code, hcode, rfl⟩) | ⟨code, hcode, rfl⟩
  · simp [h.filePath.1.oneLine]
  · simp [(lineRef_toText (h.line ref href)).1.oneLine]
  · simp [(h.currentCode code hcode).oneLine]
  · simp [(h.fixedCode code hcode).oneLine]

/-- No line of a reply has a line feed in it. -/
theorem Answer.Writable.oneLine {answer : Answer} (h : answer.Writable) :
    ∀ line ∈ answer.lines, '\n' ∉ line.toList := by
  intro line hline
  simp only [Answer.lines, List.mem_append, List.mem_cons, List.not_mem_nil, or_false,
    Option.mem_toList, Option.map_eq_some_iff, List.mem_flatMap] at hline
  rcases hline with (((rfl | rfl) | ⟨s, hs, hline⟩) | rfl) | ⟨text, htext, rfl⟩
  · simp [h.rootCause.oneLine]
  · decide +kernel
  · exact (h.fixes s hs).oneLine line hline
  · simp [h.verification.oneLine]
  · simp [(h.notes text htext).oneLine]

/-- The fixes with their tests suggest what they suggest without them. -/
theorem map_suggestionOf_assignTests (fixes : List SuggestedFix)
    (failures : List FailureSummary) :
    (assignTests fixes failures).map suggestionOf = fixes.map suggestionOf := by
  induction fixes generalizing failures with
  | nil => rfl
  | cons fix fixes ih =>
      cases failures with
      | nil => rfl
      | cons failure failures =>
          rw [assignTests, List.map_cons, ih, List.map_cons]
          rfl

/-- What a reply in the requested format is read as. -/
theorem fixes_parse {answer : Answer} (h : answer.Writable) {rows : List (List Char)}
    (hrows : LaidOut answer.lines rows) (now : String) (summary : ErrorSummary) (model : String) :
    (parse now (String.ofList (Text.unlines rows)) summary model).fixes
      = (assignTests (answer.fixes.map Suggestion.fix) summary.failures).map fun fix =>
        { fix with
          rootCause := answer.rootCause
          verification := answer.verification
          notes := answer.notes } := by
  obtain ⟨opened, hread⟩ := answer.readLines_lines h
  have hprogress := (foldl_lines_unlines (hrows.not_mem h.oneLine) {}).trans
    ((hrows.foldl_step {}).trans hread)
  simp only [parse, String.toList_ofList, hprogress, List.reverse_reverse]
  have hsame : ∀ text : String, String.ofList text.toList = text := fun _ => String.ofList_toList
  obtain ⟨rootCause, fixes, verification, notes⟩ := answer
  refine List.map_congr_left fun fix _ => ?_
  -- a section with one text is that text
  show { fix with
    rootCause := String.ofList rootCause.toList
    verification := String.ofList verification.toList
    notes := _ } = _
  rw [hsame, hsame]
  cases notes with
  | none => rfl
  | some text =>
      exact congrArg (fun found => { fix with
        rootCause := rootCause, verification := verification, notes := some found }) (hsame text)

/-- **A reply in the requested format** is read back: exactly its fixes, in order, each with the
    texts of the sections. -/
theorem parse_laidOut {answer : Answer} (h : answer.Writable) {rows : List (List Char)}
    (hrows : LaidOut answer.lines rows) (now : String) (summary : ErrorSummary) (model : String) :
    let fixes := (parse now (String.ofList (Text.unlines rows)) summary model).fixes
    fixes.map suggestionOf = answer.fixes
    ∧ ∀ fix ∈ fixes, fix.rootCause = answer.rootCause
        ∧ fix.verification = answer.verification ∧ fix.notes = answer.notes := by
  have hfixes := fixes_parse h hrows now summary model
  constructor
  · rw [hfixes, List.map_map]
    exact (map_suggestionOf_assignTests _ _).trans ((List.map_map ..).trans (List.map_id _))
  · intro fix hfix
    rw [hfixes] at hfix
    obtain ⟨found, -, rfl⟩ := List.mem_map.mp hfix
    exact ⟨rfl, rfl, rfl⟩

/-- A reply with two fixes, one of which has no line number and no code. -/
def Answer.sample : Answer where
  rootCause := "The list is never filled."
  fixes := [
    { filePath := "src/A.java", line := some (.number 7),
      currentCode := some "return List.of();", fixedCode := some "return items;" },
    { filePath := "src/B.java", line := some (.text "last") }]
  verification := "mvn test"
  notes := some "No other test is affected."

/-- The reply is read back from indented rows, with a blank row before them. -/
theorem parse_laidOut_sample :
    let rows := [] :: Answer.sample.lines.map fun line => ' ' :: '\t' :: line.toList
    let summary : ErrorSummary := {
      metadata := ⟨"", ⟨"reports"⟩, 0⟩, totals := ⟨0, 0, 0, 0, 0.0, 0, 0.0⟩, suites := [] }
    Answer.sample.Writable ∧ LaidOut Answer.sample.lines rows
    ∧ let fixes := (parse "" (String.ofList (Text.unlines rows)) summary "").fixes
      fixes.map suggestionOf = Answer.sample.fixes
      ∧ ∀ fix ∈ fixes, fix.rootCause = Answer.sample.rootCause
          ∧ fix.verification = Answer.sample.verification ∧ fix.notes = Answer.sample.notes := by
  intro rows summary
  have hwritable : Answer.sample.Writable := by decide +kernel
  have hindent : Margin [' ', '\t'] :=
    List.forall_mem_cons.mpr ⟨by decide, List.forall_mem_singleton.mpr (by decide)⟩
  have hrows : LaidOut Answer.sample.lines rows :=
    .blank (List.forall_mem_nil _) (.indented hindent _)
  exact ⟨hwritable, hrows, parse_laidOut hwritable hrows "" summary ""⟩

end FailureTriage.Reply
