import FailureTriage.Proofs.Source.Signatures
import FailureTriage.Proofs.Text.Trimming
import Mathlib

/-!
# The window around a signature

Where the window around a method lies in its file.  The line is counted by the line feeds before
the signature, while the window is cut from the lines of the text; `OnLine` ties the two together.

* `Text.OnLine`: the line of a text that a place is on, and its number.
* `Window.Frame`: the lines that a window has around a place.
* `Window.around_of_isLeftmost`, `Window.around_of_forall_not_matchesAt`: what is known of a method
  by its signature, whose texts `Window.matchesAt_signaturePattern_iff` names.
* `Window.around_frames`: the window around a method, for every text.
-/

namespace FailureTriage

namespace Text

variable {text above start rest : List Char} {position number : Nat} {c : Char}

/-! ## The line a place is on -/

/-- Whether a line, counted from one, is the line of a text that the place after so many
    characters is on: it starts with what stands between the lines above and the place, and goes
    on with the next character. -/
def OnLine (text : List Char) (position number : Nat) (line : List Char) : Prop :=
  ∃ above start more, text.take position = above ++ start
    ∧ (above = [] ∨ above.getLast? = some '\n') ∧ '\n' ∉ start
    ∧ start ++ (text.drop position).head?.toList <+: line
    ∧ lines text = lines above ++ line :: more ∧ number = (lines above).length + 1

/-- A text is cut after its last line feed. -/
theorem exists_last_line (text : List Char) :
    ∃ above start, text = above ++ start ∧ (above = [] ∨ above.getLast? = some '\n')
      ∧ '\n' ∉ start := by
  induction text using List.reverseRecOn with
  | nil => exact ⟨[], [], rfl, Or.inl rfl, List.not_mem_nil⟩
  | append_singleton text c ih =>
      by_cases hc : c = '\n'
      · subst hc
        exact ⟨text ++ ['\n'], [], (List.append_nil _).symm, Or.inr List.getLast?_concat,
          List.not_mem_nil⟩
      · obtain ⟨above, start, rfl, habove, hstart⟩ := ih
        refine ⟨above, start ++ [c], List.append_assoc _ _ _, habove, ?_⟩
        rw [List.mem_append, List.mem_singleton, not_or]
        exact ⟨hstart, Ne.symm hc⟩

/-- Below a whole line the lines start anew. -/
theorem lines_append_of_above (h : above = [] ∨ above.getLast? = some '\n') (rest : List Char) :
    lines (above ++ rest) = lines above ++ lines rest := by
  rcases h with rfl | h
  · rfl
  · obtain ⟨before, rfl⟩ := List.getLast?_eq_some_iff.mp h
    rw [List.append_assoc, List.singleton_append, lines_append_lines]

/-- There are as many whole lines as line feeds. -/
theorem length_lines_of_above (h : above = [] ∨ above.getLast? = some '\n') :
    (lines above).length = above.count '\n' := by
  rcases h with rfl | h
  · rfl
  · obtain ⟨before, rfl⟩ := List.getLast?_eq_some_iff.mp h
    rw [length_lines, List.count_append, List.count_singleton_self]

/-- The first line goes at least up to a character that cannot belong to a line end. -/
theorem exists_first_line (hstart : '\n' ∉ start) (hfeed : c ≠ '\n') (hreturn : c ≠ '\r')
    (rest : List Char) :
    ∃ line more, lines (start ++ c :: rest) = line :: more ∧ start ++ [c] <+: line := by
  obtain ⟨stem, hstem, htail⟩ : ∃ stem, '\n' ∉ stem
      ∧ (rest = stem ∨ ∃ below, rest = stem ++ '\n' :: below) := by
    by_cases h : '\n' ∈ rest
    · obtain ⟨stem, below, hrest, hstem⟩ := List.eq_append_cons_of_mem h
      exact ⟨stem, hstem, Or.inr ⟨below, hrest⟩⟩
    · exact ⟨rest, h, Or.inl rfl⟩
  have hline : '\n' ∉ start ++ [c] ++ stem := by
    simp only [List.mem_append, List.mem_singleton, not_or]
    exact ⟨⟨hstart, Ne.symm hfeed⟩, hstem⟩
  rw [List.append_cons]
  rcases htail with rfl | ⟨below, rfl⟩
  · exact ⟨_, [], lines_of_not_mem hline (by simp), List.prefix_append _ _⟩
  · obtain ⟨line, hlines, hend⟩ := lines_append hline below
    rw [List.append_assoc] at hlines
    refine ⟨line, _, hlines, ?_⟩
    rcases hend with rfl | hend
    · exact List.prefix_append _ _
    · -- the carriage return that is left out is not the character
      rcases List.eq_nil_or_concat stem with rfl | ⟨stem, d, rfl⟩
      · rw [List.append_nil] at hend
        exact absurd (List.append_inj_right' hend rfl) (by simpa using hreturn)
      · rw [List.concat_eq_append, ← List.append_assoc] at hend
        rw [← List.append_inj_left' hend rfl]
        exact List.prefix_append _ _

/-- **A place is on a line** of its text if its next character cannot belong to a line end, and the
    number of the line is that of the line feeds before the place and one more. -/
theorem exists_onLine (h : (text.drop position).head? = some c) (hfeed : c ≠ '\n')
    (hreturn : c ≠ '\r') :
    ∃ line, OnLine text position ((text.take position).count '\n' + 1) line := by
  obtain ⟨above, start, htake, habove, hstart⟩ := exists_last_line (text.take position)
  obtain ⟨rest, hdrop⟩ := List.head?_eq_some_iff.mp h
  obtain ⟨line, more, hlines, hprefix⟩ := exists_first_line hstart hfeed hreturn rest
  refine ⟨line, above, start, more, htake, habove, hstart, ?_, ?_, ?_⟩
  · rw [h]
    exact hprefix
  · rw [← hlines, ← lines_append_of_above habove, ← hdrop, ← List.append_assoc, ← htake,
      List.take_append_drop]
  · rw [htake, List.count_append, List.count_eq_zero.mpr hstart, length_lines_of_above habove,
      Nat.add_zero]

end Text

namespace Window

open Pattern

variable {window : Window} {path : Option Path} {method text : String} {position : Nat}

/-! ## The window -/

/-- The window of a text around the place after so many characters: the line with the place and
    its number, the numbers of the first and the last line, and the lines of the window. -/
structure Frame (window : Window) (text : List Char) (position number first last : Nat)
    (line : List Char) (within : List (List Char)) : Prop where
  onLine : Text.OnLine text position number line
  first_eq : first = max 1 (number - window.linesBefore)
  last_eq : last = min (Text.lines text).length (number + window.linesAfter)
  one_le_first : 1 ≤ first
  first_le : first ≤ number
  le_last : number ≤ last
  last_le : last ≤ (Text.lines text).length
  /-- The lines of the window are those from the first to the last. -/
  within_eq : ∃ above below, Text.lines text = above ++ within ++ below
    ∧ above.length + 1 = first ∧ above.length + within.length = last
  trim_ne_nil : Text.trim line ≠ []

/-- The context that has a window: the line of the signature without blanks around it, the numbers
    of the first and the last line, and the lines joined by line feeds. -/
def shown (path : Option Path) (line : List Char) (first last : Nat) (within : List (List Char)) :
    SourceContext :=
  { found := true
    path := path
    signature := some (String.ofList (Text.trim line))
    startLine := some first
    endLine := some last
    context := some (String.ofList (Text.unlines within)) }

/-- What a note calls a text. -/
def origin (path : Option Path) : String :=
  (path.map Path.text).getD "source text"

/-- The lines between two bounds, with the lines above and the lines below them. -/
theorem exists_within {lines : List (List Char)} {start stop : Nat} (hstart : start ≤ stop)
    (hstop : stop ≤ lines.length) :
    ∃ above below, lines = above ++ (lines.take stop).drop start ++ below
      ∧ above.length = start ∧ above.length + ((lines.take stop).drop start).length = stop := by
  refine ⟨lines.take start, lines.drop stop, ?_, ?_, ?_⟩
  · have htop : lines.take start = (lines.take stop).take start := by
      rw [List.take_take, Nat.min_eq_left hstart]
    rw [htop, List.take_append_drop, List.take_append_drop]
  · rw [List.length_take, Nat.min_eq_left (Nat.le_trans hstart hstop)]
  · rw [List.length_take, List.length_drop, List.length_take]
    omega

/-- The window that is cut around a line frames every place on the line. -/
theorem frame_cut {index : Nat} {characters line : List Char}
    (honLine : Text.OnLine characters position (index + 1) line) (hline : Text.trim line ≠ []) :
    ∃ first last within,
      window.Frame characters position (index + 1) first last line within
        ∧ window.cut (Text.lines characters) index path = shown path line first last within := by
  obtain ⟨above, start, more, -, -, -, -, hlines, hnumber⟩ := id honLine
  have hindex : index = (Text.lines above).length := Nat.succ.inj hnumber
  have hshort : index < (Text.lines characters).length := by
    rw [hlines, List.length_append, List.length_cons, hindex]
    omega
  have hat : (Text.lines characters)[index]? = some line := by
    rw [hlines, List.getElem?_append_right (Nat.le_of_eq hindex.symm), hindex, Nat.sub_self]
    rfl
  rw [cut, hat]
  generalize hfirst : index - window.linesBefore = first
  generalize hlast : min (Text.lines characters).length (index + window.linesAfter + 1) = last
  obtain ⟨front, back, hcut, hfront, hwithin⟩ :=
    @exists_within (Text.lines characters) first last (by omega) (by omega)
  refine ⟨first + 1, last, _, ?_, rfl⟩
  exact {
    onLine := honLine
    first_eq := by omega
    last_eq := by omega
    one_le_first := by omega
    first_le := by omega
    le_last := by omega
    last_le := by omega
    within_eq := ⟨front, back, hcut, by omega, hwithin⟩
    trim_ne_nil := hline }

/-- A window around the signature that is found frames the place where it starts. -/
theorem around_of_find? {m : Match} (hfind : (signaturePattern method).find? text.toList = some m)
    (hstart : m.span.start = Place.inText text.toList position)
    (hmatch : (signaturePattern method).MatchesAt text.toList position) :
    ∃ number first last line within,
      window.Frame text.toList position number first last line within
        ∧ window.around path method text = shown path line first last within := by
  obtain ⟨c, hhead, hc⟩ := exists_head_of_matchesAt hmatch
  have hfeed : c ≠ '\n' := by
    rintro rfl
    exact absurd hc (by decide)
  have hreturn : c ≠ '\r' := by
    rintro rfl
    exact absurd hc (by decide)
  obtain ⟨line, honLine⟩ := Text.exists_onLine hhead hfeed hreturn
  -- the line has the first character of the signature in it, so it is not blank
  have hline : Text.trim line ≠ [] := by
    obtain ⟨above, start, more, -, -, -, hprefix, -, -⟩ := honLine
    intro hblank
    rw [hhead] at hprefix
    have hmem : c ∈ line :=
      hprefix.subset (List.mem_append_right _ (List.mem_singleton_self c))
    rw [Text.trim_eq_nil_iff.mp hblank c hmem] at hc
    cases hc
  obtain ⟨first, last, within, hframe, hcut⟩ :=
    @frame_cut window path position _ _ line honLine hline
  refine ⟨_, first, last, line, within, hframe, ?_⟩
  rw [around, hfind]
  dsimp only
  rw [hstart]
  exact hcut

/-- **A window** around a method frames the place where the leftmost signature starts. -/
theorem around_of_isLeftmost (h : (signaturePattern method).IsLeftmost text.toList position) :
    ∃ number first last line within,
      window.Frame text.toList position number first last line within
        ∧ window.around path method text = shown path line first last within := by
  cases hfind : (signaturePattern method).find? text.toList with
  | none => exact absurd h.1 (find?_eq_none_iff.mp hfind position)
  | some m =>
      obtain ⟨other, hstart, hleftmost⟩ := start_of_find? hfind
      obtain rfl := hleftmost.unique h
      exact around_of_find? hfind hstart h.1

/-- Where no signature matches, one note says so. -/
theorem around_of_forall_not_matchesAt
    (h : ∀ position, ¬ (signaturePattern method).MatchesAt text.toList position) :
    window.around path method text
      = { path := path, notes := [s!"Method '{method}' not found in {origin path}"] } := by
  rw [around, find?_eq_none_iff.mpr h]
  rfl

/-- A signature that matches somewhere matches at a leftmost place. -/
theorem forall_not_matchesAt_or_exists_isLeftmost (method text : String) :
    (∀ position, ¬ (signaturePattern method).MatchesAt text.toList position)
      ∨ ∃ position, (signaturePattern method).IsLeftmost text.toList position := by
  cases hfind : (signaturePattern method).find? text.toList with
  | none => exact Or.inl (find?_eq_none_iff.mp hfind)
  | some m =>
      obtain ⟨position, -, hleftmost⟩ := start_of_find? hfind
      exact Or.inr ⟨position, hleftmost⟩

/-- A method is found exactly if its signature matches somewhere. -/
theorem found_around_iff : (window.around path method text).found = true
    ↔ ∃ position, (signaturePattern method).MatchesAt text.toList position := by
  rcases forall_not_matchesAt_or_exists_isLeftmost method text with hnone | ⟨position, hleftmost⟩
  · rw [around_of_forall_not_matchesAt hnone]
    refine iff_of_false Bool.false_ne_true ?_
    rintro ⟨position, hmatch⟩
    exact hnone position hmatch
  · obtain ⟨number, first, last, line, within, -, haround⟩ :=
      @around_of_isLeftmost window path method text position hleftmost
    rw [haround]
    exact iff_of_true rfl ⟨position, hleftmost.1⟩

/-- **The window of a method**: it is found exactly if its signature matches somewhere; then the
    window frames the place where the leftmost match starts, within the text, and otherwise one
    note names the method and where it was looked for. -/
theorem around_frames (window : Window) (path : Option Path) (method text : String) :
    ((window.around path method text).found = true
        ↔ ∃ position, (signaturePattern method).MatchesAt text.toList position)
      ∧ (∀ position, (signaturePattern method).IsLeftmost text.toList position →
          ∃ number first last line within,
            window.Frame text.toList position number first last line within
              ∧ window.around path method text = shown path line first last within)
      ∧ ((∀ position, ¬ (signaturePattern method).MatchesAt text.toList position) →
          window.around path method text
            = { path := path, notes := [s!"Method '{method}' not found in {origin path}"] }) :=
  ⟨found_around_iff, fun _ => around_of_isLeftmost, around_of_forall_not_matchesAt⟩

/-- The lines of a text are counted alike where they end in a carriage return and a line feed. -/
example :
    ({ linesBefore := 0, linesAfter := 1 } : Window).around none "go" "a\r\n void go()\r\n\r\nb"
    = shown none " void go()".toList 2 3 [" void go()".toList, []] := by
  decide +kernel

end Window

end FailureTriage
