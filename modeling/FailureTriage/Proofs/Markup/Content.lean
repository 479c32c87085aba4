import FailureTriage.Proofs.Markup.CharacterData
import FailureTriage.Proofs.Markup.Elements
import FailureTriage.Proofs.Text.Trimming

/-!
# The content of an element

What stands between two tags, run by run and section by section, and what is left of it when the
blanks of markup at the ends of each run are dropped.

* `Piece.said`, `Piece.kept`: what a piece says, and what is kept of it.
* `Readable.said_eq`: a run is what is kept of it, between blanks.
* `Faithful`: no run has blanks at an end that lies inside of the text.
* `trim_keptText_eq_iff`: what is kept is the text, up to the blanks at its ends, exactly then.
-/

namespace FailureTriage

namespace Markup

/-- A blank of markup is a blank. -/
theorem isBlank_text {c : Char} (h : isBlank c = true) : Text.isBlank c = true := by
  simp only [isBlank, Bool.or_eq_true, beq_iff_eq] at h
  rcases h with ((rfl | rfl) | rfl) | rfl <;> decide

/-! ## Pieces of content -/

/-- Whether a piece is a tag. -/
def Piece.isTag (p : Piece) : Bool :=
  match p.event with
  | some (.start _ _) | some (.selfClosed _ _) | some (.close _) => true
  | _ => false

/-- What a piece says: a run of text with its references resolved, or a section as it stands. -/
def Piece.said (p : Piece) : List Char :=
  match p.event with
  | some (.verbatim content) => content
  | _ => if p.isMarkup then [] else (unescape? p.text).getD []

/-- What is kept of a piece: of a run of text only what stands between the blanks at its ends. -/
def Piece.kept (p : Piece) : List Char :=
  match p.event with
  | some (.verbatim content) => content
  | some (.text raw) => (unescape? raw).getD []
  | _ => []

/-- The pieces between two places. -/
def content (ps : List Piece) (first last : Nat) : List Piece :=
  (ps.take last).drop (first + 1)

/-- The text that some pieces say. -/
def saidText (ps : List Piece) : List Char :=
  ps.flatMap (·.said)

/-- What is kept of the text. -/
def keptText (ps : List Piece) : List Char :=
  ps.flatMap (·.kept)

/-- Whether a piece is a run of text that starts with a blank of markup. -/
def Piece.startsBlank (p : Piece) : Bool :=
  !p.isMarkup && p.text.head?.any isBlank

/-- Whether a piece is a run of text that ends with a blank of markup. -/
def Piece.endsBlank (p : Piece) : Bool :=
  !p.isMarkup && p.text.getLast?.any isBlank

/-- Whether the blanks at the ends of a run stand at an end of all that is kept, if there are
    any. -/
structure Piece.KeptIn (p : Piece) (before after : List Piece) : Prop where
  first : p.startsBlank = true → Text.HasText (keptText before)
    → ¬ Text.HasText (keptText (p :: after))
  last : p.endsBlank = true → Text.HasText (keptText (before ++ [p]))
    → ¬ Text.HasText (keptText after)

/-- Whether no run of text has blanks at one of its ends with text on both sides of them. -/
def Faithful (content : List Piece) : Prop :=
  ∀ before p after, content = before ++ p :: after → p.KeptIn before after

/-- A run of text whose references can all be resolved, or a piece of markup. -/
structure Piece.Readable (p : Piece) : Prop where
  run : p.isMarkup = false → p.event = textEvent? p.text ∧ unescape? p.text ≠ none
  markup : p.isMarkup = true → ∀ raw, p.event ≠ some (.text raw)

/-! ## What stands between two places -/

theorem content_self (ps : List Piece) (first : Nat) : content ps first first = [] :=
  List.drop_of_length_le (Nat.le_succ_of_le (List.length_take_le first ps))

theorem content_succ_self (ps : List Piece) (first : Nat) : content ps first (first + 1) = [] :=
  List.drop_of_length_le (List.length_take_le (first + 1) ps)

theorem content_succ {ps : List Piece} {p : Piece} {first k : Nat} (hfirst : first < k)
    (hp : ps[k]? = some p) : content ps first (k + 1) = content ps first k ++ [p] := by
  have hlength : (ps.take k).length = k :=
    List.length_take_of_le (Nat.le_of_lt (List.getElem?_eq_some_iff.mp hp).1)
  have hle : first + 1 ≤ (ps.take k).length := by
    rw [hlength]
    exact hfirst
  rw [content, content, List.take_add_one, hp, Option.toList_some,
    List.drop_append_of_le_length hle]

theorem mem_content {ps : List Piece} {p : Piece} {first last k : Nat} (hfirst : first < k)
    (hlast : k < last) (hp : ps[k]? = some p) : p ∈ content ps first last := by
  refine List.mem_of_getElem? (i := k - (first + 1)) ?_
  rw [content, List.getElem?_drop, Nat.add_sub_cancel' hfirst, List.getElem?_take_of_lt hlast, hp]

theorem content_subset (ps : List Piece) (first last : Nat) : content ps first last ⊆ ps :=
  fun _ hp => List.mem_of_mem_take (List.mem_of_mem_drop hp)

/-! ## Markup is no text -/

/-- What is read of a piece of markup is no text with references. -/
theorem event_ne_text_of_readMarkup {text : List Char} {openNames : List (List Char)} {s : Step}
    (h : readMarkup text openNames = some s) (raw : List Char) : s.event ≠ some (.text raw) := by
  cases taken_readMarkup h <;> simp

/-- A piece of markup is no text with references. -/
theorem Reads.event_ne_text {openNames : List (List Char)} {text : List Char} {ps : List Piece}
    (h : Reads openNames text ps) {p : Piece} (hp : p ∈ ps) (hmarkup : p.isMarkup = true)
    (raw : List Char) : p.event ≠ some (.text raw) := by
  have hplain : ∀ {run : List Char}, '<' ∉ run →
      Piece.isMarkup ⟨run, textEvent? run⟩ ≠ true := by
    intro run hrun hhead
    exact hrun (List.mem_of_head? (eq_of_beq hhead))
  induction h with
  | run hrun =>
      obtain rfl := List.mem_singleton.mp hp
      exact absurd hmarkup (hplain hrun)
  | markup hrun hspans hrest ih =>
      rcases List.mem_cons.mp hp with rfl | hp
      · exact absurd hmarkup (hplain hrun)
      rcases List.mem_cons.mp hp with rfl | hp
      · exact event_ne_text_of_readMarkup (hspans.whole []) raw
      · exact ih hp

/-! ## What is kept of a run -/

/-- A piece with what is kept of it, and the blanks around it. -/
def Piece.framed (p : Piece) : Text.Framed :=
  if p.isMarkup then ⟨[], p.kept, []⟩
  else ⟨p.text.takeWhile isBlank, p.kept, blankEnd p.text⟩

theorem Piece.framed_markup {p : Piece} (h : p.isMarkup = true) : p.framed = ⟨[], p.kept, []⟩ :=
  if_pos h

theorem Piece.framed_run {p : Piece} (h : p.isMarkup = false) :
    p.framed = ⟨p.text.takeWhile isBlank, p.kept, blankEnd p.text⟩ :=
  if_neg (Bool.eq_false_iff.mp h)

@[simp] theorem Piece.framed_core (p : Piece) : p.framed.core = p.kept := by
  rw [framed]
  split <;> rfl

theorem Piece.framed_blank (p : Piece) : p.framed.Blank := by
  cases hmarkup : p.isMarkup with
  | true =>
      rw [framed_markup hmarkup]
      exact ⟨nofun, nofun⟩
  | false =>
      rw [framed_run hmarkup]
      exact ⟨fun c hc => isBlank_text (List.mem_takeWhile_imp hc),
        fun c hc => isBlank_text (isBlank_of_mem_blankEnd hc)⟩

/-- What is kept of a run are the resolved references of its inner part. -/
theorem Piece.Readable.kept_run {p : Piece} (h : p.Readable) (hplain : p.isMarkup = false) :
    unescape? (inner p.text) = some p.kept := by
  obtain ⟨hevent, hsome⟩ := h.run hplain
  rw [← Option.isSome_iff_ne_none, ← isSome_unescape?_inner] at hsome
  rw [kept, hevent, textEvent?]
  show _ = some (match
      if (inner p.text).isEmpty then none else some (Event.text (inner p.text)) with
    | some (.verbatim content) => content
    | some (.text raw) => (unescape? raw).getD []
    | _ => [])
  cases hin : (inner p.text).isEmpty with
  | true =>
      rw [List.isEmpty_iff.mp hin]
      rfl
  | false => exact (Option.some_get hsome).symm.trans (by rw [Option.get_eq_getD]; rfl)

/-- **A run** is what is kept of it, between blanks. -/
theorem Piece.Readable.said_eq {p : Piece} (h : p.Readable) :
    p.said = p.framed.lead ++ (p.framed.core ++ p.framed.trail) := by
  cases hmarkup : p.isMarkup with
  | true =>
      rw [framed_markup hmarkup]
      show p.said = [] ++ (p.kept ++ [])
      rw [List.nil_append, List.append_nil, said, kept]
      cases hevent : p.event with
      | none => exact if_pos hmarkup
      | some event =>
          cases event with
          | text raw => exact absurd hevent (h.markup hmarkup raw)
          | verbatim content => rfl
          | start name text => exact if_pos hmarkup
          | selfClosed name text => exact if_pos hmarkup
          | close name => exact if_pos hmarkup
  | false =>
      have hlead : ∀ c ∈ p.text.takeWhile isBlank, isBlank c = true :=
        fun c hc => List.mem_takeWhile_imp hc
      have htrail : ∀ c ∈ blankEnd p.text, isBlank c = true :=
        fun c hc => isBlank_of_mem_blankEnd hc
      have hunescape : unescape? p.text
          = some (p.text.takeWhile isBlank ++ (p.kept ++ blankEnd p.text)) := by
        conv => lhs; rw [eq_inner_between p.text]
        rw [unescape?_append (unescape?_blanks hlead), unescape?_append (h.kept_run hmarkup),
          unescape?_blanks htrail]
        rfl
      rw [framed_run hmarkup, said, (h.run hmarkup).1, hmarkup, hunescape]
      rcases textEvent?_cases p.text with hevent | ⟨raw, hevent⟩ <;> rw [hevent] <;> rfl

/-! ## What is kept of a text -/

variable {ps : List Piece}

theorem keptText_eq (ps : List Piece) : keptText ps = Text.Framed.cores (ps.map (·.framed)) := by
  rw [keptText, Text.Framed.cores, List.flatMap_map]
  exact congrArg (ps.flatMap ·) (funext fun p => p.framed_core.symm)

theorem saidText_eq (h : ∀ p ∈ ps, p.Readable) :
    saidText ps = Text.Framed.whole (ps.map (·.framed)) := by
  rw [saidText, Text.Framed.whole, List.flatMap_map]
  exact List.flatMap_congr fun p hp => (h p hp).said_eq

/-- Blanks are dropped at the start of a piece exactly if it is a run that starts with one. -/
theorem Piece.framed_lead_iff (p : Piece) : p.framed.lead ≠ [] ↔ p.startsBlank = true := by
  cases hmarkup : p.isMarkup with
  | true =>
      rw [framed_markup hmarkup, startsBlank, hmarkup]
      exact iff_of_false (fun h => h rfl) nofun
  | false =>
      rw [framed_run hmarkup, startsBlank, hmarkup]
      show p.text.takeWhile isBlank ≠ [] ↔ p.text.head?.any isBlank = true
      cases p.text with
      | nil => exact iff_of_false (fun h => h rfl) nofun
      | cons c rest =>
          show _ ↔ isBlank c = true
          by_cases hc : isBlank c = true
          · rw [List.takeWhile_cons_of_pos hc]
            exact iff_of_true (List.cons_ne_nil _ _) hc
          · rw [List.takeWhile_cons_of_neg hc]
            exact iff_of_false (fun h => h rfl) hc

/-- Blanks are dropped at the end of a run exactly if it ends with one, and has not been dropped
    whole. -/
theorem Piece.framed_trail_iff {p : Piece} (hplain : p.isMarkup = false) :
    p.framed.trail ≠ [] ↔ p.endsBlank = true ∧ p.text.dropWhile isBlank ≠ [] := by
  rw [framed_run hplain, endsBlank, hplain]
  show blankEnd p.text ≠ [] ↔ p.text.getLast?.any isBlank = true ∧ _
  obtain ⟨start, hstart⟩ := List.dropWhile_suffix isBlank (l := p.text)
  cases hrest : (p.text.dropWhile isBlank).reverse with
  | nil =>
      have hnil := List.reverse_eq_nil_iff.mp hrest
      rw [blankEnd, hnil]
      exact iff_of_false (fun h => h rfl) fun h => h.2 rfl
  | cons c rest =>
      have hdrop : p.text.dropWhile isBlank = rest.reverse ++ [c] := by
        rw [← List.reverse_reverse (p.text.dropWhile isBlank), hrest, List.reverse_cons]
      have hlast : p.text.getLast? = some c := by
        rw [← hstart, hdrop, ← List.append_assoc, List.getLast?_concat]
      have hne : p.text.dropWhile isBlank ≠ [] := by
        rw [hdrop]
        exact List.append_ne_nil_of_right_ne_nil _ (List.cons_ne_nil c [])
      rw [blankEnd, hrest, hlast, and_iff_left hne, Ne, List.reverse_eq_nil_iff]
      show _ ↔ isBlank c = true
      by_cases hc : isBlank c = true
      · rw [List.takeWhile_cons_of_pos hc]
        exact iff_of_true (List.cons_ne_nil _ _) hc
      · rw [List.takeWhile_cons_of_neg hc]
        exact iff_of_false (fun h => h rfl) hc

/-- Nothing is kept of a run of blanks. -/
theorem Piece.Readable.kept_eq_nil {p : Piece} (h : p.Readable) (hplain : p.isMarkup = false)
    (hblank : p.text.dropWhile isBlank = []) : p.kept = [] := by
  have hkept := h.kept_run hplain
  rw [inner, hblank] at hkept
  exact (Option.some.inj hkept).symm

theorem keptText_cons (p : Piece) (ps : List Piece) : keptText (p :: ps) = p.kept ++ keptText ps :=
  rfl

theorem keptText_concat (ps : List Piece) (p : Piece) :
    keptText (ps ++ [p]) = keptText ps ++ p.kept := by
  rw [keptText, List.flatMap_append, List.flatMap_singleton]
  rfl

/-- The blanks around a piece are lost nowhere but at the ends of all that is kept, exactly if those
    of the run are. -/
theorem Piece.Readable.faithfulIn_iff {p : Piece} (h : p.Readable) (before after : List Piece) :
    p.framed.FaithfulIn (keptText before) (keptText after) ↔ p.KeptIn before after := by
  constructor
  · intro hfaithful
    have hfirst : p.startsBlank = true → Text.HasText (keptText before)
        → ¬ Text.HasText (keptText (p :: after)) := by
      intro hstart hbefore
      have hnone := hfaithful.lead (p.framed_lead_iff.mpr hstart) hbefore
      rwa [framed_core] at hnone
    refine ⟨hfirst, fun hend hbefore => ?_⟩
    rw [keptText_concat] at hbefore
    cases hmarkup : p.isMarkup with
    | true =>
        rw [endsBlank, hmarkup] at hend
        cases hend
    | false =>
        by_cases hblank : p.text.dropWhile isBlank = []
        · -- a run of blanks is dropped at its start
          have hnil := h.kept_eq_nil hmarkup hblank
          rw [hnil, List.append_nil] at hbefore
          have hstart : p.startsBlank = true := by
            rw [← framed_lead_iff, framed_run hmarkup]
            intro hlead
            have htext := List.takeWhile_append_dropWhile (p := isBlank) (l := p.text)
            rw [show p.text.takeWhile isBlank = [] from hlead, hblank] at htext
            rw [endsBlank, ← htext] at hend
            simp at hend
          have hnone := hfirst hstart hbefore
          rwa [keptText_cons, hnil] at hnone
        · refine hfaithful.trail ((framed_trail_iff hmarkup).mpr ⟨hend, hblank⟩) ?_
          rwa [framed_core]
  · intro hkept
    constructor
    · intro hlead hbefore
      rw [framed_core]
      exact hkept.first (p.framed_lead_iff.mp hlead) hbefore
    · intro htrail hbefore
      rw [framed_core, ← keptText_concat] at hbefore
      cases hmarkup : p.isMarkup with
      | true =>
          rw [framed_markup hmarkup] at htrail
          exact absurd rfl htrail
      | false => exact hkept.last ((framed_trail_iff hmarkup).mp htrail).1 hbefore

/-- **What is kept** of some pieces is the text that they say, up to the blanks at its ends, exactly
    if no run has blanks at one of its ends with text on both sides of them. -/
theorem trim_keptText_eq_iff (h : ∀ p ∈ ps, p.Readable) :
    Text.trim (keptText ps) = Text.trim (saidText ps) ↔ Faithful ps := by
  have hblank : ∀ p ∈ ps.map (·.framed), p.Blank := by
    intro framed hframed
    obtain ⟨p, -, rfl⟩ := List.mem_map.mp hframed
    exact p.framed_blank
  rw [eq_comm, saidText_eq h, keptText_eq, Text.Framed.trim_whole_eq_iff hblank]
  constructor
  · rintro hfaithful before p after rfl
    have hp := hfaithful (before.map (·.framed)) p.framed (after.map (·.framed))
      (by rw [List.map_append, List.map_cons])
    rw [← keptText_eq, ← keptText_eq] at hp
    exact ((h p (by simp)).faithfulIn_iff before after).mp hp
  · rintro hkept _ _ _ heq
    obtain ⟨before, rest, rfl, rfl, hrest⟩ := List.map_eq_append_iff.mp heq
    obtain ⟨p, after, rfl, rfl, rfl⟩ := List.map_eq_cons_iff.mp hrest
    rw [← keptText_eq, ← keptText_eq]
    exact ((h p (by simp)).faithfulIn_iff before after).mpr (hkept before p after rfl)

end Markup

end FailureTriage
