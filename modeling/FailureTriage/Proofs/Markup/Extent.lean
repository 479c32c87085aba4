import FailureTriage.Markup.Event
import FailureTriage.Proofs.Text.Cutting
import Mathlib.Tactic.IntervalCases

/-!
# How far a piece of markup reaches

What is read of a piece of markup depends on that piece alone: with any other text after it the
same is read, and a piece that is cut short is refused.

* `Spans` says that a reader needs a certain text, and nothing beyond it.
* `spans_splitTag`, `spans_afterDocumentType`, `spans_splitAtFirstFrom?`: the three ways to find
  an end.
* `spans_readMarkup`, `taken_readMarkup`: the piece of markup at a place, and what it can be.
-/

namespace FailureTriage.Markup

/-- A reader that finds the same after `taken`, whatever comes next, and refuses less of it. -/
structure Spans {α : Type} (reader : List Char → Option α) (taken : List Char)
    (found : List Char → α) : Prop where
  whole : ∀ rest, reader (taken ++ rest) = some (found rest)
  short : ∀ n < taken.length, reader (taken.take n) = none

namespace Spans

variable {α β : Type} {reader inner : List Char → Option α} {taken : List Char}
  {found : List Char → α}

/-- A reader that goes on with another one after a mark. -/
theorem after {mark : List Char} (h : Spans inner taken found)
    (hmark : ∀ n < mark.length, reader (mark.take n) = none)
    (hinner : ∀ rest, reader (mark ++ rest) = inner rest) :
    Spans reader (mark ++ taken) found where
  whole := by
    intro rest
    rw [List.append_assoc, hinner, h.whole]
  short := by
    intro n hn
    rw [List.length_append] at hn
    rw [List.take_append]
    by_cases hin : n < mark.length
    · rw [Nat.sub_eq_zero_of_le (Nat.le_of_lt hin), List.take_zero, List.append_nil]
      exact hmark n hin
    · rw [List.take_of_length_le (Nat.le_of_not_lt hin), hinner]
      exact h.short _ (by omega)

/-- A reader that goes on with another one after a character. -/
theorem cons {c : Char} (h : Spans inner taken found) (hnil : reader [] = none)
    (hinner : ∀ rest, reader (c :: rest) = inner rest) : Spans reader (c :: taken) found := by
  have hmark : ∀ n < [c].length, reader ([c].take n) = none := by
    intro n hn
    rw [List.length_singleton, Nat.lt_one_iff] at hn
    rw [hn]
    exact hnil
  exact h.after hmark hinner

/-- A reader that does as another one does on texts that start like the one it takes. -/
theorem agree {c : Char} (h : Spans inner (c :: taken) found) (hnil : reader [] = none)
    (hagree : ∀ rest, reader (c :: rest) = inner (c :: rest)) :
    Spans reader (c :: taken) found where
  whole := by
    intro rest
    rw [List.cons_append, hagree, ← List.cons_append, h.whole]
  short := by
    intro n hn
    cases n with
    | zero => exact hnil
    | succ n =>
        rw [List.take_succ_cons, hagree, ← List.take_succ_cons, h.short _ hn]

/-- A reader that refuses the empty text takes something. -/
theorem exists_cons (h : Spans reader taken found) (hnil : reader [] = none) :
    ∃ c rest, taken = c :: rest := by
  refine List.exists_cons_of_ne_nil ?_
  rintro rfl
  have hwhole := h.whole []
  rw [List.append_nil, hnil] at hwhole
  cases hwhole

/-- A reader that makes something else of what another one finds. -/
theorem bind {make : α → Option β} {made : List Char → β} (h : Spans inner taken found)
    (hmake : ∀ rest, make (found rest) = some (made rest)) :
    Spans (fun text => (inner text).bind make) taken made where
  whole := by
    intro rest
    rw [h.whole, Option.bind_some, hmake]
  short := by
    intro n hn
    rw [h.short n hn, Option.bind_none]

end Spans

/-! ## The three ways to find an end -/

/-- A reader that stops right after a character. -/
private theorem spans_singleton {α : Type} {reader : List Char → Option α} {c : Char}
    {found : List Char → α} (hnil : reader [] = none)
    (hfound : ∀ rest, reader (c :: rest) = some (found rest)) : Spans reader [c] found where
  whole := hfound
  short := by
    intro n hn
    rw [List.length_singleton, Nat.lt_one_iff] at hn
    rw [hn]
    exact hnil

/-- The end of a tag is found in the tag. -/
theorem spans_splitTag {text content rest : List Char} {mark : Option Char} {found : List Char}
    (h : splitTag text mark found = some (content, rest)) :
    ∃ taken, text = taken ++ rest
      ∧ Spans (splitTag · mark found) taken fun rest => (content, rest) := by
  fun_induction splitTag text mark found with
  | case1 => cases h
  | case2 found text =>
      obtain ⟨rfl, rfl⟩ := Prod.mk.inj (Option.some.inj h)
      exact ⟨['>'], rfl, spans_singleton rfl fun rest => rfl⟩
  | case3 found c text hend ih =>
      obtain ⟨taken, rfl, hspans⟩ := ih h
      exact ⟨c :: taken, rfl, hspans.cons rfl fun rest => splitTag.eq_3 _ _ _ hend⟩
  | case4 found c text m ih =>
      obtain ⟨taken, rfl, hspans⟩ := ih h
      exact ⟨c :: taken, rfl, hspans.cons rfl fun rest => splitTag.eq_4 _ _ _ _⟩

/-- The end of a document type is found in the document type. -/
theorem spans_afterDocumentType {text content rest : List Char} {depth : Nat}
    {found : List Char} (h : afterDocumentType text depth found = some (content, rest)) :
    ∃ taken, text = taken ++ rest
      ∧ Spans (afterDocumentType · depth found) taken fun rest => (content, rest) := by
  fun_induction afterDocumentType text depth found with
  | case1 => cases h
  | case2 depth found text ih =>
      obtain ⟨taken, rfl, hspans⟩ := ih h
      exact ⟨'<' :: taken, rfl, hspans.cons rfl fun rest => rfl⟩
  | case3 found text =>
      obtain ⟨rfl, rfl⟩ := Prod.mk.inj (Option.some.inj h)
      exact ⟨['>'], rfl, spans_singleton rfl fun rest => rfl⟩
  | case4 found text depth ih =>
      obtain ⟨taken, rfl, hspans⟩ := ih h
      exact ⟨'>' :: taken, rfl, hspans.cons rfl fun rest => rfl⟩
  | case5 depth found c text hopen hclose ih =>
      obtain ⟨taken, rfl, hspans⟩ := ih h
      exact ⟨c :: taken, rfl,
        hspans.cons rfl fun rest => afterDocumentType.eq_5 _ _ _ _ hopen hclose⟩

/-- A fragment is found where it ends. -/
theorem spans_splitAtFirstFrom? {fragment text before rest passed : List Char}
    (hne : fragment ≠ [])
    (h : Text.splitAtFirstFrom? fragment text passed = some (before, rest)) :
    ∃ taken, text = taken ++ rest
      ∧ Spans (Text.splitAtFirstFrom? fragment · passed) taken fun rest => (before, rest) := by
  -- a text that is shorter than the fragment does not hold it
  have hshort : ∀ text passed : List Char, text.length < fragment.length →
      Text.splitAtFirstFrom? fragment text passed = none := by
    intro text passed hlt
    refine Option.eq_none_iff_forall_ne_some.mpr fun parts hparts => ?_
    have := Text.length_of_splitAtFirstFrom? (hparts : _ = some (parts.1, parts.2))
    omega
  induction text generalizing passed with
  | nil =>
      rw [hshort [] passed (List.length_pos_iff.mpr hne)] at h
      cases h
  | cons c text ih =>
      rw [Text.splitAtFirstFrom?.eq_def] at h
      cases hdrop : Text.dropFragment? fragment (c :: text) with
      | some tail =>
          rw [hdrop] at h
          obtain ⟨rfl, rfl⟩ := Prod.mk.inj (Option.some.inj h)
          refine ⟨fragment, Text.dropFragment?_eq_some.mp hdrop, fun rest => ?_, fun n hn => ?_⟩
          · rw [Text.splitAtFirstFrom?.eq_def, Text.dropFragment?_eq_some.mpr rfl]
          · exact hshort _ _ (by rw [List.length_take]; omega)
      | none =>
          rw [hdrop] at h
          obtain ⟨taken, rfl, hspans⟩ := ih h
          -- the fragment stands in what is taken after the first character, and not before
          have hlength : fragment.length ≤ taken.length := by
            have hwhole := hspans.whole []
            rw [List.append_nil] at hwhole
            have := Text.length_of_splitAtFirstFrom? hwhole
            rw [List.length_nil] at this
            omega
          have hnot : ¬ fragment <+: c :: taken := fun hstarts =>
            Text.dropFragment?_eq_none.mp hdrop (hstarts.trans ⟨rest, rfl⟩)
          have hstep : ∀ text, ¬ fragment <+: c :: text →
              Text.splitAtFirstFrom? fragment (c :: text) passed
                = Text.splitAtFirstFrom? fragment text (c :: passed) := by
            intro text hno
            rw [Text.splitAtFirstFrom?.eq_def, Text.dropFragment?_eq_none.mpr hno]
          refine ⟨c :: taken, rfl, fun other => ?_, fun n hn => ?_⟩
          · have hno : ¬ fragment <+: c :: (taken ++ other) := fun hstarts =>
              hnot (List.prefix_of_prefix_length_le hstarts ⟨other, rfl⟩
                (Nat.le_succ_of_le hlength))
            rw [List.cons_append, hstep _ hno, hspans.whole]
          · cases n with
            | zero => exact hshort _ _ (List.length_pos_iff.mpr hne)
            | succ n =>
                have hno : ¬ fragment <+: c :: taken.take n := fun hstarts =>
                  hnot (hstarts.trans (List.take_prefix (n + 1) (c :: taken)))
                rw [List.take_succ_cons, hstep _ hno]
                exact hspans.short n (Nat.lt_of_succ_lt_succ hn)

/-! ## Pieces of markup -/

variable {text : List Char} {openNames : List (List Char)} {s : Step}

/-- What is found by a reader of markup, with other text after it. -/
def Step.withRest (s : Step) (rest : List Char) : Step :=
  { s with rest }

private theorem spans_cut {fragment : List Char} (hne : fragment ≠ [])
    (event : List Char → Option Event)
    (h : (Text.splitAtFirst? fragment text).map
      (fun parts => (⟨event parts.1, openNames, parts.2⟩ : Step)) = some s) :
    ∃ taken, text = taken ++ s.rest
      ∧ Spans (fun text => (Text.splitAtFirst? fragment text).map
          fun parts => (⟨event parts.1, openNames, parts.2⟩ : Step)) taken s.withRest := by
  obtain ⟨⟨before, rest⟩, hsplit, rfl⟩ := Option.map_eq_some_iff.mp h
  obtain ⟨taken, htext, hspans⟩ := spans_splitAtFirstFrom? hne hsplit
  refine ⟨taken, htext, ?_⟩
  simp only [Option.map_eq_bind]
  exact hspans.bind fun rest => rfl

private theorem readDeclaration_documentType {d : Char} (hd : d.toLower = 'd')
    (tail : List Char) :
    readDeclaration (d :: tail) openNames
      = (afterDocumentType (d :: tail) 0 []).bind fun parts =>
          if (parts.1.take "doctype".toList.length).map Char.toLower = "doctype".toList
              && (parts.1.drop "doctype".toList.length).any (!isBlank ·) then
            some ⟨none, openNames, parts.2⟩
          else none := by
  rw [readDeclaration.eq_3]
  · rw [if_pos hd]
    rfl
  · rintro rest rfl
    exact absurd hd (by decide)
  · rintro rest rfl
    exact absurd hd (by decide)

private theorem spans_readDeclaration (h : readDeclaration text openNames = some s) :
    ∃ taken, text = taken ++ s.rest
      ∧ Spans (readDeclaration · openNames) taken s.withRest := by
  unfold readDeclaration at h
  split at h
  · have hne : "-->".toList ≠ [] := List.cons_ne_nil _ _
    obtain ⟨taken, rfl, hspans⟩ := spans_cut hne (fun _ => none) h
    refine ⟨"--".toList ++ taken, rfl, hspans.after (fun n hn => ?_) fun rest => rfl⟩
    change n < 2 at hn
    interval_cases n <;> rfl
  · have hne : "]]>".toList ≠ [] := List.cons_ne_nil _ _
    obtain ⟨taken, rfl, hspans⟩ := spans_cut hne (fun content => some (.verbatim content)) h
    refine ⟨"[CDATA[".toList ++ taken, rfl, hspans.after (fun n hn => ?_) fun rest => rfl⟩
    change n < 7 at hn
    interval_cases n <;> rfl
  · rename_i d tail hcomment hsection
    by_cases hd : d.toLower = 'd'
    · rw [if_pos hd] at h
      obtain ⟨⟨content, rest⟩, hsplit, hstep⟩ := Option.bind_eq_some_iff.mp h
      obtain ⟨taken, htext, hspans⟩ := spans_afterDocumentType hsplit
      obtain ⟨c, taken, rfl⟩ := hspans.exists_cons rfl
      obtain ⟨rfl, rfl⟩ := List.cons.inj htext
      dsimp only at hstep
      split at hstep
      · rename_i hkeyword
        obtain rfl := Option.some.inj hstep
        exact ⟨d :: taken, rfl, (hspans.bind fun rest => if_pos hkeyword).agree rfl
          fun rest => readDeclaration_documentType hd rest⟩
      · cases hstep
    · rw [if_neg hd] at h
      cases h
  · cases h

private theorem spans_readInstruction (h : readInstruction text openNames = some s) :
    ∃ taken, text = taken ++ s.rest
      ∧ Spans (readInstruction · openNames) taken s.withRest := by
  unfold readInstruction at h
  split at h
  · cases h
  · rename_i hmark
    have hne : "?>".toList ≠ [] := List.cons_ne_nil _ _
    obtain ⟨taken, rfl, hspans⟩ := spans_cut hne (fun _ => none) h
    obtain ⟨c, taken, rfl⟩ := hspans.exists_cons rfl
    refine ⟨c :: taken, rfl, hspans.agree rfl fun rest => ?_⟩
    rw [readInstruction]
    exact fun tail htail => hmark _ (congrArg (· :: (taken ++ s.rest)) (List.cons.inj htail).1)

private theorem spans_readEnd (h : readEnd text openNames = some s) :
    ∃ taken, text = taken ++ s.rest ∧ Spans (readEnd · openNames) taken s.withRest := by
  obtain ⟨⟨content, rest⟩, hsplit, hstep⟩ := Option.bind_eq_some_iff.mp h
  obtain ⟨taken, rfl, hspans⟩ := spans_splitTag hsplit
  cases openNames with
  | nil => cases hstep
  | cons innermost outer =>
      dsimp only at hstep
      split at hstep
      · rename_i hname
        obtain rfl := Option.some.inj hstep
        exact ⟨taken, rfl, hspans.bind fun rest => if_pos hname⟩
      · cases hstep

private theorem spans_readStart (h : readStart text openNames = some s) :
    ∃ taken, text = taken ++ s.rest ∧ Spans (readStart · openNames) taken s.withRest := by
  obtain ⟨⟨content, rest⟩, hsplit, hstep⟩ := Option.bind_eq_some_iff.mp h
  obtain ⟨taken, rfl, hspans⟩ := spans_splitTag hsplit
  dsimp only at hstep
  split at hstep
  · rename_i hslash
    obtain rfl := Option.some.inj hstep
    exact ⟨taken, rfl, hspans.bind fun rest => if_pos hslash⟩
  · rename_i hslash
    obtain rfl := Option.some.inj hstep
    exact ⟨taken, rfl, hspans.bind fun rest => if_neg hslash⟩

/-- **A piece of markup** is read from the text that it takes, and from no less. -/
theorem spans_readMarkup (h : readMarkup text openNames = some s) :
    ∃ taken, text = taken ++ s.rest ∧ Spans (readMarkup · openNames) taken s.withRest := by
  unfold readMarkup at h
  split at h
  · obtain ⟨taken, rfl, hspans⟩ := spans_readDeclaration h
    exact ⟨'!' :: taken, rfl, hspans.cons rfl fun rest => rfl⟩
  · obtain ⟨taken, rfl, hspans⟩ := spans_readInstruction h
    exact ⟨'?' :: taken, rfl, hspans.cons rfl fun rest => rfl⟩
  · obtain ⟨taken, rfl, hspans⟩ := spans_readEnd h
    exact ⟨'/' :: taken, rfl, hspans.cons rfl fun rest => rfl⟩
  · rename_i hdeclaration hinstruction hend
    obtain ⟨taken, rfl, hspans⟩ := spans_readStart h
    obtain ⟨c, taken, rfl⟩ := hspans.exists_cons rfl
    refine ⟨c :: taken, rfl, hspans.agree rfl fun rest => ?_⟩
    -- the first character opens no other kind of markup
    have hfirst : ∀ {mark : Char} {tail : List Char}, c :: rest = mark :: tail →
        c :: (taken ++ s.rest) = mark :: (taken ++ s.rest) :=
      fun htail => congrArg (· :: (taken ++ s.rest)) (List.cons.inj htail).1
    rw [readMarkup]
    · exact fun _ htail => hdeclaration _ (hfirst htail)
    · exact fun _ htail => hinstruction _ (hfirst htail)
    · exact fun _ htail => hend _ (hfirst htail)

/-- What a piece of markup can be, by its event and the names open before and after it. -/
inductive Taken : (openNames : List (List Char)) → Step → Prop
  | silent {openNames rest} : Taken openNames ⟨none, openNames, rest⟩
  | verbatim {openNames rest} (content : List Char) :
      Taken openNames ⟨some (.verbatim content), openNames, rest⟩
  | start {openNames rest} (name attributes : List Char) :
      Taken openNames ⟨some (.start (String.ofList name) attributes), name :: openNames, rest⟩
  | selfClosed {openNames rest} (name : String) (attributes : List Char) :
      Taken openNames ⟨some (.selfClosed name attributes), openNames, rest⟩
  | close {openNames rest} (name : List Char) :
      Taken (name :: openNames) ⟨some (.close (String.ofList name)), openNames, rest⟩

private theorem taken_readDeclaration (h : readDeclaration text openNames = some s) :
    Taken openNames s := by
  unfold readDeclaration at h
  split at h
  · obtain ⟨parts, -, rfl⟩ := Option.map_eq_some_iff.mp h
    exact .silent
  · obtain ⟨parts, -, rfl⟩ := Option.map_eq_some_iff.mp h
    exact .verbatim _
  · split at h
    · obtain ⟨parts, -, hstep⟩ := Option.bind_eq_some_iff.mp h
      obtain ⟨-, hsome⟩ := Option.ite_none_right_eq_some.mp hstep
      obtain rfl := Option.some.inj hsome
      exact .silent
    · cases h
  · cases h

private theorem taken_readEnd (h : readEnd text openNames = some s) : Taken openNames s := by
  obtain ⟨parts, -, hstep⟩ := Option.bind_eq_some_iff.mp h
  cases openNames with
  | nil => cases hstep
  | cons innermost outer =>
      obtain ⟨hname, hsome⟩ := Option.ite_none_right_eq_some.mp hstep
      obtain rfl := Option.some.inj hsome
      rw [hname]
      exact .close innermost

private theorem taken_readStart (h : readStart text openNames = some s) : Taken openNames s := by
  obtain ⟨parts, -, hstep⟩ := Option.bind_eq_some_iff.mp h
  dsimp only at hstep
  split at hstep
  · obtain rfl := Option.some.inj hstep
    exact .selfClosed _ _
  · obtain rfl := Option.some.inj hstep
    exact .start _ _

/-- **A piece of markup** is one of these. -/
theorem taken_readMarkup (h : readMarkup text openNames = some s) : Taken openNames s := by
  unfold readMarkup at h
  split at h
  · exact taken_readDeclaration h
  · unfold readInstruction at h
    split at h
    · cases h
    · obtain ⟨parts, -, rfl⟩ := Option.map_eq_some_iff.mp h
      exact .silent
  · exact taken_readEnd h
  · exact taken_readStart h

end FailureTriage.Markup
