import FailureTriage.Proofs.Text.Cutting
import FailureTriage.Proofs.Text.Replacing

/-!
# Segments between dots

A text with dots is a sequence of segments.  A replacement of a text that starts with a dot is a
replacement of whole segments, up to the ends of the text that is replaced: where that ends inside
of a segment, the segment is cut.

* `dotted`: segments, each with a dot before it.
* `dropInner`, `replace_dotted_inner`: runs of segments that stand before another one are left out.
* `swapRuns`, `Swap`: runs of segments are replaced by other segments.
* `Swap.replaced_eq_iff`: when a replacement in the text is one of segments.
* `PackagedName`: the segments of the name of a class in a package.
-/

namespace FailureTriage

/-- A part of a text between dots. -/
abbrev Segment := List Char

/-- Segments, each with a dot before it. -/
def dotted (segments : List Segment) : List Char :=
  segments.flatMap ('.' :: ·)

@[simp] theorem dotted_nil : dotted [] = [] :=
  rfl

@[simp] theorem dotted_cons (segment : Segment) (rest : List Segment) :
    dotted (segment :: rest) = '.' :: (segment ++ dotted rest) :=
  rfl

@[simp] theorem dotted_append (segments rest : List Segment) :
    dotted (segments ++ rest) = dotted segments ++ dotted rest :=
  List.flatMap_append

/-- The segments of a text. -/
theorem splitOn_dotted {first : Segment} {rest : List Segment} (hfirst : '.' ∉ first)
    (hrest : ∀ segment ∈ rest, '.' ∉ segment) :
    Text.splitOn '.' (first ++ dotted rest) = first :: rest := by
  induction rest generalizing first with
  | nil => rw [dotted_nil, List.append_nil, Text.splitOn_of_not_mem hfirst]
  | cons segment rest ih =>
      obtain ⟨hsegment, hrest⟩ := List.forall_mem_cons.mp hrest
      rw [dotted_cons, Text.splitOn_append, Text.splitOn_of_not_mem hfirst, ih hsegment hrest]
      rfl

/-- A text is made of its segments. -/
theorem append_dotted_of_splitOn {text : List Char} {first : Segment} {rest : List Segment}
    (h : Text.splitOn '.' text = first :: rest) : first ++ dotted rest = text := by
  induction text generalizing first rest with
  | nil =>
      obtain ⟨rfl, rfl⟩ := List.cons.inj h
      rfl
  | cons c text ih =>
      obtain ⟨next, later, hparts⟩ := Text.exists_splitOn '.' text
      by_cases hc : c = '.'
      · subst hc
        rw [Text.splitOn_cons_separator, hparts] at h
        obtain ⟨rfl, rfl⟩ := List.cons.inj h
        rw [List.nil_append, dotted_cons, ih hparts]
      · rw [Text.splitOn_cons hc hparts] at h
        obtain ⟨rfl, rfl⟩ := List.cons.inj h
        rw [List.cons_append, ih hparts]

section

variable {run new segments more : List Segment} {segment : Segment}

/-- Two texts that are the same have the same segment before their first dot. -/
private theorem eq_of_append_dot {s t text : List Char} (hs : '.' ∉ s) (ht : '.' ∉ t)
    (h : s ++ '.' :: text = t ++ dotted more) : s = t ∧ '.' :: text = dotted more := by
  have hstart : ∀ {front back : List Char}, front ++ back = dotted more → '.' ∉ front →
      front = [] := by
    intro front back heq hfront
    cases front with
    | nil => rfl
    | cons c front =>
        cases more with
        | nil => cases heq
        | cons segment more =>
            rw [dotted_cons, List.cons_append] at heq
            rw [(List.cons.inj heq).1] at hfront
            exact absurd List.mem_cons_self hfront
  rcases List.append_eq_append_iff.mp h with ⟨front, rfl, heq⟩ | ⟨front, rfl, heq⟩
  · cases front with
    | nil => exact ⟨(List.append_nil s).symm, heq⟩
    | cons c front =>
        rw [List.cons_append] at heq
        rw [← (List.cons.inj heq).1] at ht
        exact absurd (List.mem_append_right s List.mem_cons_self) ht
  · have hnil := hstart heq.symm fun hmem => hs (List.mem_append_right t hmem)
    subst hnil
    exact ⟨List.append_nil t, heq.symm⟩

/-- **A text that starts with segments and a dot** starts with these segments. -/
theorem prefix_dotted_iff {text : List Char} (hrun : ∀ segment ∈ run, '.' ∉ segment)
    (hsegments : ∀ segment ∈ segments, '.' ∉ segment) :
    dotted run ++ '.' :: text <+: dotted segments
      ↔ ∃ more, segments = run ++ more ∧ '.' :: text <+: dotted more := by
  refine ⟨fun h => ?_, ?_⟩
  · induction run generalizing segments with
    | nil => exact ⟨segments, rfl, h⟩
    | cons s run ih =>
        obtain ⟨hs, hrun⟩ := List.forall_mem_cons.mp hrun
        obtain ⟨tail, htail⟩ := h
        cases segments with
        | nil => cases htail
        | cons t segments =>
            obtain ⟨ht, hothers⟩ := List.forall_mem_cons.mp hsegments
            rw [dotted_cons, dotted_cons, List.cons_append, List.cons_append, List.append_assoc,
              List.append_assoc, List.cons_inj_right] at htail
            -- what follows the first segment of the run starts with a dot
            obtain ⟨later, hlater⟩ :
                ∃ later, dotted run ++ ('.' :: text ++ tail) = '.' :: later := by
              cases run with
              | nil => exact ⟨_, rfl⟩
              | cons s run => exact ⟨_, rfl⟩
            rw [hlater] at htail
            obtain ⟨rfl, heq⟩ := eq_of_append_dot hs ht htail
            have hrest : dotted run ++ '.' :: text <+: dotted segments :=
              ⟨tail, by rw [List.append_assoc, hlater, heq]⟩
            obtain ⟨more, rfl, hmore⟩ := ih hrun hothers hrest
            exact ⟨more, rfl, hmore⟩
  · rintro ⟨more, rfl, hmore⟩
    rw [dotted_append]
    exact (List.prefix_append_right_inj _).mpr hmore

/-- Where a replacement starts with a dot, a segment stays by itself. -/
private theorem replace_segment_append {stem replacement text : List Char} (h : '.' ∉ segment)
    {fragment : List Char} (hfragment : fragment = '.' :: stem) :
    Text.replace fragment replacement (segment ++ text)
      = segment ++ Text.replace fragment replacement text := by
  rw [hfragment]
  exact Text.replace_append_of_not_mem h replacement text

/-! ## Segments that stand before another one -/

/-- The segments without the runs that stand before another segment.  That other segment is kept,
    whatever it is. -/
def dropInner (run : List Segment) : List Segment → List Segment
  | [] => []
  | segment :: rest =>
    if run <+: segment :: rest then
      match _hdrop : rest.drop (run.length - 1) with
      | [] => segment :: rest
      | next :: more => next :: dropInner run more
    else segment :: dropInner run rest
termination_by segments => segments.length
decreasing_by
  · have hlength := congrArg List.length _hdrop
    rw [List.length_drop, List.length_cons] at hlength
    rw [List.length_cons]
    omega
  · exact Nat.lt_succ_self _

/-- Segments end here, or with the run, or they start with the run and another segment, or with a
    segment that is passed. -/
@[elab_as_elim]
theorem innerInduction (run : List Segment) {motive : List Segment → Prop}
    (segments : List Segment) (nil : motive []) (last : motive run)
    (found : ∀ segment more, motive more → motive (run ++ segment :: more))
    (passed : ∀ segment more, ¬ run <+: segment :: more → motive more → motive (segment :: more)) :
    motive segments := by
  generalize hlength : segments.length = length
  induction length using Nat.strong_induction_on generalizing segments with
  | h length ih =>
      subst hlength
      cases segments with
      | nil => exact nil
      | cons segment rest =>
          by_cases hstart : run <+: segment :: rest
          · obtain ⟨after, hafter⟩ := hstart
            rw [← hafter] at ih ⊢
            cases after with
            | nil => rwa [List.append_nil]
            | cons next more =>
                refine found next more (ih _ ?_ more rfl)
                rw [List.length_append, List.length_cons]
                omega
          · exact passed segment rest hstart (ih _ (Nat.lt_succ_self _) rest rfl)

section

variable (hrun : run ≠ [])
include hrun

private theorem drop_run (segments : List Segment) :
    ∃ lead tail, run ++ segments = lead :: tail ∧ tail.drop (run.length - 1) = segments := by
  obtain ⟨lead, run, rfl⟩ := List.exists_cons_of_ne_nil hrun
  exact ⟨lead, run ++ segments, rfl, List.drop_left⟩

@[simp] theorem dropInner_run_append (segment : Segment) (more : List Segment) :
    dropInner run (run ++ segment :: more) = segment :: dropInner run more := by
  obtain ⟨lead, tail, hsplit, hdrop⟩ := drop_run hrun (segment :: more)
  have hprefix : run <+: lead :: tail := hsplit ▸ List.prefix_append run _
  rw [hsplit, dropInner, if_pos hprefix]
  split
  · rename_i hnil
    rw [hnil] at hdrop
    cases hdrop
  · rename_i hcons
    rw [hcons] at hdrop
    obtain ⟨rfl, rfl⟩ := List.cons.inj hdrop
    rfl

@[simp] theorem dropInner_run : dropInner run run = run := by
  obtain ⟨lead, tail, hsplit, hdrop⟩ := drop_run hrun []
  have hprefix : run <+: lead :: tail := hsplit ▸ List.prefix_append run _
  rw [List.append_nil] at hsplit
  calc dropInner run run = dropInner run (lead :: tail) := congrArg _ hsplit
    _ = lead :: tail := by
      rw [dropInner, if_pos hprefix]
      split
      · rfl
      · rename_i hcons
        rw [hcons] at hdrop
        cases hdrop
    _ = run := hsplit.symm

/-- What is left are segments of the text, in their order. -/
theorem sublist_dropInner (segments : List Segment) :
    (dropInner run segments).Sublist segments := by
  induction segments using innerInduction run with
  | nil => rw [dropInner]
  | last => rw [dropInner_run hrun]
  | found segment more ih =>
      rw [dropInner_run_append hrun]
      exact (ih.cons_cons segment).trans (List.sublist_append_right run _)
  | passed segment more hstart ih =>
      rw [dropInner, if_neg hstart]
      exact ih.cons_cons segment

/-- **A replacement of segments with dots around them** leaves out whole segments. -/
theorem replace_dotted_inner (hundotted : ∀ segment ∈ run, '.' ∉ segment)
    (hsegments : ∀ segment ∈ segments, '.' ∉ segment) :
    Text.replace (dotted run ++ ['.']) ['.'] (dotted segments)
      = dotted (dropInner run segments) := by
  have hne : dotted run ++ ['.'] ≠ [] := List.append_ne_nil_of_right_ne_nil _ (List.cons_ne_nil _ _)
  obtain ⟨stem, hstem⟩ : ∃ stem, dotted run ++ ['.'] = '.' :: stem := by
    obtain ⟨lead, tail, rfl⟩ := List.exists_cons_of_ne_nil hrun
    exact ⟨_, rfl⟩
  induction segments using innerInduction run with
  | nil => rw [dropInner]; rfl
  | last =>
      -- the text ends before the last dot
      have hshort : ¬ dotted run ++ ['.'] <:+: dotted run := by
        intro hoccurs
        have hle := hoccurs.length_le
        rw [List.length_append, List.length_singleton] at hle
        omega
      rw [dropInner_run hrun]
      refine (Text.replace_eq_self_iff hne ?_ ?_).mpr hshort
      · rw [List.length_append]
        exact Nat.le_add_left _ _
      · obtain ⟨lead, tail, rfl⟩ := List.exists_cons_of_ne_nil hrun
        intro heq
        have hlength := congrArg List.length heq
        simp at hlength
  | found segment more ih =>
      have hsegment := hsegments segment (by simp)
      have hmore := ih fun s hs => hsegments s (by simp [hs])
      have htext : dotted (run ++ segment :: more)
          = dotted run ++ ['.'] ++ (segment ++ dotted more) := by
        rw [dotted_append, dotted_cons, List.append_assoc, List.singleton_append]
      rw [dropInner_run_append hrun, htext, Text.replace_fragment_append hne,
        replace_segment_append hsegment hstem, hmore]
      rfl
  | passed segment more hstart ih =>
      obtain ⟨hsegment, hmore⟩ := List.forall_mem_cons.mp hsegments
      have hno : ¬ dotted run ++ ['.'] <+: dotted (segment :: more) := by
        rw [prefix_dotted_iff hundotted hsegments]
        rintro ⟨later, hlater, -⟩
        exact hstart (hlater ▸ List.prefix_append run later)
      rw [dotted_cons] at hno ⊢
      rw [dropInner, if_neg hstart, Text.replace_cons_eq_cons hno,
        replace_segment_append hsegment hstem, ih hmore, dotted_cons]

end

theorem dropInner_ne_nil (segment : Segment) (rest : List Segment) :
    dropInner run (segment :: rest) ≠ [] := by
  rw [dropInner]
  split
  · split
    · exact List.cons_ne_nil _ _
    · exact List.cons_ne_nil _ _
  · exact List.cons_ne_nil _ _

/-- **A segment that is left out before others** is left in one of these places exactly if it stood
    there twice, one behind the other. -/
theorem mem_dropLast_dropInner_iff {segment : Segment} :
    segment ∈ (dropInner [segment] segments).dropLast
      ↔ ∃ next, [segment, segment, next] <:+: segments := by
  have hshort : ∀ {segments : List Segment}, segments.length < 3 →
      ¬ ∃ next, [segment, segment, next] <:+: segments := fun hlt ⟨_, hoccurs⟩ =>
    absurd hoccurs.length_le (Nat.not_le.mpr hlt)
  induction segments using innerInduction [segment] with
  | nil => exact iff_of_false (by rw [dropInner]; exact List.not_mem_nil) (hshort (by decide))
  | last =>
      rw [dropInner_run (List.cons_ne_nil _ _)]
      exact iff_of_false List.not_mem_nil (hshort (by simp))
  | found next more ih =>
      rw [dropInner_run_append (List.cons_ne_nil _ _)]
      cases more with
      | nil => exact iff_of_false (by rw [dropInner]; exact List.not_mem_nil) (hshort (by simp))
      | cons third more =>
          rw [List.dropLast_cons_of_ne_nil (dropInner_ne_nil third more), List.mem_cons]
          refine (or_congr_right ih).trans ⟨?_, ?_⟩
          · rintro (rfl | ⟨last, hlast⟩)
            · exact ⟨third, [], more, rfl⟩
            · exact ⟨last, List.infix_cons (List.infix_cons hlast)⟩
          · rintro ⟨last, hlast⟩
            rcases List.infix_cons_iff.mp hlast with hlast | hlast
            · exact Or.inl (List.cons_prefix_cons.mp (List.cons_prefix_cons.mp hlast).2).1
            rcases List.infix_cons_iff.mp hlast with hlast | hlast
            · exact Or.inl (List.cons_prefix_cons.mp hlast).1
            · exact Or.inr ⟨last, hlast⟩
  | passed first more hstart ih =>
      have hfirst : segment ≠ first := by
        rintro rfl
        exact hstart ⟨more, rfl⟩
      rw [dropInner, if_neg hstart]
      cases more with
      | nil => exact iff_of_false (by rw [dropInner]; exact List.not_mem_nil) (hshort (by simp))
      | cons second more =>
          rw [List.dropLast_cons_of_ne_nil (dropInner_ne_nil second more), List.mem_cons,
            or_iff_right hfirst]
          refine ih.trans (exists_congr fun last => ⟨List.infix_cons, fun hlast => ?_⟩)
          refine (List.infix_cons_iff.mp hlast).resolve_left fun hprefix => ?_
          exact hfirst (List.cons_prefix_cons.mp hprefix).1

/-! ## Segments that are replaced -/

/-- The segments with each run replaced by other segments, from the first one on. -/
def swapRuns (run new : List Segment) : List Segment → List Segment
  | [] => []
  | segment :: rest =>
    if run <+: segment :: rest then new ++ swapRuns run new (rest.drop (run.length - 1))
    else segment :: swapRuns run new rest
termination_by segments => segments.length
decreasing_by
  · rw [List.length_drop, List.length_cons]
    omega
  · exact Nat.lt_succ_self _

theorem swapRuns_run_append (hrun : run ≠ []) (segments : List Segment) :
    swapRuns run new (run ++ segments) = new ++ swapRuns run new segments := by
  obtain ⟨lead, tail, hsplit, hdrop⟩ := drop_run hrun segments
  have hprefix : run <+: lead :: tail := hsplit ▸ List.prefix_append run _
  rw [hsplit, swapRuns, if_pos hprefix, hdrop]

/-- Segments stay in which no run starts. -/
theorem swapRuns_append_of_not_mem {lead : Segment} {tail middle : List Segment}
    (h : lead ∉ middle) (more : List Segment) :
    swapRuns (lead :: tail) new (middle ++ more) = middle ++ swapRuns (lead :: tail) new more := by
  induction middle with
  | nil => rfl
  | cons segment middle ih =>
      rw [List.mem_cons, not_or] at h
      have hstart : ¬ lead :: tail <+: segment :: (middle ++ more) := fun hprefix =>
        h.1 (List.cons_prefix_cons.mp hprefix).1
      rw [List.cons_append, swapRuns, if_neg hstart, ih h.2, List.cons_append]

/-- A run lies behind segments in which it does not start. -/
theorem infix_of_infix_append {lead : Segment} {tail middle : List Segment} (h : lead ∉ middle)
    (hoccurs : lead :: tail <:+: middle ++ more) : lead :: tail <:+: more := by
  induction middle with
  | nil => exact hoccurs
  | cons segment middle ih =>
      rw [List.mem_cons, not_or] at h
      refine ih h.2 ((List.infix_cons_iff.mp hoccurs).resolve_left fun hprefix => ?_)
      exact h.1 (List.cons_prefix_cons.mp hprefix).1

/-- What comes out are segments of the text, or new ones. -/
theorem mem_of_mem_swapRuns (h : segment ∈ swapRuns run new segments) :
    segment ∈ segments ∨ segment ∈ new := by
  generalize hlength : segments.length = length
  induction length using Nat.strong_induction_on generalizing segments with
  | h length ih =>
      subst hlength
      cases segments with
      | nil =>
          rw [swapRuns] at h
          cases h
      | cons first rest =>
          rw [swapRuns] at h
          split at h
          · rcases List.mem_append.mp h with h | h
            · exact Or.inr h
            · have hshort : (rest.drop (run.length - 1)).length < (first :: rest).length := by
                rw [List.length_drop, List.length_cons]
                omega
              refine (ih _ hshort h rfl).imp_left fun hmem => ?_
              exact List.mem_cons_of_mem first (List.mem_of_mem_drop hmem)
          · rcases List.mem_cons.mp h with rfl | h
            · exact Or.inl List.mem_cons_self
            · exact (ih _ (Nat.lt_succ_self _) h rfl).imp_left (List.mem_cons_of_mem first)

end

/-- Segments to be replaced by others in a text.  The text that is looked for ends with the last of
    them, and the segment in which it ends may go on. -/
structure Swap where
  before : List Segment
  last : Segment
  new : List Segment
  undotted : ∀ segment ∈ before ++ [last], '.' ∉ segment
  shorter : (dotted new).length < (dotted (before ++ [last])).length
  /-- The text does not start once more inside of itself. -/
  apart : ∀ lead ∈ before.head?, lead ∉ before.tail ∧ ¬ last <+: lead

namespace Swap

variable {swap : Swap} {segments : List Segment} {segment : Segment}

/-- The segments that are looked for. -/
def run (swap : Swap) : List Segment :=
  swap.before ++ [swap.last]

/-- Whether a segment merely begins with the last one, behind the others. -/
def Cuts (swap : Swap) (segments : List Segment) : Prop :=
  ∃ segment ∈ segments, swap.before ++ [segment] <:+: segments
    ∧ swap.last <+: segment ∧ segment ≠ swap.last

instance (swap : Swap) (segments : List Segment) : Decidable (swap.Cuts segments) :=
  inferInstanceAs (Decidable (∃ segment ∈ segments, _))

theorem run_ne_nil (swap : Swap) : swap.run ≠ [] :=
  List.append_ne_nil_of_right_ne_nil _ (List.cons_ne_nil _ _)

theorem dotted_run (swap : Swap) : dotted swap.run = dotted swap.before ++ '.' :: swap.last := by
  rw [run, dotted_append, dotted_cons, dotted_nil, List.append_nil]

/-- Whether segments begin with the ones before the last, and a segment that begins with the
    last. -/
def Begins (swap : Swap) (segments : List Segment) : Prop :=
  ∃ found more, segments = swap.before ++ found :: more ∧ swap.last <+: found

/-- **The text that is looked for** is at the start of the text of the segments that begin so. -/
theorem prefix_dotted_run_iff (hsegments : ∀ segment ∈ segments, '.' ∉ segment) :
    dotted swap.run <+: dotted segments ↔ swap.Begins segments := by
  have hbefore : ∀ segment ∈ swap.before, '.' ∉ segment := fun segment hmem =>
    swap.undotted segment (List.mem_append_left _ hmem)
  have hlast : '.' ∉ swap.last := swap.undotted _ (by simp)
  rw [dotted_run, prefix_dotted_iff hbefore hsegments]
  constructor
  · rintro ⟨_ | ⟨segment, more⟩, rfl, hprefix⟩
    · cases List.prefix_nil.mp hprefix
    · refine ⟨segment, more, rfl, ?_⟩
      rw [dotted_cons, List.cons_prefix_cons] at hprefix
      rcases Text.prefix_append_cases hprefix.2 with hinside | ⟨c, rest, hlong, hrest⟩
      · exact hinside
      · -- the next dot would be in the last segment
        cases more with
        | nil => cases List.prefix_nil.mp hrest
        | cons next more =>
            obtain rfl := (List.cons_prefix_cons.mp hrest).1
            rw [hlong] at hlast
            exact absurd (List.mem_append_right segment List.mem_cons_self) hlast
  · rintro ⟨segment, more, rfl, hprefix⟩
    refine ⟨segment :: more, rfl, ?_⟩
    rw [dotted_cons, List.cons_prefix_cons]
    exact ⟨rfl, hprefix.trans (List.prefix_append _ _)⟩

/-- No run starts in the other segments of one. -/
theorem lead_not_mem {lead : Segment} {inner : List Segment} (hbefore : swap.before = lead :: inner)
    (hlast : swap.last <+: segment) : lead ∉ inner ++ [segment] := by
  have hapart := swap.apart lead (by rw [hbefore]; rfl)
  rw [hbefore] at hapart
  rw [List.mem_append, List.mem_singleton, not_or]
  refine ⟨hapart.1, ?_⟩
  rintro rfl
  exact hapart.2 hlast

/-- A segment that goes on is not replaced with the whole segments. -/
theorem swapRuns_cut (hlast : swap.last <+: segment) (hne : segment ≠ swap.last)
    (more : List Segment) :
    swapRuns swap.run swap.new (swap.before ++ segment :: more)
      = swap.before ++ segment :: swapRuns swap.run swap.new more := by
  have hstart : ¬ swap.run <+: swap.before ++ segment :: more := by
    rw [run, List.prefix_append_right_inj]
    exact fun hprefix => hne (List.cons_prefix_cons.mp hprefix).1.symm
  cases hbefore : swap.before with
  | nil =>
      rw [hbefore] at hstart
      exact (swapRuns.eq_2 ..).trans (if_neg hstart)
  | cons lead inner =>
      have hrun : swap.run = lead :: (inner ++ [swap.last]) := by rw [run, hbefore]; rfl
      have hkept := @swapRuns_append_of_not_mem swap.new lead (inner ++ [swap.last])
        (inner ++ [segment]) (lead_not_mem hbefore hlast) more
      rw [hbefore, List.cons_append] at hstart
      rw [List.append_assoc, List.append_assoc, List.singleton_append] at hkept
      rw [List.cons_append, swapRuns, if_neg hstart, hrun, hkept]
      rfl

theorem cuts_iff : swap.Cuts segments
    ↔ ∃ segment, swap.before ++ [segment] <:+: segments ∧ swap.last <+: segment
      ∧ segment ≠ swap.last :=
  exists_congr fun segment => and_iff_right_of_imp fun h => h.1.subset (by simp)

/-- What starts like the run starts with a segment that is cut, if that one goes on. -/
theorem cuts_append_iff (hlast : swap.last <+: segment) (more : List Segment) :
    swap.Cuts (swap.before ++ segment :: more) ↔ segment ≠ swap.last ∨ swap.Cuts more := by
  rw [cuts_iff, cuts_iff]
  constructor
  · rintro ⟨found, hoccurs, hfound, hne⟩
    cases hbefore : swap.before with
    | nil =>
        rw [hbefore] at hoccurs
        rcases List.infix_cons_iff.mp hoccurs with hprefix | hoccurs
        · rw [← (List.cons_prefix_cons.mp hprefix).1]
          exact Or.inl hne
        · exact Or.inr ⟨found, hoccurs, hfound, hne⟩
    | cons lead inner =>
        have hsplit : lead :: inner ++ segment :: more
            = lead :: (inner ++ [segment] ++ more) := by simp
        rw [hbefore, hsplit] at hoccurs
        rcases List.infix_cons_iff.mp hoccurs with hprefix | hoccurs
        · rw [← hsplit, List.prefix_append_right_inj] at hprefix
          rw [← (List.cons_prefix_cons.mp hprefix).1]
          exact Or.inl hne
        · have hmore := infix_of_infix_append (lead_not_mem hbefore hlast) hoccurs
          exact Or.inr ⟨found, hmore, hfound, hne⟩
  · rintro (hne | ⟨found, hoccurs, hfound, hne⟩)
    · refine ⟨segment, ⟨[], more, ?_⟩, hlast, hne⟩
      rw [List.nil_append, List.append_assoc, List.singleton_append]
    · refine ⟨found, hoccurs.trans ?_, hfound, hne⟩
      exact (List.suffix_append (swap.before ++ [segment]) more).isInfix.trans (by simp)

/-- Where the text does not start nothing is cut. -/
theorem cuts_cons_iff {rest : List Segment}
    (hstart : ¬ swap.Begins (segment :: rest)) :
    swap.Cuts (segment :: rest) ↔ swap.Cuts rest := by
  rw [cuts_iff, cuts_iff]
  refine exists_congr fun found => and_congr_left fun hfound => ⟨fun hoccurs => ?_, List.infix_cons⟩
  refine (List.infix_cons_iff.mp hoccurs).resolve_left fun ⟨more, hmore⟩ => hstart ?_
  rw [List.append_assoc] at hmore
  exact ⟨found, more, hmore.symm, hfound.1⟩

theorem exists_stem (swap : Swap) : ∃ stem, dotted swap.run = '.' :: stem := by
  obtain ⟨lead, tail, htail⟩ := List.exists_cons_of_ne_nil swap.run_ne_nil
  exact ⟨lead ++ dotted tail, by rw [htail, dotted_cons]⟩

/-- The text of segments with the run in it replaced. -/
def replaced (swap : Swap) (segments : List Segment) : List Char :=
  Text.replace (dotted swap.run) (dotted swap.new) (dotted segments)

/-- What is left of the last segment stays, behind the new ones. -/
theorem replaced_run_append {rest : List Char} (hrest : '.' ∉ rest) (more : List Segment) :
    swap.replaced (swap.before ++ (swap.last ++ rest) :: more)
      = dotted swap.new ++ (rest ++ swap.replaced more) := by
  obtain ⟨stem, hstem⟩ := swap.exists_stem
  have hne : dotted swap.run ≠ [] := hstem ▸ List.cons_ne_nil _ _
  have htext : dotted (swap.before ++ (swap.last ++ rest) :: more)
      = dotted swap.run ++ (rest ++ dotted more) := by
    rw [dotted_run, dotted_append, dotted_cons, List.append_assoc, List.append_assoc,
      List.cons_append]
  rw [replaced, htext, Text.replace_fragment_append hne, replace_segment_append hrest hstem]
  rfl

/-- A segment with which the text does not start stays. -/
theorem replaced_cons {rest : List Segment}
    (hsegments : ∀ s ∈ segment :: rest, '.' ∉ s)
    (hstart : ¬ swap.Begins (segment :: rest)) :
    swap.replaced (segment :: rest) = '.' :: (segment ++ swap.replaced rest) := by
  obtain ⟨stem, hstem⟩ := swap.exists_stem
  have hno : ¬ dotted swap.run <+: dotted (segment :: rest) := fun h =>
    hstart ((prefix_dotted_run_iff hsegments).mp h)
  rw [dotted_cons] at hno
  rw [replaced, dotted_cons, Text.replace_cons_eq_cons hno,
    replace_segment_append (hsegments segment List.mem_cons_self) hstem]
  rfl

/-- A run of whole segments. -/
theorem swapRuns_whole (more : List Segment) :
    swapRuns swap.run swap.new (swap.before ++ swap.last :: more)
      = swap.new ++ swapRuns swap.run swap.new more := by
  have hrun := @swapRuns_run_append swap.run swap.new swap.run_ne_nil more
  rwa [run, List.append_assoc, List.singleton_append] at hrun

/-- A segment with which the run does not start stays with the whole segments too. -/
theorem swapRuns_cons {rest : List Segment}
    (hstart : ¬ swap.Begins (segment :: rest)) :
    swapRuns swap.run swap.new (segment :: rest) = segment :: swapRuns swap.run swap.new rest := by
  rw [swapRuns, if_neg]
  rintro ⟨more, hmore⟩
  rw [run, List.append_assoc] at hmore
  exact hstart ⟨swap.last, more, hmore.symm, List.prefix_rfl⟩

/-- **What a replacement in the text makes of segments**: the text of the segments that are
    replaced where none is cut, and a shorter one where one is. -/
theorem replaced_eq (hsegments : ∀ segment ∈ segments, '.' ∉ segment) :
    (¬ swap.Cuts segments
      → swap.replaced segments = dotted (swapRuns swap.run swap.new segments))
    ∧ (swap.Cuts segments → (swap.replaced segments).length
      < (dotted (swapRuns swap.run swap.new segments)).length) := by
  generalize hlength : segments.length = length
  induction length using Nat.strong_induction_on generalizing segments with
  | h length ih =>
      subst hlength
      by_cases hstart : swap.Begins segments
      · obtain ⟨segment, more, rfl, rest, rfl⟩ := hstart
        have hlast : swap.last <+: swap.last ++ rest := List.prefix_append _ _
        have hrest : '.' ∉ rest := fun hmem =>
          hsegments (swap.last ++ rest) (by simp) (List.mem_append_right _ hmem)
        obtain ⟨hwhole, hcut⟩ := ih more.length (by simp; omega)
          (fun s hs => hsegments s (by simp [hs])) rfl
        rw [replaced_run_append hrest, cuts_append_iff hlast]
        by_cases hnil : rest = []
        · -- the last segment ends with the text that is looked for
          subst hnil
          rw [List.append_nil, List.nil_append, swapRuns_whole, dotted_append,
            or_iff_right fun h => h rfl]
          refine ⟨fun h => by rw [hwhole h], fun h => ?_⟩
          rw [List.length_append, List.length_append]
          exact Nat.add_lt_add_left (hcut h) _
        · have hne : swap.last ++ rest ≠ swap.last := fun h =>
            hnil (List.append_right_eq_self.mp h)
          refine ⟨fun h => absurd (Or.inl hne) h, fun _ => ?_⟩
          have hle : (swap.replaced more).length
              ≤ (dotted (swapRuns swap.run swap.new more)).length := by
            by_cases hmore : swap.Cuts more
            · exact (hcut hmore).le
            · exact (congrArg List.length (hwhole hmore)).le
          have hshorter := swap.shorter
          rw [swapRuns_cut hlast hne]
          simp only [dotted_append, dotted_cons, dotted_nil, List.length_append, List.length_cons,
            List.length_nil] at hshorter ⊢
          omega
      · cases segments with
        | nil =>
            refine ⟨fun _ => by rw [swapRuns]; rfl, fun h => ?_⟩
            obtain ⟨segment, hmem, -⟩ := h
            cases hmem
        | cons segment rest =>
            obtain ⟨hwhole, hcut⟩ := ih rest.length (Nat.lt_succ_self _)
              (List.forall_mem_cons.mp hsegments).2 rfl
            rw [replaced_cons hsegments hstart, swapRuns_cons hstart, cuts_cons_iff hstart,
              dotted_cons]
            refine ⟨fun h => by rw [hwhole h], fun h => ?_⟩
            have hlt := hcut h
            rw [List.length_cons, List.length_cons, List.length_append, List.length_append]
            omega

/-- **A replacement in the text is one of whole segments** exactly where no segment is cut. -/
theorem replaced_eq_iff (hsegments : ∀ segment ∈ segments, '.' ∉ segment) :
    swap.replaced segments = dotted (swapRuns swap.run swap.new segments)
      ↔ ¬ swap.Cuts segments :=
  ⟨fun h hcut => absurd (congrArg List.length h) ((replaced_eq hsegments).2 hcut).ne,
    (replaced_eq hsegments).1⟩

end Swap

/-! ## Names of classes -/

/-- The name of a class in a package: the segments of the package, and the simple name. -/
structure PackagedName where
  first : Segment
  rest : List Segment
  simple : Segment
  undotted : ∀ segment ∈ first :: simple :: rest, '.' ∉ segment

namespace PackagedName

variable (name : PackagedName)

/-- The text of the package. -/
def package : List Char :=
  name.first ++ dotted name.rest

/-- The name as it is written. -/
def text : String :=
  String.ofList (name.package ++ '.' :: name.simple)

theorem undotted_first : '.' ∉ name.first :=
  name.undotted _ (by simp)

theorem undotted_simple : '.' ∉ name.simple :=
  name.undotted _ (by simp)

theorem undotted_rest : ∀ segment ∈ name.rest, '.' ∉ segment := fun segment hsegment =>
  name.undotted segment (by simp [hsegment])

/-- Every name with a dot in it is the name of a class in a package. -/
theorem exists_text_eq {testClass : String} (h : '.' ∈ testClass.toList) :
    ∃ name : PackagedName, name.text = testClass := by
  obtain ⟨after, before, hreverse, hafter⟩ :=
    List.eq_append_cons_of_mem (List.mem_reverse.mpr h)
  have htext : testClass.toList = before.reverse ++ '.' :: after.reverse := by
    rw [← List.reverse_reverse testClass.toList, hreverse, List.reverse_append, List.reverse_cons,
      List.append_assoc, List.singleton_append]
  obtain ⟨first, rest, hparts⟩ := Text.exists_splitOn '.' before.reverse
  have hpart : ∀ segment ∈ first :: rest, '.' ∉ segment := fun segment hsegment =>
    Text.not_mem_of_mem_splitOn (hparts ▸ hsegment)
  obtain ⟨hfirst, hrest⟩ := List.forall_mem_cons.mp hpart
  have hsimple : '.' ∉ after.reverse := fun hmem => hafter (List.mem_reverse.mp hmem)
  refine ⟨⟨first, rest, after.reverse,
    List.forall_mem_cons.mpr ⟨hfirst, List.forall_mem_cons.mpr ⟨hsimple, hrest⟩⟩⟩, ?_⟩
  rw [text, package, append_dotted_of_splitOn hparts, ← htext, String.ofList_toList]

/-- The name as it is written. -/
theorem toList_text : name.text.toList = name.first ++ dotted (name.rest ++ [name.simple]) := by
  rw [text, String.toList_ofList, package, dotted_append, dotted_cons, dotted_nil, List.append_nil,
    List.append_assoc]

/-- The segments of the name. -/
theorem splitOn_text :
    Text.splitOn '.' name.text.toList = name.first :: (name.rest ++ [name.simple]) := by
  rw [toList_text, splitOn_dotted name.undotted_first]
  intro segment hsegment
  rcases List.mem_append.mp hsegment with hrest | hsimple
  · exact name.undotted_rest segment hrest
  · rw [List.mem_singleton.mp hsimple]
    exact name.undotted_simple

/-- A name is written in one way only. -/
theorem eq_of_text {before after : List Char} (hafter : '.' ∉ after)
    (h : name.text.toList = before ++ '.' :: after) :
    before = name.package ∧ after = name.simple := by
  rw [text, String.toList_ofList] at h
  have hlast := congrArg (Text.beforeLast? '.') h
  rw [Text.beforeLast?_append_cons name.undotted_simple, Text.beforeLast?_append_cons hafter]
    at hlast
  obtain rfl := Option.some.inj hlast
  exact ⟨rfl, (List.cons.inj (List.append_cancel_left h)).2.symm⟩

end PackagedName

end FailureTriage
