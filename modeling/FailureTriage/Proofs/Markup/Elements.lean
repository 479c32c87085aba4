import FailureTriage.Proofs.Markup.Pieces
import Mathlib.Data.List.Induction

/-!
# The elements of a document

Which start tags are open after some pieces of a document, and which elements are closed.  A tag is
told by its place, the number of pieces before it.

* `openTags` are the tags that are open after some pieces, and `enclosing?` the innermost one of a
  name around a place.
* `elements` are the elements of a name, in the order in which they are closed.
* `Nested`: an end tag closes the innermost open tag, and has its name.
* `open_or_closed`: a tag that is open is still open later on, or it has been closed.
* `exists_close`: if no tag of a name is open in the end, each has an end tag.
-/

namespace FailureTriage.Markup

/-- The event of the piece at a place. -/
def eventAt? (ps : List Piece) (i : Nat) : Option Event :=
  ps[i]?.bind (·.event)

/-- The name of the start tag at a place. -/
def startName? (ps : List Piece) (i : Nat) : Option String :=
  match eventAt? ps i with
  | some (.start name _) => some name
  | _ => none

/-- The places of the open tags after one more piece. -/
def nextOpen (opened : List Nat) (p : Piece) (place : Nat) : List Nat :=
  match p.event with
  | some (.start _ _) => place :: opened
  | some (.close _) => opened.tail
  | _ => opened

/-- The places of the start tags that are open after some pieces, the innermost first. -/
def openTags (ps : List Piece) : List Nat :=
  ps.zipIdx.foldl (fun opened item => nextOpen opened item.1 item.2) []

/-- The places of the open tags of a name. -/
def openNamed (ps : List Piece) (name : String) : List Nat :=
  (openTags ps).filter fun i => startName? ps i == some name

/-- The place of the innermost tag of a name that is open at a place. -/
def enclosing? (ps : List Piece) (name : String) (place : Nat) : Option Nat :=
  (openNamed (ps.take place) name).head?

/-- The element of a name that ends with the piece at a place: the places of its first and its last
    piece. -/
def elementEnding? (ps : List Piece) (name : String) (place : Nat) : Option (Nat × Nat) :=
  match eventAt? ps place with
  | some (.selfClosed tag _) => if tag = name then some (place, place) else none
  | some (.close tag) =>
    if tag = name then (openTags (ps.take place)).head?.map (·, place) else none
  | _ => none

/-- The elements of a name, in the order in which they are closed. -/
def elements (ps : List Piece) (name : String) : List (Nat × Nat) :=
  (List.range ps.length).filterMap (elementEnding? ps name)

/-- Every end tag closes the innermost open tag, and has the name of that tag. -/
def Nested (ps : List Piece) : Prop :=
  ∀ j name, eventAt? ps j = some (.close name) →
    ∃ i rest, openTags (ps.take j) = i :: rest ∧ startName? ps i = some name

variable {ps more : List Piece} {p : Piece} {i j k : Nat} {name : String}

/-! ## One more piece -/

theorem eventAt?_append (h : i < ps.length) : eventAt? (ps ++ more) i = eventAt? ps i := by
  rw [eventAt?, eventAt?, List.getElem?_append_left h]

@[simp] theorem eventAt?_length : eventAt? (ps ++ [p]) ps.length = p.event := by
  rw [eventAt?, List.getElem?_append_right (Nat.le_refl _), Nat.sub_self]
  rfl

theorem eventAt?_of_getElem? (h : ps[i]? = some p) : eventAt? ps i = p.event := by
  rw [eventAt?, h]
  rfl

/-- The piece of an event. -/
theorem exists_of_eventAt? {event : Event} (h : eventAt? ps i = some event) :
    ∃ p, ps[i]? = some p ∧ p.event = some event :=
  Option.bind_eq_some_iff.mp h

theorem lt_of_eventAt? {event : Event} (h : eventAt? ps i = some event) : i < ps.length := by
  obtain ⟨p, hp, -⟩ := Option.bind_eq_some_iff.mp h
  exact (List.getElem?_eq_some_iff.mp hp).1

theorem startName?_append (h : i < ps.length) : startName? (ps ++ more) i = startName? ps i := by
  rw [startName?, startName?, eventAt?_append h]

theorem startName?_eq_some : startName? ps i = some name ↔
    ∃ attributes, eventAt? ps i = some (.start name attributes) := by
  rw [startName?]
  constructor
  · intro h
    split at h
    · rename_i tag attributes hevent
      exact ⟨attributes, by rw [hevent, Option.some.inj h]⟩
    · cases h
  · rintro ⟨attributes, hevent⟩
    rw [hevent]

@[simp] theorem openTags_nil : openTags [] = [] := rfl

theorem openTags_snoc (ps : List Piece) (p : Piece) :
    openTags (ps ++ [p]) = nextOpen (openTags ps) p ps.length := by
  rw [openTags, List.zipIdx_append, List.foldl_append, Nat.zero_add]
  rfl

/-- A tag is open after one more piece only if it was open, or is that piece. -/
theorem mem_openTags_snoc (h : i ∈ openTags (ps ++ [p])) :
    i ∈ openTags ps ∨ i = ps.length ∧ ∃ tag attributes, p.event = some (.start tag attributes) := by
  rw [openTags_snoc, nextOpen] at h
  split at h
  · rename_i tag attributes hevent
    rcases List.mem_cons.mp h with rfl | h
    · exact Or.inr ⟨rfl, tag, attributes, hevent⟩
    · exact Or.inl h
  · exact Or.inl (List.mem_of_mem_tail h)
  · exact Or.inl h

/-- An open tag is a start tag before the end. -/
theorem exists_startName? (h : i ∈ openTags ps) :
    i < ps.length ∧ ∃ name, startName? ps i = some name := by
  induction ps using List.reverseRecOn with
  | nil => cases h
  | append_singleton ps p ih =>
      rw [List.length_append, List.length_singleton]
      rcases mem_openTags_snoc h with h | ⟨rfl, tag, attributes, hevent⟩
      · obtain ⟨hlt, name, hname⟩ := ih h
        exact ⟨Nat.lt_succ_of_lt hlt, name, by rw [startName?_append hlt, hname]⟩
      · refine ⟨Nat.lt_succ_self _, tag, startName?_eq_some.mpr ⟨attributes, ?_⟩⟩
        rw [eventAt?_length, hevent]

theorem lt_of_mem_openTags (h : i ∈ openTags ps) : i < ps.length :=
  (exists_startName? h).1

/-- The innermost open tag lies before the end. -/
theorem innermost_lt {rest : List Nat} (h : openTags ps = i :: rest) : i < ps.length :=
  lt_of_mem_openTags (h ▸ List.mem_cons_self)

theorem lt_of_mem_openTags_take (h : i ∈ openTags (ps.take k)) : i < k :=
  Nat.lt_of_lt_of_le (lt_of_mem_openTags h) (List.length_take_le k ps)

theorem innermost_take_lt {rest : List Nat} (h : openTags (ps.take k) = i :: rest) : i < k :=
  lt_of_mem_openTags_take (h ▸ List.mem_cons_self)

theorem le_of_mem_openTags_snoc (h : i ∈ openTags (ps ++ [p])) : i ≤ ps.length := by
  have hlt := lt_of_mem_openTags h
  rw [List.length_append, List.length_singleton] at hlt
  exact Nat.le_of_lt_succ hlt

/-- The innermost open tag comes last. -/
theorem openTags_decreasing (ps : List Piece) : (openTags ps).Pairwise (· > ·) := by
  induction ps using List.reverseRecOn with
  | nil => exact List.Pairwise.nil
  | append_singleton ps p ih =>
      rw [openTags_snoc, nextOpen]
      split
      · exact List.Pairwise.cons (fun i hi => lt_of_mem_openTags hi) ih
      · exact ih.tail
      · exact ih

/-- The innermost open tag is none of those around it. -/
theorem lt_of_openTags {rest : List Nat} (h : openTags ps = i :: rest) : ∀ k ∈ rest, k < i :=
  (List.pairwise_cons.mp (h ▸ openTags_decreasing ps)).1

/-- Below a tag that is open lie the tags that were open at its place. -/
theorem openTags_take_of_eq {above below : List Nat} (h : openTags ps = above ++ i :: below) :
    openTags (ps.take i) = below := by
  induction ps using List.reverseRecOn generalizing above with
  | nil => exact absurd h (by simp)
  | append_singleton ps p ih =>
      have hi : i < (ps ++ [p]).length := lt_of_mem_openTags (by rw [h]; simp)
      rw [List.length_append, List.length_singleton] at hi
      rw [List.take_append_of_le_length (Nat.le_of_lt_succ hi)]
      rw [openTags_snoc, nextOpen] at h
      split at h
      · cases above with
        | nil =>
            obtain ⟨rfl, rfl⟩ := List.cons.inj h
            rw [List.take_length]
        | cons a above => exact ih (List.cons.inj h).2
      · cases hopen : openTags ps with
        | nil => rw [hopen] at h; exact absurd h (by simp)
        | cons a rest =>
            rw [hopen, List.tail_cons] at h
            have hdeeper : openTags ps = (a :: above) ++ i :: below := by
              rw [hopen, h]
              rfl
            exact ih hdeeper
      · exact ih h

/-- A tag that lies before a place and is open later on is open at that place. -/
theorem mem_openTags_take (h : i ∈ openTags ps) (hk : i < k) : i ∈ openTags (ps.take k) := by
  induction ps using List.reverseRecOn with
  | nil => cases h
  | append_singleton ps p ih =>
      by_cases hall : ps.length < k
      · rwa [List.take_of_length_le (by rw [List.length_append, List.length_singleton]; omega)]
      · rw [List.take_append_of_le_length (Nat.le_of_not_lt hall)]
        rcases mem_openTags_snoc h with h | ⟨rfl, -⟩
        · exact ih h
        · exact absurd hk hall

/-! ## Well-nested pieces -/

theorem Nested.take (h : Nested ps) (k : Nat) : Nested (ps.take k) := by
  intro j name hclose
  have hj : j < (ps.take k).length := lt_of_eventAt? hclose
  have hjk : j < k := Nat.lt_of_lt_of_le hj (List.length_take_le k ps)
  have hclose' : eventAt? ps j = some (.close name) := by
    rw [← List.take_append_drop k ps, eventAt?_append hj, hclose]
  obtain ⟨i, rest, hopen, hname⟩ := h j name hclose'
  have hi : i < j := innermost_take_lt hopen
  refine ⟨i, rest, ?_, ?_⟩
  · rw [List.take_take, Nat.min_eq_left (Nat.le_of_lt hjk), hopen]
  · rw [← List.take_append_drop k ps, startName?_append (Nat.lt_trans hi hj)] at hname
    exact hname

/-- An end tag comes after the tag that it closes. -/
theorem Nested.close (h : Nested (ps ++ [p])) (hclose : p.event = some (.close name)) :
    ∃ i rest, openTags ps = i :: rest ∧ startName? ps i = some name := by
  have hlast : eventAt? (ps ++ [p]) ps.length = some (.close name) := by
    rw [eventAt?_length, hclose]
  obtain ⟨i, rest, hopen, hname⟩ := h _ _ hlast
  rw [List.take_left' rfl] at hopen
  exact ⟨i, rest, hopen, by rw [← startName?_append (innermost_lt hopen), hname]⟩

theorem nested_nil : Nested [] := by
  intro j name hclose
  exact absurd (lt_of_eventAt? hclose) (Nat.not_lt_zero _)

theorem Nested.snoc (h : Nested ps)
    (hclose : ∀ name, p.event = some (.close name) →
      ∃ i rest, openTags ps = i :: rest ∧ startName? ps i = some name) : Nested (ps ++ [p]) := by
  intro j name hevent
  have hj := lt_of_eventAt? hevent
  rw [List.length_append, List.length_singleton] at hj
  rcases Nat.lt_succ_iff_lt_or_eq.mp hj with hj | rfl
  · rw [eventAt?_append hj] at hevent
    obtain ⟨i, rest, hopen, hname⟩ := h j name hevent
    refine ⟨i, rest, ?_, ?_⟩
    · rw [List.take_append_of_le_length (Nat.le_of_lt hj), hopen]
    · rw [startName?_append (Nat.lt_trans (innermost_take_lt hopen) hj), hname]
  · rw [eventAt?_length] at hevent
    obtain ⟨i, rest, hopen, hname⟩ := hclose name hevent
    refine ⟨i, rest, ?_, by rw [startName?_append (innermost_lt hopen), hname]⟩
    rw [List.take_left' rfl, hopen]

/-- The names of the open tags change with each piece of markup as those pieces say. -/
private theorem openNames_readMarkup {text : List Char} {openNames : List (List Char)} {s : Step}
    (h : readMarkup text openNames = some s) :
    match s.event with
    | some (.start name _) => s.openNames = name.toList :: openNames
    | some (.close name) => openNames = name.toList :: s.openNames
    | _ => s.openNames = openNames := by
  cases taken_readMarkup h with
  | silent | verbatim | selfClosed => rfl
  | start name => exact congrArg (· :: openNames) String.toList_ofList.symm
  | close name => exact congrArg (· :: _) String.toList_ofList.symm

/-- The names of the open tags, the innermost first. -/
def openTagNames (ps : List Piece) : List (Option String) :=
  (openTags ps).map (startName? ps)

/-- The names of the open tags after one more piece. -/
theorem openTagNames_snoc (ps : List Piece) (p : Piece) :
    openTagNames (ps ++ [p])
      = match p.event with
        | some (.start name _) => some name :: openTagNames ps
        | some (.close _) => (openTagNames ps).tail
        | _ => openTagNames ps := by
  have hold : ∀ places : List Nat, (∀ i ∈ places, i < ps.length) →
      places.map (startName? (ps ++ [p])) = places.map (startName? ps) := fun places h =>
    List.map_congr_left fun i hi => startName?_append (h i hi)
  have hlt : ∀ i ∈ openTags ps, i < ps.length := fun i hi => lt_of_mem_openTags hi
  rw [openTagNames, openTags_snoc, nextOpen, openTagNames]
  split
  · rename_i name attributes hevent
    have hname : startName? (ps ++ [p]) ps.length = some name :=
      startName?_eq_some.mpr ⟨attributes, by rw [eventAt?_length, hevent]⟩
    rw [List.map_cons, hold _ hlt, hname]
  · rw [hold _ fun i hi => hlt i (List.mem_of_mem_tail hi), List.map_tail]
  · rw [hold _ hlt]

/-- A run of text is no tag. -/
theorem textEvent?_cases (run : List Char) :
    textEvent? run = none ∨ ∃ raw, textEvent? run = some (.text raw) := by
  rw [textEvent?]
  split
  · exact Or.inl rfl
  · exact Or.inr ⟨_, rfl⟩

private theorem Nested.run {before : List Piece} (h : Nested before) (run : List Char) :
    Nested (before ++ [⟨run, textEvent? run⟩])
      ∧ openTagNames (before ++ [⟨run, textEvent? run⟩]) = openTagNames before := by
  rw [openTagNames_snoc]
  rcases textEvent?_cases run with hevent | ⟨raw, hevent⟩
  · rw [hevent]
    exact ⟨h.snoc (fun name hclose => nomatch hclose), rfl⟩
  · rw [hevent]
    exact ⟨h.snoc (fun name hclose => nomatch hclose), rfl⟩

/-- **What is read piece by piece is well-nested.** -/
theorem Reads.nested_append {before : List Piece} {openNames : List (List Char)}
    {text : List Char} (h : Reads openNames text ps) (hbefore : Nested before)
    (hopen : openTagNames before = openNames.map fun name => some (String.ofList name)) :
    Nested (before ++ ps) := by
  induction h generalizing before with
  | run hrun => exact (hbefore.run _).1
  | @markup openNames run taken s ps hrun hspans hrest ih =>
      have hnames := openNames_readMarkup (hspans.whole s.rest)
      obtain ⟨hnested, hrunNames⟩ := hbefore.run run
      rw [← hrunNames] at hopen
      have hboth : before ++ ⟨run, textEvent? run⟩ :: ⟨'<' :: taken, s.event⟩ :: ps
          = before ++ [⟨run, textEvent? run⟩] ++ [⟨'<' :: taken, s.event⟩] ++ ps := by simp
      rw [hboth]
      refine ih (hnested.snoc fun name hclose => ?_) ?_
      · have hclose' : (s.withRest s.rest).event = some (.close name) := hclose
        rw [hclose'] at hnames
        rw [hnames, List.map_cons, String.ofList_toList] at hopen
        obtain ⟨i, rest, hplaces, hname, -⟩ := List.map_eq_cons_iff.mp hopen
        exact ⟨i, rest, hplaces, hname⟩
      · obtain ⟨event, inner, rest⟩ := s
        rw [openTagNames_snoc]
        match event, hnames with
        | some (.start name _), hnames =>
            rw [show inner = name.toList :: openNames from hnames, List.map_cons,
              String.ofList_toList, ← hopen]
        | some (.close name), hnames =>
            rw [hopen, show openNames = name.toList :: inner from hnames]
            rfl
        | none, hnames | some (.selfClosed _ _), hnames | some (.text _), hnames
        | some (.verbatim _), hnames =>
            rw [show inner = openNames from hnames]
            exact hopen

/-- **The pieces of a well-formed document are well-nested.** -/
theorem Reads.nested {text : List Char} (h : Reads [] text ps) : Nested ps :=
  h.nested_append nested_nil rfl

/-! ## Elements -/

theorem elementEnding?_append (h : j < ps.length) :
    elementEnding? (ps ++ more) name j = elementEnding? ps name j := by
  rw [elementEnding?, elementEnding?, eventAt?_append h,
    List.take_append_of_le_length (Nat.le_of_lt h)]

theorem elementEnding?_length :
    elementEnding? (ps ++ [p]) name ps.length
      = match p.event with
        | some (.selfClosed tag _) => if tag = name then some (ps.length, ps.length) else none
        | some (.close tag) =>
          if tag = name then (openTags ps).head?.map (·, ps.length) else none
        | _ => none := by
  rw [elementEnding?, eventAt?_length, List.take_left' rfl]

/-- An element ends with a tag without content, or with the end tag of the innermost open tag. -/
theorem elementEnding?_eq_some (h : elementEnding? ps name j = some (i, k)) :
    k = j ∧ ((i = j ∧ ∃ attributes, eventAt? ps j = some (.selfClosed name attributes))
      ∨ (eventAt? ps j = some (.close name) ∧ ∃ rest, openTags (ps.take j) = i :: rest)) := by
  rw [elementEnding?] at h
  split at h
  · rename_i tag attributes hevent
    split at h
    · rename_i htag
      obtain ⟨rfl, rfl⟩ := Prod.mk.inj (Option.some.inj h)
      exact ⟨rfl, Or.inl ⟨rfl, attributes, by rw [hevent, htag]⟩⟩
    · cases h
  · rename_i tag hevent
    split at h
    · rename_i htag
      obtain ⟨first, hfirst, hpair⟩ := Option.map_eq_some_iff.mp h
      obtain ⟨rfl, rfl⟩ := Prod.mk.inj hpair
      obtain ⟨rest, hrest⟩ := List.head?_eq_some_iff.mp hfirst
      exact ⟨rfl, Or.inr ⟨by rw [hevent, htag], rest, hrest⟩⟩
    · cases h
  · cases h

theorem mem_elements : (i, j) ∈ elements ps name ↔ elementEnding? ps name j = some (i, j) := by
  rw [elements, List.mem_filterMap]
  constructor
  · rintro ⟨k, -, hk⟩
    obtain ⟨rfl, -⟩ := elementEnding?_eq_some hk
    exact hk
  · intro h
    refine ⟨j, List.mem_range.mpr ?_, h⟩
    obtain ⟨-, ⟨-, attributes, hevent⟩ | ⟨hevent, -⟩⟩ := elementEnding?_eq_some h
    · exact lt_of_eventAt? hevent
    · exact lt_of_eventAt? hevent

/-- The elements come in the order in which they end. -/
theorem elements_pairwise (ps : List Piece) (name : String) :
    (elements ps name).Pairwise fun e f => e.2 < f.2 := by
  rw [elements, List.pairwise_filterMap]
  refine List.pairwise_lt_range.imp fun {j k} hlt e he f hf => ?_
  obtain ⟨hj, -⟩ := elementEnding?_eq_some he
  obtain ⟨hk, -⟩ := elementEnding?_eq_some hf
  rwa [hj, hk]

/-- One more piece ends at most one element. -/
theorem elements_snoc (ps : List Piece) (p : Piece) (name : String) :
    elements (ps ++ [p]) name
      = elements ps name ++ (elementEnding? (ps ++ [p]) name ps.length).toList := by
  have hold : (List.range ps.length).filterMap (elementEnding? (ps ++ [p]) name)
      = elements ps name :=
    List.filterMap_congr fun j hj => elementEnding?_append (List.mem_range.mp hj)
  rw [elements, List.length_append, List.length_singleton, List.range_succ,
    List.filterMap_append, hold]
  cases hlast : elementEnding? (ps ++ [p]) name ps.length <;> simp [hlast]

/-- A piece with another name ends no element. -/
theorem elements_of_ne (hself : ∀ attributes, p.event ≠ some (.selfClosed name attributes))
    (hclose : p.event ≠ some (.close name)) : elements (ps ++ [p]) name = elements ps name := by
  have hnone : elementEnding? (ps ++ [p]) name ps.length = none := by
    rw [elementEnding?_length]
    split
    · rename_i tag attributes hevent
      refine if_neg ?_
      rintro rfl
      exact hself attributes hevent
    · rename_i tag hevent
      refine if_neg ?_
      rintro rfl
      exact hclose hevent
    · rfl
  rw [elements_snoc, hnone, Option.toList_none, List.append_nil]

/-- The elements that are closed early come first. -/
theorem elements_append (ps more : List Piece) (name : String) :
    ∃ later, elements (ps ++ more) name = elements ps name ++ later
      ∧ ∀ e ∈ later, ps.length ≤ e.2 := by
  induction more using List.reverseRecOn with
  | nil => exact ⟨[], by simp, fun e he => nomatch he⟩
  | append_singleton more p ih =>
      obtain ⟨later, heq, hlater⟩ := ih
      rw [← List.append_assoc, elements_snoc, heq, List.append_assoc]
      refine ⟨_, rfl, fun e he => ?_⟩
      rcases List.mem_append.mp he with he | he
      · exact hlater e he
      · obtain ⟨hplace, -⟩ := elementEnding?_eq_some (Option.mem_toList.mp he)
        rw [hplace, List.length_append]
        exact Nat.le_add_right _ _

/-- **A tag that is open** is still open later on, or the element has been closed in between. -/
theorem open_or_closed (hnested : Nested (ps ++ more)) (hopen : i ∈ openTags ps)
    (hname : startName? ps i = some name) :
    i ∈ openTags (ps ++ more) ∨ ∃ j, ps.length ≤ j ∧ (i, j) ∈ elements (ps ++ more) name := by
  induction more using List.reverseRecOn with
  | nil => exact Or.inl (by rwa [List.append_nil])
  | append_singleton more p ih =>
      rw [← List.append_assoc] at hnested ⊢
      have hbefore : Nested (ps ++ more) := by
        have := hnested.take (ps ++ more).length
        rwa [List.take_left' rfl] at this
      rcases ih hbefore with hstill | ⟨j, hj, hclosed⟩
      · rw [openTags_snoc, nextOpen]
        split
        · exact Or.inl (List.mem_cons_of_mem _ hstill)
        · rename_i tag hevent
          obtain ⟨inner, rest, hplaces, hinner⟩ := hnested.close hevent
          rw [hplaces] at hstill ⊢
          rcases List.mem_cons.mp hstill with rfl | hrest
          · -- the end tag is that of the element
            rw [startName?_append (lt_of_mem_openTags hopen), hname] at hinner
            obtain rfl := Option.some.inj hinner
            refine Or.inr ⟨(ps ++ more).length, by simp, mem_elements.mpr ?_⟩
            rw [elementEnding?_length, hevent, hplaces]
            simp
          · exact Or.inl hrest
        · exact Or.inl hstill
      · refine Or.inr ⟨j, hj, ?_⟩
        rw [elements_snoc]
        exact List.mem_append_left _ hclosed

/-- Between its first and its last piece, an element is open. -/
theorem open_of_element (h : (i, j) ∈ elements ps name) (hi : i < k) (hj : k ≤ j) :
    i ∈ openTags (ps.take k) := by
  obtain ⟨-, ⟨rfl, -⟩ | ⟨-, rest, hopen⟩⟩ := elementEnding?_eq_some (mem_elements.mp h)
  · exact absurd (Nat.lt_of_lt_of_le hi hj) (Nat.lt_irrefl _)
  · have hmem : i ∈ openTags (ps.take j) := hopen ▸ List.mem_cons_self
    have := mem_openTags_take hmem hi
    rwa [List.take_take, Nat.min_eq_left hj] at this

/-- An element that does not end where it begins begins with a start tag of its name, and ends with
    the end tag of that tag. -/
theorem Nested.element (hnested : Nested ps) (h : (i, j) ∈ elements ps name) (hne : i ≠ j) :
    startName? ps i = some name ∧ eventAt? ps j = some (.close name)
      ∧ ∃ rest, openTags (ps.take j) = i :: rest := by
  obtain ⟨-, ⟨heq, -⟩ | ⟨hclose, rest, hopen⟩⟩ := elementEnding?_eq_some (mem_elements.mp h)
  · exact absurd heq hne
  · obtain ⟨first, others, hfirst, hname⟩ := hnested j name hclose
    rw [hopen] at hfirst
    obtain ⟨rfl, -⟩ := List.cons.inj hfirst
    exact ⟨hname, hclose, rest, hopen⟩

theorem le_of_element (h : (i, j) ∈ elements ps name) : i ≤ j := by
  obtain ⟨-, ⟨rfl, -⟩ | ⟨-, rest, hopen⟩⟩ := elementEnding?_eq_some (mem_elements.mp h)
  · exact Nat.le_refl i
  · exact Nat.le_of_lt (innermost_take_lt hopen)

/-- The tags that are open after an end tag. -/
theorem openTags_take_close {rest : List Nat} (hclose : eventAt? ps j = some (.close name))
    (hopen : openTags (ps.take j) = i :: rest) : openTags (ps.take (j + 1)) = rest := by
  obtain ⟨p, hp, hevent⟩ := Option.bind_eq_some_iff.mp hclose
  rw [List.take_add_one, hp, Option.toList_some, openTags_snoc, nextOpen, hevent, hopen,
    List.tail_cons]

/-- Behind its last piece, an element is not open any more. -/
theorem Nested.not_open_of_element (hnested : Nested ps) (h : (i, j) ∈ elements ps name)
    (hk : j < k) : i ∉ openTags (ps.take k) := by
  intro hmem
  by_cases heq : i = j
  · -- a tag without content is never open
    subst heq
    obtain ⟨-, ⟨-, attributes, hself⟩ | ⟨hclose, rest, hopen⟩⟩ :=
      elementEnding?_eq_some (mem_elements.mp h)
    · obtain ⟨hlt, tag, htag⟩ := exists_startName? hmem
      have hstart : startName? ps i = some tag := by
        rw [← List.take_append_drop k ps, startName?_append hlt, htag]
      obtain ⟨text, hevent⟩ := startName?_eq_some.mp hstart
      rw [hself] at hevent
      cases hevent
    · exact absurd (innermost_take_lt hopen) (Nat.lt_irrefl i)
  · obtain ⟨-, hclose, rest, hopen⟩ := hnested.element h heq
    have hij : i < j := Nat.lt_of_le_of_ne (le_of_element h) heq
    have hafter := mem_openTags_take (k := j + 1) hmem (Nat.lt_succ_of_lt hij)
    rw [List.take_take, Nat.min_eq_left hk, openTags_take_close hclose hopen] at hafter
    exact Nat.lt_irrefl i (lt_of_openTags hopen i hafter)

/-- **No element is closed inside of another one** of its name that has begun before it, if none
    has begun between the two. -/
theorem Nested.not_close_inside (hnested : Nested ps) (h : (i, j) ∈ elements ps name)
    (honly : ∀ k, i < k → k < j → startName? ps k ≠ some name) (hi : i < k) (hj : k < j) :
    eventAt? ps k ≠ some (.close name) := by
  intro hclose
  obtain ⟨inner, rest, hopen, hname⟩ := hnested k name hclose
  have hstill := open_of_element h (Nat.lt_succ_of_lt hi) (Nat.succ_le_of_lt hj)
  rw [openTags_take_close hclose hopen] at hstill
  exact honly inner (lt_of_openTags hopen i hstill)
    (Nat.lt_trans (innermost_take_lt hopen) hj) hname

/-! ## Open tags of a name -/

theorem mem_openNamed :
    i ∈ openNamed ps name ↔ i ∈ openTags ps ∧ startName? ps i = some name := by
  rw [openNamed, List.mem_filter, beq_iff_eq]

/-- What is open of a name among some places does not depend on what comes later. -/
private theorem filter_startName? {places : List Nat} (h : ∀ i ∈ places, i < ps.length) :
    (places.filter fun i => startName? (ps ++ more) i == some name)
      = places.filter fun i => startName? ps i == some name :=
  List.filter_congr fun i hi => by rw [startName?_append (h i hi)]

private theorem filter_openTags :
    ((openTags ps).filter fun i => startName? (ps ++ more) i == some name) = openNamed ps name :=
  filter_startName? fun _ hi => lt_of_mem_openTags hi

/-- A start tag is open if it has the name, and all other tags are as before. -/
theorem openNamed_start {tag : String} {attributes : List Char}
    (hevent : p.event = some (.start tag attributes)) :
    openNamed (ps ++ [p]) name
      = if tag = name then ps.length :: openNamed ps name else openNamed ps name := by
  have hname : startName? (ps ++ [p]) ps.length = some tag :=
    startName?_eq_some.mpr ⟨attributes, by rw [eventAt?_length, hevent]⟩
  rw [openNamed, openTags_snoc, nextOpen, hevent]
  simp only [List.filter_cons, hname, filter_openTags]
  simp

/-- An end tag closes the innermost tag, and all other tags are as before. -/
theorem openNamed_close {tag : String} {rest : List Nat} (hevent : p.event = some (.close tag))
    (hopen : openTags ps = i :: rest) (hname : startName? ps i = some tag) :
    openNamed ps name
      = if tag = name then i :: openNamed (ps ++ [p]) name else openNamed (ps ++ [p]) name := by
  have hrest : ∀ k ∈ rest, k < ps.length := fun k hk =>
    lt_of_mem_openTags (hopen ▸ List.mem_cons_of_mem i hk)
  have hafter : openNamed (ps ++ [p]) name
      = rest.filter fun k => startName? ps k == some name := by
    rw [openNamed, openTags_snoc, nextOpen, hevent, hopen]
    exact filter_startName? hrest
  rw [hafter, openNamed, hopen, List.filter_cons, hname]
  simp

/-- Any other piece changes nothing. -/
theorem openNamed_other (h : nextOpen (openTags ps) p ps.length = openTags ps) :
    openNamed (ps ++ [p]) name = openNamed ps name := by
  rw [openNamed, openTags_snoc, h, filter_openTags]

/-- **Every start tag has its end tag** where no tag of the name is left open. -/
theorem exists_close (hnested : Nested ps) (hclosed : openNamed ps name = [])
    (hname : startName? ps i = some name) :
    ∃ j, i < j ∧ eventAt? ps j = some (.close name) ∧ (i, j) ∈ elements ps name := by
  obtain ⟨attributes, hevent⟩ := startName?_eq_some.mp hname
  obtain ⟨p, hp, hstart⟩ := Option.bind_eq_some_iff.mp hevent
  have hlt : i < ps.length := lt_of_eventAt? hevent
  have hwhole : ps.take (i + 1) ++ ps.drop (i + 1) = ps := List.take_append_drop _ _
  have hlength : (ps.take i).length = i := by
    rw [List.length_take, Nat.min_eq_left (Nat.le_of_lt hlt)]
  have hfirst : ps.take (i + 1) = ps.take i ++ [p] := by
    rw [List.take_add_one, hp, Option.toList_some]
  have hopen : i ∈ openTags (ps.take (i + 1)) := by
    rw [hfirst, openTags_snoc, nextOpen, hstart, hlength]
    exact List.mem_cons_self
  have hfirstName : startName? (ps.take (i + 1)) i = some name := by
    rw [← @startName?_append (ps.take (i + 1)) (ps.drop (i + 1)) i (lt_of_mem_openTags hopen),
      hwhole, hname]
  have hlater := open_or_closed (hwhole.symm ▸ hnested) hopen hfirstName
  rw [hwhole] at hlater
  rcases hlater with hstill | ⟨j, hj, he⟩
  · have hmem := mem_openNamed.mpr ⟨hstill, hname⟩
    rw [hclosed] at hmem
    cases hmem
  · have hlast : i < j := by
      rw [hfirst, List.length_append, hlength] at hj
      exact hj
    obtain ⟨-, ⟨rfl, -⟩ | ⟨hend, -⟩⟩ := elementEnding?_eq_some (mem_elements.mp he)
    · exact absurd hlast (Nat.lt_irrefl _)
    · exact ⟨j, hlast, hend, he⟩

/-- A piece with another name leaves the open tags of a name as they are. -/
theorem openNamed_of_ne (hnested : Nested (ps ++ [p]))
    (hstart : ∀ attributes, p.event ≠ some (.start name attributes))
    (hclose : p.event ≠ some (.close name)) : openNamed (ps ++ [p]) name = openNamed ps name := by
  cases hevent : p.event with
  | none => exact openNamed_other (by rw [nextOpen, hevent])
  | some event =>
      cases event with
      | start tag attributes =>
          rw [openNamed_start hevent, if_neg]
          rintro rfl
          exact hstart attributes hevent
      | close tag =>
          obtain ⟨i, rest, hopen, hname⟩ := hnested.close hevent
          rw [openNamed_close hevent hopen hname, if_neg]
          rintro rfl
          exact hclose hevent
      | selfClosed tag attributes => exact openNamed_other (by rw [nextOpen, hevent])
      | text raw => exact openNamed_other (by rw [nextOpen, hevent])
      | verbatim content => exact openNamed_other (by rw [nextOpen, hevent])

/-- A tag stays open unless the next piece is an end tag of its name. -/
theorem open_of_ne (hnested : Nested (ps ++ [p])) (hopen : i ∈ openTags ps)
    (hname : startName? ps i = some name) (hclose : p.event ≠ some (.close name)) :
    i ∈ openTags (ps ++ [p]) := by
  rw [openTags_snoc, nextOpen]
  split
  · exact List.mem_cons_of_mem _ hopen
  · rename_i tag hevent
    obtain ⟨inner, rest, hplaces, hinner⟩ := hnested.close hevent
    rw [hplaces] at hopen ⊢
    rcases List.mem_cons.mp hopen with rfl | hrest
    · rw [hname] at hinner
      exact absurd (Option.some.inj hinner ▸ hevent) hclose
    · exact hrest
  · exact hopen

theorem enclosing?_append (h : i ≤ ps.length) :
    enclosing? (ps ++ more) name i = enclosing? ps name i := by
  rw [enclosing?, enclosing?, List.take_append_of_le_length h]

theorem enclosing?_length : enclosing? (ps ++ more) name ps.length = (openNamed ps name).head? := by
  rw [enclosing?, List.take_left' rfl]

/-- What the innermost open tag lies in is what a tag after it would lie in, if that tag has
    another name. -/
theorem enclosing?_innermost {tag : String} {rest : List Nat} (hopen : openTags ps = i :: rest)
    (hname : startName? ps i = some tag) (hne : tag ≠ name) :
    enclosing? ps name i = (openNamed ps name).head? := by
  have hbelow : openTags (ps.take i) = rest := @openTags_take_of_eq ps i [] rest hopen
  have hrest : ∀ k ∈ rest, k < (ps.take i).length := fun k hk =>
    lt_of_mem_openTags (hbelow ▸ hk)
  rw [enclosing?, openNamed, openNamed, hbelow, hopen, List.filter_cons, hname]
  have hfilter := @filter_startName? (ps.take i) (ps.drop i) name rest hrest
  rw [List.take_append_drop] at hfilter
  simp [hne, hfilter]

/-- What encloses a place begins before it, and does not end before it. -/
theorem Nested.enclosing?_bounds (hnested : Nested ps) (h : enclosing? ps name k = some i)
    (helement : (i, j) ∈ elements ps name) : i < k ∧ k ≤ j := by
  have hopen := (mem_openNamed.mp (List.mem_of_head? h)).1
  refine ⟨lt_of_mem_openTags_take hopen, ?_⟩
  by_contra hlate
  exact hnested.not_open_of_element helement (Nat.not_le.mp hlate) hopen

/-- **An element inside of another one** ends before it. -/
theorem Nested.inside_ends_before {first last : Nat} {outer : String} (hnested : Nested ps)
    (houter : (first, last) ∈ elements ps outer) (hinner : (i, j) ∈ elements ps name)
    (hne : name ≠ outer) (hfirst : first < i) (hlast : i < last) : j < last := by
  obtain ⟨-, hclose, rest, hopen⟩ :=
    hnested.element houter (Nat.ne_of_lt (Nat.lt_trans hfirst hlast))
  by_contra hlate
  rcases Nat.eq_or_lt_of_le (Nat.not_lt.mp hlate) with heq | hlt
  · obtain ⟨-, ⟨rfl, -⟩ | ⟨hend, -⟩⟩ := elementEnding?_eq_some (mem_elements.mp hinner)
    · exact absurd (heq ▸ hlast) (Nat.lt_irrefl _)
    · rw [← heq, hclose] at hend
      exact hne (Event.close.inj (Option.some.inj hend)).symm
  · have hstill := open_of_element hinner hlast (Nat.le_of_lt hlt)
    rw [hopen] at hstill
    rcases List.mem_cons.mp hstill with rfl | hrest
    · exact Nat.lt_irrefl _ hfirst
    · exact Nat.lt_asymm hfirst (lt_of_openTags hopen i hrest)

end FailureTriage.Markup
