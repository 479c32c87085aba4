import FailureTriage.Proofs.Dependency.DeclaredTypes
import FailureTriage.Proofs.Lists.FirstOfEach

/-!
# Receivers of calls

The rule for calls looks at the words whose methods are called.  Calls can be chained and nested,
but no call hides another one: a call that is matched ends with its opening parenthesis, and within
it no other word is called; a match that starts within a word is covered by the match at the start
of the word.

* `Call`: a call as it is written.
* `CallAt`, `FirstCall`: where a text calls a method of a word.
* `foundAt_receiverCall`: the calls that are found.
* `typesIn_receiverCall`: the types of the receivers, in the order of their first calls.
-/

namespace FailureTriage

namespace DependencyRule

open Pattern

/-! ## Calls as they are written -/

/-- A call as it is written: the word whose method is called, a dot, the name of the method, and
    blanks before the opening parenthesis. -/
structure Call where
  receiver : List Char
  method : List Char
  gap : List Char
  isReceiver : receiver ≠ [] ∧ ∀ c ∈ receiver, Text.isWord c = true
  isMethod : method ≠ [] ∧ ∀ c ∈ method, Text.isWord c = true
  isGap : ∀ c ∈ gap, Text.isBlank c = true

namespace Call

variable {c d : Call} {tail tail' : List Char}

/-- What stands before the parenthesis. -/
def body (c : Call) : List Char :=
  c.receiver ++ '.' :: (c.method ++ c.gap)

/-- What follows the receiver. -/
def ending (c : Call) : List Char :=
  '.' :: (c.method ++ (c.gap ++ ['(']))

/-- The text of a call. -/
def text (c : Call) : List Char :=
  c.receiver ++ c.ending

theorem text_eq (c : Call) : c.text = c.body ++ ['('] := by
  simp only [text, ending, body, List.append_assoc, List.cons_append]

theorem text_append (c : Call) (tail : List Char) : c.text ++ tail = c.body ++ '(' :: tail := by
  rw [text_eq, List.append_assoc, List.singleton_append]

/-- No part of a word is one of the characters between the words of a call. -/
theorem ne_of_isWord {x : Char} (h : Text.isWord x = true) : x ≠ '.' ∧ x ≠ '(' := by
  constructor <;> rintro rfl <;> exact absurd h (by decide)

/-- A call ends with its first parenthesis. -/
theorem ne_paren_of_mem_body (c : Call) : ∀ x ∈ c.body, (x != '(') = true := by
  intro x hx
  rw [bne_iff_ne]
  rw [body, List.mem_append, List.mem_cons, List.mem_append] at hx
  rcases hx with hreceiver | rfl | hmethod | hgap
  · exact (ne_of_isWord (c.isReceiver.2 x hreceiver)).2
  · decide
  · exact (ne_of_isWord (c.isMethod.2 x hmethod)).2
  · rintro rfl
    cases c.isGap _ hgap

/-- The receiver ends with the first dot. -/
theorem ne_dot_of_mem_receiver (c : Call) : ∀ x ∈ c.receiver, (x != '.') = true :=
  fun x hx => bne_iff_ne.mpr (ne_of_isWord (c.isReceiver.2 x hx)).1

/-- There is no other dot. -/
theorem count_dot_body (c : Call) : c.body.count '.' = 1 := by
  have hreceiver : c.receiver.count '.' = 0 :=
    List.count_eq_zero.mpr fun hmem => (ne_of_isWord (c.isReceiver.2 _ hmem)).1 rfl
  have hmethod : c.method.count '.' = 0 :=
    List.count_eq_zero.mpr fun hmem => (ne_of_isWord (c.isMethod.2 _ hmem)).1 rfl
  have hgap : c.gap.count '.' = 0 :=
    List.count_eq_zero.mpr fun hmem => nomatch c.isGap _ hmem
  rw [body, List.count_append, List.count_cons_self, List.count_append, hreceiver, hmethod, hgap]

/-- **A call inside of another one** has the end of its receiver. -/
theorem receiver_eq_of_body {lead : List Char} (h : c.body = lead ++ d.body) :
    c.receiver = lead ++ d.receiver := by
  have hdot : '.' ∉ lead := by
    have hcount := congrArg (List.count '.') h
    rw [List.count_append, c.count_dot_body, d.count_dot_body] at hcount
    exact List.count_eq_zero.mp (by omega)
  have hlead : ∀ x ∈ lead ++ d.receiver, (x != '.') = true :=
    List.forall_mem_append.mpr ⟨fun x hx => bne_iff_ne.mpr fun heq => hdot (heq ▸ hx),
      d.ne_dot_of_mem_receiver⟩
  rw [body, body, ← List.append_assoc] at h
  exact (Text.append_inj_of_class c.ne_dot_of_mem_receiver hlead rfl rfl h).1

/-- What follows an opening parenthesis is no part of a call. -/
theorem body_eq_of_append {lead : List Char} (hlead : ∀ x ∈ lead, (x != '(') = true)
    (h : lead ++ '(' :: tail = c.text ++ tail') : lead = c.body := by
  rw [text_append] at h
  exact (Text.append_inj_of_class hlead c.ne_paren_of_mem_body rfl rfl h).1

/-- **A text is read as a call** in one way only. -/
theorem eq_of_append (h : c.text ++ tail = d.text ++ tail') :
    c.receiver = d.receiver ∧ c.text = d.text := by
  rw [text_append] at h
  have hbody := body_eq_of_append c.ne_paren_of_mem_body h
  refine ⟨?_, by rw [text_eq, text_eq, hbody]⟩
  rw [← List.nil_append d.body] at hbody
  exact receiver_eq_of_body hbody

end Call

/-- Whether a text calls a method of a word that starts after so many characters. -/
def CallAt (text : List Char) (position : Nat) (receiver : List Char) : Prop :=
  ∃ before after, ∃ c : Call, text = before ++ (c.text ++ after) ∧ before.length = position
    ∧ before.getLast?.any Text.isWord = false ∧ c.receiver = receiver

/-- Whether a text calls a method of a word for the first time after so many characters. -/
def FirstCall (text : List Char) (position : Nat) (receiver : List Char) : Prop :=
  CallAt text position receiver ∧ ∀ earlier < position, ¬ CallAt text earlier receiver

/-! ## What the pattern matches -/

/-- The patterns of what follows the receiver of a call. -/
def callParts : List Pattern :=
  [word ".", oneOrMore Text.isWord, blanks, word "("]

theorem receiverCall_pattern :
    receiverCall.pattern = sequence ([] ++ .group 1 (oneOrMore Text.isWord) :: callParts) :=
  rfl

theorem spells_callParts :
    (sequence callParts).Spells fun text => ∃ method gap, text = '.' :: (method ++ (gap ++ ['(']))
      ∧ (method ≠ [] ∧ ∀ c ∈ method, Text.isWord c = true)
      ∧ ∀ c ∈ gap, Text.isBlank c = true := by
  refine ((spells_word ".").sequence_cons <| spells_oneOrMore.sequence_cons <|
    spells_blanks.sequence_cons (spells_word "(").sequence_singleton).congr fun text => ?_
  constructor
  · rintro ⟨_, _, rfl, rfl, method, _, rfl, hmethod, gap, _, rfl, hgap, rfl⟩
    exact ⟨method, gap, rfl, hmethod, hgap⟩
  · rintro ⟨method, gap, rfl, hmethod, hgap⟩
    exact ⟨['.'], _, rfl, rfl, method, _, rfl, hmethod, gap, _, rfl, hgap, rfl⟩

section

variable {a : Place} {tail : List Char}

/-- **What is matched** is a call, and its receiver is kept. -/
theorem call_of_matchAt? {m : Match} (h : receiverCall.pattern.matchAt? a = some m) :
    ∃ c : Call, ∃ tail, a.rest = c.text ++ tail ∧ m.span.stop = a.index + c.text.length
      ∧ m.group? 1 = some c.receiver := by
  rw [receiverCall_pattern] at h
  obtain ⟨u, v, z, hstart, hbody, hbehind, hgroup, hstop⟩ := exists_kept rfl rfl rfl h
  obtain rfl : a = u := hstart.symm
  obtain ⟨receiver, rest, hrest, hreceiver, rfl⟩ := (spells_oneOrMore _ _).mp hbody
  obtain ⟨_, tail, rfl, ⟨method, gap, rfl, hmethod, hgap⟩, rfl⟩ := (spells_callParts _ _).mp hbehind
  refine ⟨⟨receiver, method, gap, hreceiver, hmethod, hgap⟩, tail, ?_, ?_, ?_⟩
  · rw [hrest, Call.text, List.append_assoc]
    rfl
  · rw [hstop, Call.text, Place.past_index, Place.past_index, List.length_append, Nat.add_assoc]
    rfl
  · rw [hgroup, Span.text_past hrest]

/-- **A call is matched** where its receiver starts, and just this call. -/
theorem matchAt?_call {c : Call} (hrest : a.rest = c.text ++ tail) :
    ∃ m, receiverCall.pattern.matchAt? a = some m ∧ m.span.stop = a.index + c.text.length
      ∧ m.group? 1 = some c.receiver := by
  let v := a.past c.receiver (c.ending ++ tail)
  have hreceiver : (oneOrMore Text.isWord).Matches a v :=
    spells_oneOrMore.matches_past c.isReceiver (hrest.trans (List.append_assoc ..))
  have hbehind : (sequence callParts).Matches v (v.past c.ending tail) :=
    spells_callParts.matches_past ⟨c.method, c.gap, rfl, c.isMethod, c.isGap⟩ rfl
  have hmatch : receiverCall.pattern.Matches a (v.past c.ending tail) :=
    matches_sequence_cons.mpr ⟨v, hreceiver, hbehind⟩
  obtain ⟨m, hm⟩ := exists_matchAt?_of_matches hmatch
  obtain ⟨d, tail', hsame, hstop, hgroup⟩ := call_of_matchAt? hm
  obtain ⟨heq, htext⟩ := Call.eq_of_append (hrest.symm.trans hsame)
  exact ⟨m, hm, htext ▸ hstop, heq ▸ hgroup⟩

end

/-! ## The calls that are found -/

variable {text receiver : List Char} {position : Nat}

/-- Whether no part of a word stands before a place. -/
def startsWord (text : List Char) (position : Nat) : Bool :=
  !(text.take position).getLast?.any Text.isWord

/-- Where a call is read the text goes on. -/
theorem length_take_of_call {c : Call} {tail : List Char}
    (h : text.drop position = c.text ++ tail) : (text.take position).length = position :=
  Text.length_take_of_drop fun hnone => by
    rw [hnone, Call.text_append] at h
    exact List.cons_ne_nil _ _ (List.append_eq_nil_iff.mp h.symm).2

/-- **No call starts within another one**, except within the word that is its receiver. -/
theorem startsWord_within {c d : Call} {tail tail' : List Char} {later : Nat}
    (hc : text.drop position = c.text ++ tail) (hd : text.drop later = d.text ++ tail')
    (hlt : position < later) (hwithin : later < position + c.text.length) :
    startsWord text later = false := by
  -- what is passed of the call between the two places is the start of its receiver
  obtain ⟨k, rfl⟩ := Nat.exists_eq_add_of_lt hlt
  have hk : k + 1 ≤ c.body.length := by
    rw [Call.text_eq, List.length_append, List.length_singleton] at hwithin
    omega
  have hcut := hd
  rw [Nat.add_assoc, ← List.drop_drop, hc, Call.text_append,
    List.drop_append_of_le_length hk] at hcut
  have hbody := Call.body_eq_of_append
    (fun x hx => c.ne_paren_of_mem_body x (List.mem_of_mem_drop hx)) hcut
  have hreceiver := Call.receiver_eq_of_body
    ((List.take_append_drop (k + 1) c.body).symm.trans (congrArg _ hbody))
  have hpassed : c.body.take (k + 1) ≠ [] :=
    List.ne_nil_of_length_eq_add_one (List.length_take_of_le hk)
  have hword := c.isReceiver.2 _ (hreceiver ▸ List.mem_append_left _ (List.getLast_mem hpassed))
  rw [startsWord, Nat.add_assoc, List.take_add, hc, Call.text_append,
    List.take_append_of_le_length hk, List.getLast?_append_of_ne_nil _ hpassed,
    List.getLast?_eq_some_getLast hpassed, Option.any_some, hword, Bool.not_true]

/-- **A call that is read within a word** is the end of the call that is read from the start of the
    word on. -/
theorem exists_call_before {c : Call} {tail : List Char}
    (hc : text.drop position = c.text ++ tail) (hnot : startsWord text position = false) :
    ∃ earlier < position, startsWord text earlier = true
      ∧ ∃ e : Call, text.drop earlier = e.text ++ tail ∧ position < earlier + e.text.length := by
  obtain ⟨stem, lead, hsplit, hlead, hstem⟩ := Text.exists_ending Text.isWord (text.take position)
  have hne : lead ≠ [] := by
    rintro rfl
    rw [startsWord, hsplit, List.append_nil, hstem] at hnot
    cases hnot
  let e : Call := { c with
    receiver := lead ++ c.receiver
    isReceiver := ⟨List.append_ne_nil_of_left_ne_nil hne _,
      List.forall_mem_append.mpr ⟨hlead, c.isReceiver.2⟩⟩ }
  have htext : text = stem ++ (e.text ++ tail) := by
    rw [← List.take_append_drop position text, hsplit, hc]
    simp only [e, Call.text, Call.ending, List.append_assoc]
  have hlength : stem.length + lead.length = position := by
    rw [← List.length_append, ← hsplit, length_take_of_call hc]
  have hpos := List.length_pos_iff.mpr hne
  refine ⟨stem.length, by omega, ?_, e, by rw [htext, List.drop_left], ?_⟩
  · rw [startsWord, htext, List.take_left, hstem]
    rfl
  · have hlonger : e.text.length = lead.length + c.body.length + 1 := by
      rw [Call.text_eq]
      simp only [e, Call.body, List.length_append, List.length_singleton]
      omega
    omega

/-- **Every call is found**, at the start of its receiver: no receiver starts within another call,
    and a match within a word is covered by the match from the start of the word on. -/
theorem foundAt_receiverCall (text : List Char) :
    receiverCall.pattern.FoundAt text (startsWord text) where
  apart := by
    intro position m _ hm later hlt hstop hlater
    cases hit : receiverCall.pattern.matchAt? (Place.inText text later) with
    | none => rfl
    | some hit' =>
        obtain ⟨c, tail, hc, hend, -⟩ := call_of_matchAt? hm
        obtain ⟨d, tail', hd, -, -⟩ := call_of_matchAt? hit
        have hend : m.span.stop = position + c.text.length := hend
        rw [startsWord_within hc hd hlt (hend ▸ hstop)] at hlater
        cases hlater
  covered := by
    intro position m hnot hm
    obtain ⟨c, tail, hc, -, -⟩ := call_of_matchAt? hm
    obtain ⟨earlier, hlt, hstart, e, he, hcovers⟩ := exists_call_before hc hnot
    obtain ⟨hit, hhit, hstop, -⟩ := @matchAt?_call (Place.inText text earlier) tail e he
    have hstop : hit.span.stop = earlier + e.text.length := hstop
    exact ⟨earlier, hlt, hstart, hit, hhit, hstop ▸ hcovers⟩

/-- The receiver of the call that starts at a place. -/
def receiverAt? (text : List Char) (position : Nat) : Option (List Char) :=
  (receiverCall.pattern.hitAt? text (startsWord text) position).bind fun m => m.group? 1

theorem receiverAt?_eq_some_iff :
    receiverAt? text position = some receiver ↔ CallAt text position receiver := by
  constructor
  · intro h
    obtain ⟨m, hhit, hgroup⟩ := Option.bind_eq_some_iff.mp h
    obtain ⟨hstart, hm⟩ := Option.ite_none_right_eq_some.mp hhit
    obtain ⟨c, tail, hrest, -, hreceiver⟩ := call_of_matchAt? hm
    have hrest : text.drop position = c.text ++ tail := hrest
    obtain rfl := Option.some.inj (hreceiver.symm.trans hgroup)
    refine ⟨text.take position, tail, c, ?_, length_take_of_call hrest, ?_, rfl⟩
    · rw [← hrest, List.take_append_drop]
    · rwa [startsWord, Bool.not_eq_true'] at hstart
  · rintro ⟨before, after, c, rfl, rfl, hbefore, rfl⟩
    have hstart : startsWord (before ++ (c.text ++ after)) before.length = true := by
      rw [startsWord, List.take_left, hbefore]
      rfl
    obtain ⟨m, hm, -, hgroup⟩ := @matchAt?_call
      (Place.inText (before ++ (c.text ++ after)) before.length) after c (List.drop_left ..)
    rw [receiverAt?, hitAt?, if_pos hstart, hm]
    exact hgroup

/-- The places where a text calls a method of a word, each with the word. -/
def callsIn (text : List Char) : List (Nat × List Char) :=
  (List.range (text.length + 1)).filterMap fun position =>
    (receiverAt? text position).map (position, ·)

theorem mem_callsIn : (position, receiver) ∈ callsIn text ↔ CallAt text position receiver := by
  rw [callsIn, List.mem_filterMap, ← receiverAt?_eq_some_iff]
  constructor
  · rintro ⟨place, -, h⟩
    obtain ⟨word, hword, heq⟩ := Option.map_eq_some_iff.mp h
    obtain ⟨rfl, rfl⟩ := Prod.mk.inj heq
    exact hword
  · intro h
    obtain ⟨before, after, c, htext, rfl, -⟩ := receiverAt?_eq_some_iff.mp h
    refine ⟨before.length, List.mem_range.mpr (Nat.lt_succ_of_le ?_), by rw [h]; rfl⟩
    rw [htext, List.length_append]
    exact Nat.le_add_right _ _

/-- The calls stand in the order of the text. -/
theorem pairwise_callsIn (text : List Char) : (callsIn text).Pairwise (·.1 < ·.1) := by
  refine List.Pairwise.filterMap _ ?_ List.pairwise_lt_range
  intro place later hlt call hcall call' hcall'
  obtain ⟨_, -, rfl⟩ := Option.map_eq_some_iff.mp hcall
  obtain ⟨_, -, rfl⟩ := Option.map_eq_some_iff.mp hcall'
  exact hlt

/-- What the pattern keeps are the receivers of the calls, in the order of the text. -/
theorem captured_receiverCall (text : List Char) :
    captured receiverCall.pattern text = (callsIn text).map (·.2) := by
  rw [captured, (foundAt_receiverCall text).findAll_eq_filterMap, List.filterMap_filterMap, callsIn,
    List.map_filterMap]
  refine List.filterMap_congr fun position _ => ?_
  rw [Option.map_map]
  exact (Option.map_id' ..).symm

/-- The first call of each receiver. -/
theorem mem_firstOfEach_callsIn :
    (position, receiver) ∈ firstOfEach (·.2) (callsIn text) ↔ FirstCall text position receiver := by
  rw [mem_firstOfEach_of_pairwise (fun a b hab hba => Nat.lt_asymm hab hba) (pairwise_callsIn text),
    mem_callsIn]
  refine and_congr_right fun _ => ⟨fun h earlier hlt hcall => ?_, ?_⟩
  · exact h (earlier, receiver) (mem_callsIn.mpr hcall) hlt rfl
  · rintro h ⟨earlier, _⟩ hmem hlt rfl
    exact h earlier hlt (mem_callsIn.mp hmem)

/-- The receiver of a call is a word. -/
theorem CallAt.isWord (h : CallAt text position receiver) :
    receiver ≠ [] ∧ ∀ c ∈ receiver, Text.isWord c = true := by
  obtain ⟨-, -, c, -, -, -, rfl⟩ := h
  exact c.isReceiver

/-! ## The types of the receivers -/

/-- The first call of a method of a variable, and the type with which the variable is declared. -/
structure ResolvedCall where
  position : Nat
  receiver : List Char
  type : List Char

/-- A call of a method of a variable, if the variable is declared. -/
def resolve? (text : List Char) (call : Nat × List Char) : Option ResolvedCall :=
  (declaredType? text call.2).map fun type => ⟨call.1, call.2, type⟩

/-- **The receivers of calls** are found and resolved, each once: the types that the rule finds are
    the types in the first declarations of all words whose methods are called somewhere in the text
    and that are declared, in the order of their first calls. -/
theorem typesIn_receiverCall (text : List Char) :
    ∃ resolved : List ResolvedCall,
      receiverCall.typesIn text = resolved.map (fun r => String.ofList r.type)
      ∧ resolved.Pairwise (fun r later =>
          r.position < later.position ∧ r.receiver ≠ later.receiver)
      ∧ ∀ r, r ∈ resolved
          ↔ FirstCall text r.position r.receiver ∧ FirstDeclared text r.receiver r.type := by
  refine ⟨(firstOfEach (·.2) (callsIn text)).filterMap (resolve? text), ?_, ?_, fun r => ?_⟩
  · show (captured receiverCall.pattern text).eraseDups.filterMap _ = _
    rw [captured_receiverCall, ← map_firstOfEach, List.filterMap_map, List.map_filterMap]
    refine List.filterMap_congr fun call _ => ?_
    rw [resolve?, Option.map_map]
    rfl
  · have hplaces : (firstOfEach (·.2) (callsIn text)).Pairwise (·.1 < ·.1) :=
      (pairwise_callsIn text).sublist (firstOfEach_sublist _)
    have hreceivers : (firstOfEach (·.2) (callsIn text)).Pairwise (·.2 ≠ ·.2) :=
      List.pairwise_map.mp (nodup_keys_firstOfEach _)
    refine List.Pairwise.filterMap _ ?_ (hplaces.and hreceivers)
    rintro call later ⟨hlt, hne⟩ r hr r' hr'
    obtain ⟨_, -, rfl⟩ := Option.map_eq_some_iff.mp hr
    obtain ⟨_, -, rfl⟩ := Option.map_eq_some_iff.mp hr'
    exact ⟨hlt, hne⟩
  · rw [List.mem_filterMap]
    constructor
    · rintro ⟨⟨position, receiver⟩, hmem, hr⟩
      obtain ⟨type, htype, rfl⟩ := Option.map_eq_some_iff.mp hr
      have hfirst := mem_firstOfEach_callsIn.mp hmem
      exact ⟨hfirst, (declaredType?_eq_some_iff hfirst.1.isWord).mp htype⟩
    · rintro ⟨hfirst, hdeclared⟩
      refine ⟨(r.position, r.receiver), mem_firstOfEach_callsIn.mpr hfirst, ?_⟩
      rw [resolve?, (declaredType?_eq_some_iff hfirst.1.isWord).mpr hdeclared]
      rfl

/-- A source text in which a variable is declared with a type in lower case before it is declared
    with a capitalised one. -/
def shadowedSource : String :=
  "myService svc; Real svc; svc.call();"

/-- The second declaration in it. -/
theorem declaredAt_shadowed :
    DeclaredAt shadowedSource.toList 15 "svc".toList "Real".toList :=
  ⟨"myService svc; ".toList, " svc.call();".toList, {
    type := "Real".toList, arguments := [], space := [' '], field := "svc".toList, gap := []
    mark := ';'
    isType := ⟨'R', "eal".toList, rfl, rfl, List.all_eq_true.mp (by decide)⟩
    isArguments := Or.inr rfl
    isSpace := ⟨by decide, List.all_eq_true.mp (by decide)⟩
    isField := ⟨by decide, List.all_eq_true.mp (by decide +kernel)⟩
    isGap := List.forall_mem_nil _
    isMark := rfl }, by decide +kernel, by decide, rfl, rfl, by decide⟩

/-- The only declaration whose type is a word of its own has the type `Real`, but the end of another
    word is found. -/
theorem typesIn_receiverCall_shadowed :
    FirstCall shadowedSource.toList 25 "svc".toList
    ∧ (∀ position type, startsWord shadowedSource.toList position = true →
        (DeclaredAt shadowedSource.toList position "svc".toList type
          ↔ position = 15 ∧ type = "Real".toList))
    ∧ receiverCall.typesIn shadowedSource.toList = ["Service"] := by
  refine ⟨⟨receiverAt?_eq_some_iff.mp (by decide +kernel), fun earlier hlt hcall => ?_⟩,
    fun position type hstart => ⟨fun h => ?_, ?_⟩, by decide +kernel⟩
  · have hnone : ∀ earlier < 25, receiverAt? shadowedSource.toList earlier = none := by
      decide +kernel
    exact nomatch (hnone earlier hlt).symm.trans (receiverAt?_eq_some_iff.mpr hcall)
  · have honly : ∀ position < shadowedSource.toList.length,
        startsWord shadowedSource.toList position = true →
        shadowedSource.toList[position]?.any (·.isUpper) = true → position = 15 := by
      decide +kernel
    have hupper := h.isUpper
    have hlt : position < shadowedSource.toList.length := by
      refine Nat.lt_of_not_le fun hge => ?_
      rw [List.getElem?_eq_none hge] at hupper
      cases hupper
    obtain rfl := honly position hlt hstart hupper
    exact ⟨rfl, h.unique declaredAt_shadowed⟩
  · rintro ⟨rfl, rfl⟩
    exact declaredAt_shadowed

end DependencyRule

end FailureTriage
