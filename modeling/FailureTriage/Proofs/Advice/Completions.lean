import FailureTriage.Advice.Completion
import FailureTriage.Proofs.Json.Parsing
import Mathlib.Data.List.Forall2

/-!
# The reply of an answer

The answer of a chat completions endpoint may be written in any way that the grammar allows, with
any unknown members and its members in any order.  The reply is the text of its first choice.

* `Json.Gives`: what a record with one known field gives for it.
* `Completion.IsChoice`, `Completion.IsAnswer`: the contents of the choices of an answer.
* `Completion.reply?_of_writes`: the reply that is read of an answer.
-/

namespace FailureTriage

namespace Json

/-- Whether a value is a record with one known field, and what it gives for it: an object whose keys
    all stand for a text and of whose members at most one has that name, or an array of the field
    alone. -/
def Gives (name : String) (given : Option Json) : Json → Prop
  | .object members => (∀ m ∈ members, m.1.isSome = true)
      ∧ (members.filter fun m => m.1 == some name).map (·.2) = given.toList
  | .array items => items = given.toList
  | _ => False

/-- What a record gives is read of it. -/
theorem fields?_of_gives {field : Field} {given : Option Json} {json : Json}
    (h : Gives field.name given json) (hgiven : given = none → field.hasDefault = true) :
    fields? [field] json = some [given] := by
  cases json with
  | object members =>
      obtain ⟨hkeys, hmembers⟩ := h
      have hmember : member? members field.name = some given := by
        rw [member?]
        cases given with
        | none => rw [List.map_eq_nil_iff.mp hmembers]
        | some value =>
            obtain ⟨m, hfilter, rfl⟩ := List.map_eq_singleton_iff.mp hmembers
            rw [hfilter]
      rw [fields?, if_pos (List.all_eq_true.mpr hkeys), List.mapM_cons, hmember]
      rfl
  | array items =>
      obtain rfl : items = given.toList := h
      cases given with
      | none =>
          show (if field.hasDefault = true then _ else _) = _
          rw [if_pos (hgiven rfl)]
          rfl
      | some value => rfl
  | null => exact absurd h id
  | bool value => exact absurd h id
  | number value => exact absurd h id
  | string text => exact absurd h id

end Json

namespace Completion

open Json

/-- The text that the value of a field stands for: none if it is missing or `null`. -/
inductive Says : Option Json → Option String → Prop
  | missing : Says none none
  | null : Says (some .null) none
  | text (s : String) : Says (some (.string (some s))) (some s)

/-- Whether a value is a choice with a message, and the content of that message. -/
def IsChoice (json : Json) (content : Option String) : Prop :=
  ∃ message said, Gives "message" (some message) json ∧ Gives "content" said message
    ∧ Says said content

/-- Whether a value is an answer, and the contents of its choices. -/
def IsAnswer (json : Json) (contents : List (Option String)) : Prop :=
  (Gives "choices" none json ∧ contents = [])
    ∨ ∃ choices, Gives "choices" (some (.array choices)) json
        ∧ List.Forall₂ IsChoice choices contents

variable {json : Json} {contents : List (Option String)}

/-- A choice is read. -/
theorem decode?_of_isChoice {content : Option String} (h : IsChoice json content) :
    decode? json = some (Choice.mk content) := by
  obtain ⟨message, said, hmessage, hsaid, hcontent⟩ := h
  have hfirst : fields? [must "message"] json = some [some message] :=
    fields?_of_gives hmessage fun hnone => nomatch hnone
  have hsecond : fields? [may "content"] message = some [said] :=
    fields?_of_gives hsaid fun _ => rfl
  have hread : nullable said = some content := by
    cases hcontent with
    | missing => rfl
    | null => rfl
    | text s => rfl
  show (fields? [must "message"] json).bind _ = _
  rw [hfirst]
  show (fields? [may "content"] message).bind _ = _
  rw [hsecond]
  show (nullable said).bind _ = _
  rw [hread]
  rfl

/-- The choices of an answer are read. -/
theorem choices?_of_writes {body : String} (hbody : Writes (.element json) body.toList)
    (hjson : IsAnswer json contents) : choices? body = some (contents.map Choice.mk) := by
  have hread : ∀ given, Gives "choices" given json →
      choices? body = withDefault [] given := by
    intro given hgiven
    have hfields : fields? [may "choices"] json = some [given] :=
      fields?_of_gives hgiven fun _ => rfl
    rw [choices?, read?_of_writes hbody]
    show (fields? [may "choices"] json).bind _ = _
    rw [hfields]
    rfl
  rcases hjson with ⟨hgiven, rfl⟩ | ⟨choices, hgiven, hchoices⟩
  · rw [hread none hgiven]
    rfl
  · rw [hread _ hgiven]
    show choices.mapM decode? = _
    clear hgiven
    induction hchoices with
    | nil => rfl
    | cons hchoice _ ih =>
        rw [List.mapM_cons, decode?_of_isChoice hchoice, ih]
        rfl

/-- **The reply of an answer**, in whatever way the answer is written, is the content of its first
    choice, or a fixed text if there is none. -/
theorem reply?_of_writes {body : String} (hbody : Writes (.element json) body.toList)
    (hjson : IsAnswer json contents) :
    reply? body
      = some (match contents with
        | some s :: _ => s
        | _ => emptyReply) := by
  rw [reply?, choices?_of_writes hbody hjson]
  match contents with
  | [] => rfl
  | none :: later => rfl
  | some s :: later => rfl

/-- An answer with an unknown member, a first choice whose content has characters within and beyond
    the basic plane, and a second choice without content. -/
def mixedAnswer : Json :=
  .object [
    (some "id", .number (numeralOf true ['1'] (some ['5']) (some 2))),
    (some "choices", .array [
      .object [(some "message", .object [(some "content", .text "aé😀\n")])],
      .object [(some "message", .object [])]])]

/-- The answer with escapes in its text and blanks between some of its tokens. -/
def mixedBody : String :=
  "\x7b\"id\":-1.5E+2,\n\"choices\" : [\x7b\"message\":\x7b\"content\":"
    ++ "\"a\\u00E9\\ud83d\\uDE00\\n\"\x7d\x7d,\x7b\"message\":\x7b\x7d\x7d]\x7d"

/-- The reply of an answer that is written with escapes. -/
theorem reply?_mixedBody :
    Writes (.element mixedAnswer) mixedBody.toList
    ∧ IsAnswer mixedAnswer [some "aé😀\n", none]
    ∧ reply? mixedBody = some "aé😀\n" := by
  have hnone : Blanks [] := List.forall_mem_nil _
  have hplain : (["id", "choices", "message", "content"].all fun name =>
      name.toList.all fun c => decide (IsPlain c)) = true := by decide +kernel
  have hkey : ∀ name ∈ ["id", "choices", "message", "content"],
      IsString name.toList (some name) := by
    intro name hname
    exact isString_plain fun c hc =>
      of_decide_eq_true (List.all_eq_true.mp (List.all_eq_true.mp hplain name hname) c hc)
  have hvalue {value : Json} {text : List Char} (h : Writes (.value value) text) :
      Writes (.element value) text := by
    have helement := Writes.element hnone h hnone
    rwa [List.nil_append, List.append_nil] at helement
  have hcode (a b c d : Char) (i j k l : Nat) (h : HexDigit a i ∧ HexDigit b j ∧ HexDigit c k
      ∧ HexDigit d l) : HexCode a b c d (((i * 16 + j) * 16 + k) * 16 + l) :=
    .digits h.1 h.2.1 h.2.2.1 h.2.2.2
  have hchars : StandsFor ['a', '\\', 'u', '0', '0', 'E', '9', '\\', 'u', 'd', '8', '3', 'd', '\\',
      'u', 'D', 'E', '0', '0', '\\', 'n'] ['a', 'é', '😀', '\n'] := by
    have hhigh : HexCode 'd' '8' '3' 'd' (0xD800 + 0x3D) := hcode _ _ _ _ 13 8 3 13 (by decide)
    have hlow : HexCode 'D' 'E' '0' '0' (0xDC00 + 0x200) := hcode _ _ _ _ 13 14 0 0 (by decide)
    have haccent : HexCode '0' '0' 'E' '9' 'é'.toNat := hcode _ _ _ _ 0 0 14 9 (by decide)
    exact .plain (by decide) (.code haccent
      (.pair hhigh hlow (by decide) (by decide) (.short (by decide) .nil)))
  have hcontent : IsString _ (some "aé😀\n") := isString_of_standsFor hchars
  have hone : IsWhole ['1'] := ⟨List.cons_ne_nil _ _, by simp, by simp⟩
  have hnumber : WritesNumber (numeralOf true ['1'] (some ['5']) (some 2)) _ :=
    .parts hone (.digits (List.cons_ne_nil '5' []) (by simp))
      (.digits (Or.inr rfl) (List.mem_cons_of_mem _ List.mem_cons_self) (List.cons_ne_nil '2' [])
        (by simp))
  have hid := Writes.member hnone (hkey "id" (by decide)) hnone (hvalue (.number hnumber))
  have hmessage := Writes.member hnone (hkey "content" (by decide)) hnone
    (hvalue (.string hcontent))
  have hfirst := Writes.member hnone (hkey "message" (by decide)) hnone
    (hvalue (.object (.lastMember hmessage)))
  have hsecond := Writes.member hnone (hkey "message" (by decide)) hnone
    (hvalue (.emptyObject hnone))
  have hspace : Blanks [' '] := List.forall_mem_singleton.mpr (Or.inl rfl)
  have hline : Blanks ['\n'] := List.forall_mem_singleton.mpr (Or.inr (Or.inl rfl))
  have hchoices := Writes.member hline (hkey "choices" (by decide)) hspace
    (Writes.element hspace (.array (.items (hvalue (.object (.lastMember hfirst)))
      (.lastItem (hvalue (.object (.lastMember hsecond)))))) hnone)
  have hall : Writes (.element mixedAnswer) _ :=
    hvalue (Writes.object (Writes.members hid (.lastMember hchoices)))
  have hbody : Writes (.element mixedAnswer) mixedBody.toList := by
    refine Eq.mp (congrArg (Writes (.element mixedAnswer)) ?_) hall
    decide +kernel
  have hjson : IsAnswer mixedAnswer [some "aé😀\n", none] := by
    refine Or.inr ⟨_, ⟨by decide, rfl⟩, .cons ?_ (.cons ?_ .nil)⟩
    · exact ⟨_, _, ⟨by decide, rfl⟩, ⟨by decide, rfl⟩, .text _⟩
    · exact ⟨_, none, ⟨by decide, rfl⟩, ⟨by decide, rfl⟩, .missing⟩
  exact ⟨hbody, hjson, reply?_of_writes hbody hjson⟩

end Completion

end FailureTriage
