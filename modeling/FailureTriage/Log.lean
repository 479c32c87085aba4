/-!
# Messages

A computation that reports what it does returns its messages together with its value; it has no
other way to speak.

* `Logged` is such a result.  Messages of later steps come after those of earlier ones.
-/

namespace FailureTriage

/-- How severe a message is. -/
inductive MessageLevel where
  | info
  | warning
  | error
  deriving DecidableEq, Repr

/-- The word for a level. -/
def MessageLevel.label : MessageLevel → String
  | .info => "INFO"
  | .warning => "WARN"
  | .error => "ERROR"

/-- A message about progress or about something that went wrong. -/
structure Message where
  level : MessageLevel
  text : String
  deriving DecidableEq, Repr

/-- A value and the messages on the way to it. -/
structure Logged (α : Type) where
  value : α
  messages : List Message := []

namespace Logged

variable {α β : Type}

/-- A value without a message. -/
protected def pure (value : α) : Logged α :=
  { value }

/-- A step after another. -/
protected def bind (x : Logged α) (f : α → Logged β) : Logged β :=
  { value := (f x.value).value, messages := x.messages ++ (f x.value).messages }

instance : Monad Logged where
  pure := Logged.pure
  bind := Logged.bind

/-- Reports progress. -/
def info (text : String) : Logged Unit :=
  { value := (), messages := [⟨.info, text⟩] }

/-- Reports something that went wrong and is left out. -/
def warn (text : String) : Logged Unit :=
  { value := (), messages := [⟨.warning, text⟩] }

@[simp] theorem value_pure (a : α) : (pure a : Logged α).value = a := rfl

@[simp] theorem messages_pure (a : α) : (pure a : Logged α).messages = [] := rfl

@[simp] theorem value_bind (x : Logged α) (f : α → Logged β) :
    (x >>= f).value = (f x.value).value := rfl

@[simp] theorem messages_bind (x : Logged α) (f : α → Logged β) :
    (x >>= f).messages = x.messages ++ (f x.value).messages := rfl

@[simp] theorem value_info (text : String) : (info text).value = () := rfl

@[simp] theorem messages_info (text : String) : (info text).messages = [⟨.info, text⟩] := rfl

@[simp] theorem value_warn (text : String) : (warn text).value = () := rfl

@[simp] theorem messages_warn (text : String) : (warn text).messages = [⟨.warning, text⟩] := rfl

/-- What comes after a step depends on the value of the step. -/
theorem bind_congr_value {x : Logged α} {f g : α → Logged β} (h : f x.value = g x.value) :
    x >>= f = x >>= g :=
  congrArg (fun y : Logged β => Logged.mk y.value (x.messages ++ y.messages)) h

/-- A step for each item of a list, in order. -/
def forEach (f : α → Logged β) : List α → Logged (List β)
  | [] => pure []
  | a :: rest => do
    let b ← f a
    let bs ← forEach f rest
    return b :: bs

@[simp] theorem value_forEach (f : α → Logged β) (items : List α) :
    (forEach f items).value = items.map fun a => (f a).value := by
  induction items with
  | nil => rfl
  | cons a rest ih => simp [forEach, ih]

@[simp] theorem messages_forEach (f : α → Logged β) (items : List α) :
    (forEach f items).messages = items.flatMap fun a => (f a).messages := by
  induction items with
  | nil => rfl
  | cons a rest ih => simp [forEach, ih]

/-- A step for each item of a list, in order, up to one that fails. -/
def tryEach {ε : Type} (f : α → Logged (Except ε β)) : List α → Logged (Except ε (List β))
  | [] => pure (.ok [])
  | a :: rest => do
    match ← f a with
    | .error fault => return .error fault
    | .ok b => return (← tryEach f rest).map (b :: ·)

/-- Steps that do the same for each item do the same for the list. -/
theorem forEach_congr {f g : α → Logged β} {items : List α} (h : ∀ a ∈ items, f a = g a) :
    forEach f items = forEach g items := by
  induction items with
  | nil => rfl
  | cons a rest ih =>
      rw [forEach, forEach, h a List.mem_cons_self, ih fun b hb => h b (List.mem_cons_of_mem a hb)]

end Logged

end FailureTriage
