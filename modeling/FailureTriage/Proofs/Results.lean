/-!
# Results of steps that may fail

What a run of several steps gives, by what its steps give.

* `bind_eq_ok`, `bind_eq_error`: two steps one after the other.
* `mapError_bind_eq_ok`: two steps with the fault of the first one reworded.
* `toOption_eq_some_iff`, `exists_ok_of_map`: the value of a step, and what is seen of it.
-/

namespace FailureTriage

/-- A step after another one gives a value exactly if both steps do. -/
theorem bind_eq_ok {α β ε : Type} {step : Except ε α} {next : α → Except ε β} {result : β} :
    (step >>= next) = .ok result ↔ ∃ found, step = .ok found ∧ next found = .ok result := by
  cases step with
  | error fault =>
      constructor
      · intro h
        cases h
      · rintro ⟨found, h, -⟩
        cases h
  | ok value =>
      constructor
      · exact fun h => ⟨value, rfl, h⟩
      · rintro ⟨found, hsame, h⟩
        obtain rfl := Except.ok.inj hsame
        exact h

/-- It gives a fault exactly if one of them does. -/
theorem bind_eq_error {α β ε : Type} {step : Except ε α} {next : α → Except ε β} {fault : ε} :
    (step >>= next) = .error fault
      ↔ step = .error fault ∨ ∃ found, step = .ok found ∧ next found = .error fault := by
  cases step with
  | error cause =>
      constructor
      · intro h
        cases h
        exact Or.inl rfl
      · rintro (h | ⟨found, h, -⟩)
        · cases h
          rfl
        · cases h
  | ok value =>
      constructor
      · exact fun h => Or.inr ⟨value, rfl, h⟩
      · rintro (h | ⟨found, hsame, h⟩)
        · cases h
        · obtain rfl := Except.ok.inj hsame
          exact h

/-- A fault may be reworded before the step after it. -/
theorem mapError_bind_eq_ok {α β ε δ : Type} {step : Except ε α} {reword : ε → δ}
    {next : α → Except δ β} {result : β} :
    (step.mapError reword >>= next) = .ok result
      ↔ ∃ found, step = .ok found ∧ next found = .ok result := by
  rw [bind_eq_ok]
  refine exists_congr fun found => and_congr_left fun _ => ?_
  cases step with
  | error fault => constructor <;> intro h <;> cases h
  | ok value => exact ⟨fun h => congrArg _ (Except.ok.inj h), fun h => congrArg _ (Except.ok.inj h)⟩

/-- The value of a step is the one that it gives. -/
theorem toOption_eq_some_iff {α ε : Type} {step : Except ε α} {found : α} :
    step.toOption = some found ↔ step = .ok found := by
  cases step with
  | error fault => exact iff_of_false nofun nofun
  | ok value => exact ⟨fun h => congrArg Except.ok (Option.some.inj h), fun h => h ▸ rfl⟩

/-- If something is seen of the value of a step, the step gives one. -/
theorem exists_ok_of_map {ε α β : Type} {tried : Except ε α} {f : α → β} {seen : β}
    (h : tried.toOption.map f = some seen) : ∃ value, tried = .ok value ∧ f value = seen := by
  cases tried with
  | error cause => cases h
  | ok value => exact ⟨value, rfl, Option.some.inj h⟩

end FailureTriage
