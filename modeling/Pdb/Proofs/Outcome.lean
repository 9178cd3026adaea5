/-! # Outcomes

If a computation that may fail has a result, so has each of its steps. -/

namespace Pdb

variable {ε ε' α β : Type} {x : Except ε α} {a : α} {b : β}

theorem exists_of_bind_eq_ok {f : α → Except ε β} (h : x >>= f = .ok b) :
    ∃ a, x = .ok a ∧ f a = .ok b := by
  cases x with
  | error e => exact nomatch h
  | ok a => exact ⟨a, rfl, h⟩

/-- A test that has not made the computation fail has come out false. -/
theorem of_ite_eq_ok {p : Prop} [Decidable p] {y : Except ε α} (h : (if p then x else y) = .ok a)
    (hx : x ≠ .ok a) : ¬ p ∧ y = .ok a := by
  by_cases hp : p
  · rw [if_pos hp] at h
    exact absurd h hx
  · rw [if_neg hp] at h
    exact ⟨hp, h⟩

theorem ite_bind_eq {p : Prop} [Decidable p] (x y : Except ε α) (f : α → Except ε β) :
    (if p then x else y) >>= f = if p then x >>= f else y >>= f := by
  split <;> rfl

theorem exists_of_map_eq_ok {f : α → β} (h : x.map f = .ok b) : ∃ a, x = .ok a ∧ f a = b := by
  cases x with
  | error e => exact nomatch h
  | ok a => exact ⟨a, rfl, Except.ok.inj h⟩

theorem ok_of_mapError {f : ε → ε'} (h : x.mapError f = .ok a) : x = .ok a := by
  cases x with
  | error e => exact nomatch h
  | ok b => exact congrArg _ (Except.ok.inj h)

theorem ok_of_toOption (h : x.toOption = some a) : x = .ok a := by
  cases x with
  | error e => exact nomatch h
  | ok b => exact congrArg _ (Option.some.inj h)

theorem toOption_map (f : α → β) (x : Except ε α) : (x.map f).toOption = x.toOption.map f := by
  cases x <;> rfl

end Pdb
