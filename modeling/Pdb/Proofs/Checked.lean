import Pdb.Bytes

/-! # Computations with checks

A program that indexes, slices and subtracts without looking first stops where it must not do so.
Here such a step is a check: `none` stands for one that has gone wrong. `Meets R x y` compares a
computation with checks to one without them: no check goes wrong, the two fail alike, and their
results are related by `R`.
-/

namespace Pdb

namespace Check
variable {α : Type}

def ensure (p : Prop) [Decidable p] : Option Unit := if p then some () else none

def fetch (ns : List Nat) (i : Nat) : Option Nat := ns[i]?

/-- The elements from `start` on, up to `stop`. -/
def slice (xs : List α) (start stop : Nat) : Option (List α) :=
  if start ≤ stop ∧ stop ≤ xs.length then some ((xs.take stop).drop start) else none

def minus (a b : Nat) : Option Nat := if b ≤ a then some (a - b) else none

/-- The sum of two words, if it is a word. -/
def plus (a b : Nat) : Option Nat := if a + b < 2 ^ 32 then some (a + b) else none

section
variable {p : Prop} [Decidable p] {xs : List α} {ns : List Nat} {a b i start stop : Nat}

theorem ensure_of (h : p) : ensure p = some () := if_pos h

theorem fetch_of_lt (h : i < ns.length) : fetch ns i = some ns[i] := List.getElem?_eq_getElem h

theorem slice_of_le (h : start ≤ stop) (h' : stop ≤ xs.length) :
    slice xs start stop = some ((xs.take stop).drop start) := if_pos ⟨h, h'⟩

theorem minus_of_le (h : b ≤ a) : minus a b = some (a - b) := if_pos h

theorem plus_of_lt (h : a + b < 2 ^ 32) : plus a b = some (a + b) := if_pos h

end
end Check

/-- A computation with checks that may fail. -/
abbrev Checked (ε α : Type) := ExceptT ε Option α

namespace Checked
variable {ε α β α' β' : Type} {R : α → β → Prop} {S : α' → β' → Prop} {x : Checked ε α}
  {y : Except ε β}

/-- A computation without checks. -/
def total (y : Except ε α) : Checked ε α := ExceptT.mk (some y)

/-- The outcomes are two results that are related, or the same fault. -/
def Meets (R : α → β → Prop) (x : Checked ε α) (y : Except ε β) : Prop :=
  match ExceptT.run x, y with
  | some (.ok a), .ok b => R a b
  | some (.error e), .error e' => e = e'
  | _, _ => False

theorem meets_pure {a : α} {b : β} (h : R a b) : Meets R (pure a : Checked ε α) (pure b) := h

theorem meets_throw (e : ε) : Meets R (throw e : Checked ε α) (throw e : Except ε β) := rfl

theorem meets_total {y : Except ε α} {R : α → α → Prop} (h : ∀ a, y = .ok a → R a a) :
    Meets R (total y) y := by
  cases y with
  | error e => exact rfl
  | ok a => exact h a rfl

theorem Meets.bind {k : α → Checked ε α'} {k' : β → Except ε β'} (h : Meets R x y)
    (hk : ∀ a b, R a b → Meets S (k a) (k' b)) : Meets S (x >>= k) (y >>= k') := by
  match x, y, h with
  | some (.ok a), .ok b, h => exact hk a b h
  | some (.error e), .error _, h =>
    obtain rfl := h
    exact rfl

theorem Meets.mono {R' : α → β → Prop} (h : Meets R x y) (hR : ∀ a b, R a b → R' a b) :
    Meets R' x y := by
  match x, y, h with
  | some (.ok a), .ok b, h => exact hR a b h
  | some (.error e), .error _, h => exact h

/-- A step that only the computation with checks has. -/
theorem Meets.bind_left {k : α → Checked ε α'} {R' : α' → β → Prop} (h : Meets R x y)
    (hk : ∀ a b, R a b → ∃ a', k a = pure a' ∧ R' a' b) : Meets R' (x >>= k) y := by
  match x, y, h with
  | some (.ok a), .ok b, h =>
    obtain ⟨a', ha', hR'⟩ := hk a b h
    show Meets R' (k a) (.ok b)
    rw [ha']
    exact hR'
  | some (.error e), .error _, h => exact h

/-- A step that only the computation without checks has. -/
theorem Meets.bind_right {k : β → Except ε β'} {R' : α → β' → Prop} (h : Meets R x y)
    (hk : ∀ a b, R a b → ∃ b', k b = .ok b' ∧ R' a b') : Meets R' x (y >>= k) := by
  match x, y, h with
  | some (.ok a), .ok b, h =>
    obtain ⟨b', hb', hR'⟩ := hk a b h
    show Meets R' (some (.ok a)) (k b)
    rw [hb']
    exact hR'
  | some (.error e), .error _, h => exact h

/-- A check that goes well leaves its value. -/
theorem lift_bind {o : Option α'} {a : α'} {k : α' → Checked ε α} (h : o = some a) :
    (liftM o >>= k : Checked ε α) = k a := by
  rw [h]
  rfl

/-- The outcome, of which a result is related to that without checks. -/
theorem Meets.exists_eq (h : Meets R x y) : ∃ r, ExceptT.run x = some r
    ∧ match r with
      | .ok a => ∃ b, y = .ok b ∧ R a b
      | .error e => y = .error e := by
  match x, y, h with
  | some (.ok a), .ok b, h => exact ⟨.ok a, rfl, b, rfl, h⟩
  | some (.error e), .error _, h =>
    obtain rfl := h
    exact ⟨.error e, rfl, rfl⟩

end Checked
end Pdb
