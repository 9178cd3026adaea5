import Pdb.Proofs.FieldWalk
import Pdb.TypeStore

/-! # What a computation that makes types leaves behind

`wp averted c Q s`: if `c`, run on the store `s`, has a result, then this result and the store
afterwards satisfy `Q`, and it does not halt for a reason that is averted. There is one lemma for each
way in which such a computation is put together.
-/

namespace Pdb

/-- What cannot happen when a type is made. -/
def TypeStream.MakingAverts (s : TypeStream) : Halt → Prop
  | .endless => s.ChainsEnd
  | .overflow => True

theorem TypeStream.makingAverts {s : TypeStream} (hends : s.ChainsEnd) (h : Halt) :
    s.MakingAverts h := by
  cases h with
  | endless => exact hends
  | overflow => trivial

namespace Creation
variable {σ α β : Type} {averts averts' : Halt → Prop} {s : TypeStore σ}
  {Q Q' : Option α → TypeStore σ → Prop} {R : Option β → TypeStore σ → Prop}

def wp (averts : Halt → Prop) (c : Creation σ α) (Q : Option α → TypeStore σ → Prop)
    (s : TypeStore σ) : Prop :=
  match c.runOn s with
  | .error (h, _) => ¬ averts h
  | .ok (r, s') => Q r s'

theorem wp_mono {c : Creation σ α} (h : wp averts c Q s) (hQ : ∀ r s', Q r s' → Q' r s') :
    wp averts c Q' s := by
  rw [wp] at h ⊢
  cases hc : c.runOn s with
  | error e => rwa [hc] at h
  | ok r => rw [hc] at h; exact hQ _ _ h

/-- What averts more has no fewer results. -/
theorem wp_averts {c : Creation σ α} (h : wp averts c Q s) (ha : ∀ h, averts' h → averts h) :
    wp averts' c Q s := by
  rw [wp] at h ⊢
  cases hc : c.runOn s with
  | error e => rw [hc] at h; exact fun he => h (ha _ he)
  | ok r => rwa [hc] at h

/-- What holds of a result holds of it whether or not there has to be one. -/
theorem wp_and {c : Creation σ α} (h : wp averts c Q s) (h' : wp averts' c Q' s) :
    wp averts c (fun r s' => Q r s' ∧ Q' r s') s := by
  rw [wp] at h h' ⊢
  cases hc : c.runOn s with
  | error e => rwa [hc] at h
  | ok r =>
    rw [hc] at h h'
    exact ⟨h, h'⟩

theorem wp_run {c : Creation σ α} (h : wp averts c Q s) {r : Option α} {s' : TypeStore σ}
    (hc : c.runOn s = .ok (r, s')) : Q r s' := by
  rwa [wp, hc] at h

/-- A computation with all halts averted has a result. -/
theorem exists_of_wp {c : Creation σ α} (h : wp averts c Q s) (hall : ∀ h, averts h) :
    ∃ r s', c.runOn s = .ok (r, s') ∧ Q r s' := by
  rw [wp] at h
  rcases hc : c.runOn s with e | ⟨r, s'⟩
  · rw [hc] at h
    exact absurd (hall _) h
  · rw [hc] at h
    exact ⟨r, s', rfl, h⟩

theorem wp_pure (a : α) : wp averts (pure a) Q s ↔ Q (some a) s := Iff.rfl

theorem wp_failure : wp averts failure Q s ↔ Q none s := Iff.rfl

theorem runOn_bind (c : Creation σ α) (k : α → Creation σ β) (s : TypeStore σ) :
    (c >>= k).runOn s = (c.runOn s).bind fun p => match p with
      | (some a, s') => (k a).runOn s'
      | (none, s') => .ok (none, s') := by
  show (OptionT.bind c k) s = (c s).bind _
  rw [OptionT.bind]
  show (c s).bind _ = _
  congr 1
  funext ⟨r, s'⟩
  cases r <;> rfl

theorem wp_bind (c : Creation σ α) (k : α → Creation σ β) :
    wp averts (c >>= k) R s ↔ wp averts c (fun r s' => match r with
      | some a => wp averts (k a) R s'
      | none => R none s') s := by
  rw [wp, wp, runOn_bind]
  rcases c.runOn s with e | ⟨_ | a, s'⟩
  · exact Iff.rfl
  · exact Iff.rfl
  · exact Iff.rfl

theorem wp_atEnd (x : Option α) : wp averts (atEnd x) Q s ↔ match x with
    | some a => Q (some a) s
    | none => ¬ averts .endless := by
  cases x <;> exact Iff.rfl

theorem wp_word64 {Q : Option Nat → TypeStore σ → Prop} (n : Nat) : wp averts (word64 n) Q s
    ↔ if n < 2 ^ 64 then Q (some n) s else ¬ averts .overflow := by
  rw [word64]
  split <;> exact Iff.rfl

theorem wp_ofOption (x : Option α) : wp averts (ofOption x) Q s ↔ Q x s := Iff.rfl

theorem wp_look (f : TypeStore σ → α) : wp averts (look f) Q s ↔ Q (some (f s)) s := Iff.rfl

theorem wp_update (f : TypeStore σ → TypeStore σ) (Q : Option Unit → TypeStore σ → Prop) :
    wp averts (update f) Q s ↔ Q (some ()) (f s) := Iff.rfl

theorem wp_ask (f : σ → α × σ) :
    wp averts (ask f) Q s ↔ Q (some (f s.system).1) { s with system := (f s.system).2 } := Iff.rfl

theorem wp_attempt (c : Creation σ α) (Q : Option (Option α) → TypeStore σ → Prop) :
    wp averts (attempt c) Q s ↔ wp averts c (fun r s' => Q (some r) s') s := by
  simp only [wp, attempt, runOn, OptionT.mk]
  rcases c s with e | ⟨r, s'⟩ <;> exact Iff.rfl

theorem wp_ite (p : Prop) [Decidable p] (c d : Creation σ α) :
    wp averts (if p then c else d) Q s ↔ if p then wp averts c Q s else wp averts d Q s := by
  split <;> exact Iff.rfl

end Creation
end Pdb
