import Pdb.Proofs.Creation
import Pdb.TypeStore.Creation

/-! # What fuel is for

Each request for a type that is made in the middle of another one gets a unit of fuel less than that
one. So with `n` units of fuel there is a result exactly if requests nest at most `n` deep, and then
it is the same with any more fuel: `below_getFueled`.
-/

namespace Pdb

namespace Creation
variable {σ α β : Type} {c c' c'' : Creation σ α} {k k' : α → Creation σ β}

/-- Where `c` has a result, `c'` has the same one. -/
def Below (c c' : Creation σ α) : Prop := ∀ s r, c.runOn s = .ok r → c'.runOn s = .ok r

namespace Below

theorem refl (c : Creation σ α) : Below c c := fun _ _ h => h

theorem trans (h : Below c c') (h' : Below c' c'') : Below c c'' := fun s r hr => h' s r (h s r hr)

theorem bind (hc : Below c c') (hk : ∀ a, Below (k a) (k' a)) : Below (c >>= k) (c' >>= k') := by
  intro s r hr
  rw [runOn_bind] at hr ⊢
  cases ha : c.runOn s with
  | error e => rw [ha] at hr; exact nomatch hr
  | ok p =>
    obtain ⟨a?, s'⟩ := p
    rw [ha] at hr
    rw [hc s _ ha]
    cases a? with
    | none => exact hr
    | some a => exact hk a s' r hr

theorem bind_right (c : Creation σ α) (hk : ∀ a, Below (k a) (k' a)) : Below (c >>= k) (c >>= k') :=
  bind (refl c) hk

theorem bind_left (hc : Below c c') (k : α → Creation σ β) : Below (c >>= k) (c' >>= k) :=
  bind hc fun a => refl (k a)

theorem attempt (h : Below c c') : Below (attempt c) (attempt c') := by
  intro s r hr
  rw [Creation.attempt, runOn, OptionT.mk] at hr ⊢
  cases hc : c.runOn s with
  | error e =>
    rw [hc] at hr
    cases hr
  | ok p =>
    rw [hc] at hr
    rw [h s p hc]
    exact hr

end Below
end Creation

namespace TypeGraph
open Creation
variable {σ : Type} [TypeSystem σ] {g : TypeGraph} {want want' : TypeIndex → Creation σ TypeObject}
  {ti : TypeIndex}

theorem below_tagContext (hw : ∀ p, Below (want p) (want' p)) (p : TypeIndex) :
    Below (tagContext want p) (tagContext want' p) :=
  .bind_left (hw p) _

theorem below_declaration (hw : ∀ p, Below (want p) (want' p)) (name : Bytes)
    (unique? : Option Bytes) :
    Below (g.declaration want ti name unique?) (g.declaration want' ti name unique?) := by
  rw [declaration, declaration]
  cases unique?.bind (UniqueName.parse? g.demangler) with
  | none => exact .bind_left (.attempt (.bind_right _ fun p => below_tagContext hw p)) _
  | some u =>
    simp only [decoratedDeclaration]
    cases g.nesting.find? ti with
    | none => exact .refl _
    | some p => exact .bind_left (.attempt (below_tagContext hw p)) _

theorem below_createSimple (hw : ∀ p, Below (want p) (want' p)) :
    Below (createSimple want ti) (createSimple want' ti) := by
  refine .bind_right _ fun type => ?_
  cases type with
  | nullPtr => exact .refl _
  | pointer p size => exact .bind_left (hw p) _
  | basic type size spelling => exact .refl _

theorem below_createPointer (hw : ∀ p, Below (want p) (want' p)) (p : PointerRecord) :
    Below (createPointer want ti p) (createPointer want' ti p) := by
  refine .bind (hw _) fun pointee => .bind_right _ fun class_? => ?_
  cases class_? with
  | none => exact .refl _
  | some class_ => exact .bind_left (hw class_) _

omit [TypeSystem σ] in
theorem below_mapM (hw : ∀ p, Below (want p) (want' p)) (ps : List TypeIndex) :
    Below (ps.mapM want) (ps.mapM want') := by
  induction ps with
  | nil => exact .refl _
  | cons p ps ih =>
    rw [List.mapM_cons, List.mapM_cons]
    exact .bind (hw p) fun t => .bind_left ih _

theorem below_createFunction (hw : ∀ p, Below (want p) (want' p)) (result args : TypeIndex)
    (call : UInt8) :
    Below (g.createFunction want ti result args call) (g.createFunction want' ti result args call) := by
  refine .bind_right _ fun type => ?_
  split
  · exact .bind (below_mapM hw _) fun params => .bind_left (hw result) _
  · exact .refl _

theorem below_createRecord (hw : ∀ p, Below (want p) (want' p)) (name : Bytes)
    (unique? : Option Bytes) (size : Nat) (kind : RecordKind) (inheritance : InheritanceModel) :
    Below (g.createRecord want ti name unique? size kind inheritance)
      (g.createRecord want' ti name unique? size kind inheritance) :=
  .bind_left (below_declaration hw name unique?) _

theorem below_createEnum (hw : ∀ p, Below (want p) (want' p)) (e : EnumRecord) :
    Below (g.createEnum want ti e) (g.createEnum want' ti e) :=
  .bind (below_declaration hw _ _) fun _ => .bind_left (hw _) _

theorem below_create (hw : ∀ p, Below (want p) (want' p)) :
    Below (g.create want ti) (g.create want' ti) := by
  rw [create, create]
  split
  · exact below_createSimple hw
  · refine .bind_right _ fun record => .bind_right _ fun type => ?_
    cases type with
    | modifier m => exact .bind_left (hw _) _
    | pointer p => exact below_createPointer hw p
    | class_ r =>
      refine .bind_right _ fun size => .bind_right _ fun inheritance => ?_
      exact below_createRecord hw _ _ _ _ _
    | union r => exact .bind_right _ fun size => below_createRecord hw _ _ _ _ _
    | enum e => exact below_createEnum hw e
    | array a => exact .bind_left (hw _) _
    | procedure r => exact below_createFunction hw _ _ _
    | memberFunction r => exact below_createFunction hw _ _ _
    | _ => exact .refl _

omit [TypeSystem σ] in
theorem below_guarded {α : Type} {c c' : Creation σ α} (h : Below c c') :
    Below (guarded ti c) (guarded ti c') := by
  have hrun : Below (do
      update fun s => { s with underway := ti :: s.underway }
      let result ← attempt c
      update fun s => { s with underway := s.underway.erase ti }
      ofOption result) (do
      update fun s => { s with underway := ti :: s.underway }
      let result ← attempt c'
      update fun s => { s with underway := s.underway.erase ti }
      ofOption result) :=
    .bind_right _ fun _ => .bind_left (.attempt h) _
  refine .bind_right _ fun inside => ?_
  dsimp only
  split
  · exact .bind_right _ fun _ => hrun
  · exact hrun

theorem below_createAndStore (hw : ∀ p, Below (want p) (want' p)) :
    Below (g.createAndStore want ti) (g.createAndStore want' ti) := by
  rw [createAndStore, createAndStore]
  dsimp only
  split
  · exact .bind_left (below_create hw) _
  · refine .bind_right _ fun id? => ?_
    cases id? with
    | some id => exact .refl _
    | none => exact .bind_left (below_guarded (below_create hw)) _

theorem below_getFueled_succ (n : Nat) (ti : TypeIndex) :
    Below (g.getFueled n ti : Creation σ TypeId) (g.getFueled (n + 1) ti) := by
  induction n generalizing ti with
  | zero => exact fun _ _ h => nomatch h
  | succ n ih =>
    rw [getFueled, getFueled]
    refine .bind_right _ fun id? => ?_
    cases id? with
    | some id => exact .refl _
    | none =>
      have hget : Below (guarded ti (g.createAndStore (fun t => do object (← g.getFueled n t)) ti))
          (guarded ti (g.createAndStore (fun t => do object (← g.getFueled (n + 1) t)) ti)
            : Creation σ TypeId) :=
        below_guarded (below_createAndStore fun p => .bind_left (ih p) _)
      dsimp only
      split
      · exact .bind_right _ fun _ => hget
      · exact hget

/-- More fuel leaves a result as it is. -/
theorem below_getFueled {n m : Nat} (h : n ≤ m) (ti : TypeIndex) :
    Below (g.getFueled n ti : Creation σ TypeId) (g.getFueled m ti) := by
  induction h with
  | refl => exact .refl _
  | step _ ih => exact ih.trans (below_getFueled_succ _ ti)

end TypeGraph
end Pdb
