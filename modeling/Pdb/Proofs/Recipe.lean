import Mathlib.Data.List.Forall2
import Mathlib.Data.Option.Basic
import Mathlib.Logic.Relation
import Pdb.TypeStore.Creation

/-! # What a type is made from

`recipe?` are the types that the type of a record is made from, and how its size comes from theirs.
A record has a type if following the recipes comes to an end: `HasSize`. This depends neither on
what has been made already nor on the order in which it was made. Contexts are not parts: where the
tag type around a nested record cannot be made, the nested one is declared outside.
-/

namespace Pdb

/-- What a type is made from. -/
structure Recipe where
  parts : List TypeIndex
  /-- The built-in type that it is. -/
  basic? : Option BasicType := none
  /-- Its size by the sizes of the parts. -/
  size? : List Nat → Option Nat

/-- Pointers to built-in types are made from these, which are made from nothing. -/
def TypeIndex.recipe? (ti : TypeIndex) : Option Recipe :=
  ti.simpleType?.map fun
    | .nullPtr => { parts := [], basic? := some .nullPtr, size? := fun _ => some 0 }
    | .pointer pointee size => { parts := [pointee], size? := fun _ => some size }
    | .basic type size _ => { parts := [], basic? := some type, size? := fun _ => some size }

/-- The length of an array has to be a multiple of that of its element. -/
def ArrayRecord.sizeFrom? (a : ArrayRecord) (element : Nat) : Option Nat :=
  a.length.size?.filter fun size => element ≠ 0 ∧ size % element = 0

namespace TypeStream
variable {s : TypeStream} {ti : TypeIndex} {leaf : Leaf} {f : TypeRecord}

theorem definition_of_defines {c : TypeIndex} (h : s.defines leaf f c) : s.definition c = c := by
  have hf : s.forwardRef? c = none := by
    rw [forwardRef?]
    rw [defines] at h
    cases hr : s.record c with
    | error e => rfl
    | ok r =>
      cases ht : r.type? with
      | none => simp [ht, Except.toOption]
      | some t =>
        have hfull : t.isForwardRef = false := by simp_all
        simp [ht, hfull, Except.toOption, failure]
  rw [definition, hf]

/-- The definition of a forward reference is no forward reference. -/
theorem definition_definition (s : TypeStream) (ti : TypeIndex) :
    s.definition (s.definition ti) = s.definition ti := by
  rcases hf : s.forwardRef? ti with _ | ⟨leaf, f, name⟩
  · have h : s.definition ti = ti := by rw [definition, hf]
    rw [h, h]
  · have h : s.definition ti
        = ((s.find name).find? fun c => c ≠ ti && s.defines leaf f c).getD ti := by
      rw [definition, hf]
    cases hc : (s.find name).find? fun c => c ≠ ti && s.defines leaf f c with
    | none => rw [h, hc, Option.getD_none, h, hc, Option.getD_none]
    | some c =>
      have hdef := List.find?_some hc
      rw [Bool.and_eq_true] at hdef
      rw [h, hc, Option.getD_some, definition_of_defines hdef.2]

theorem isSome_forwardRef? (h : s.definition ti ≠ ti) : (s.forwardRef? ti).isSome := by
  cases hf : s.forwardRef? ti with
  | none => exact absurd (by rw [definition, hf]) h
  | some f => rfl

end TypeStream

namespace TypeGraph
variable {g : TypeGraph} {P P' : BasicType → Prop} {ti p : TypeIndex} {n k : Nat} {r : Recipe}
  {under : List TypeIndex}

theorem target_target (g : TypeGraph) (ti : TypeIndex) : g.target (g.target ti) = g.target ti := by
  by_cases h : ti.isSimple
  · have ht : g.target ti = ti := if_pos h
    rw [ht, ht]
  · rw [show g.target ti = g.stream.definition ti from if_neg h, target,
      TypeStream.definition_definition, ite_self]

def functionRecipe? (g : TypeGraph) (result args : TypeIndex) (call : UInt8) : Option Recipe :=
  match g.stream.type? args with
  | some (.argList args) => some {
      parts := (parameters args).1 ++ [result]
      size? := fun _ => (CallingConvention.ofCode? call).map fun _ => 0 }
  | _ => none

def recordRecipe? (g : TypeGraph) : TypeRecord → Option Recipe
  | .modifier m => some { parts := [m.modified], size? := List.head? }
  | .pointer p => p.containingClass?.map fun class_? =>
    { parts := p.pointee :: class_?.toList, size? := fun _ => some p.size }
  | .class_ r => some { parts := [], size? := fun _ => r.length.size? }
  | .union r => some { parts := [], size? := fun _ => r.length.size? }
  | .enum r => some { parts := [r.underlying], size? := List.head? }
  | .array a => some { parts := [a.element], size? := fun sizes => sizes.head?.bind a.sizeFrom? }
  | .procedure r => g.functionRecipe? r.result r.args r.call
  | .memberFunction r => g.functionRecipe? r.result r.args r.call
  | _ => none

/-- What a type is made from if it is made from its own record. -/
def ownRecipe? (g : TypeGraph) (ti : TypeIndex) : Option Recipe :=
  if ti.isSimple then ti.recipe?
  else (g.stream.record ti).toOption.bind fun record => record.type?.bind g.recordRecipe?

/-- What a type is made from. That of a forward reference is that of its definition. -/
def recipe? (g : TypeGraph) (ti : TypeIndex) : Option Recipe :=
  if g.target ti = ti then g.ownRecipe? ti
  else some { parts := [g.target ti], size? := List.head? }

/-- A type can be made, and then has a size, if the type system has the built-in types in `P`. -/
inductive HasSize (g : TypeGraph) (P : BasicType → Prop) : TypeIndex → Nat → Prop
  | mk {ti : TypeIndex} {r : Recipe} {n : Nat} (size : TypeIndex → Nat) :
    g.recipe? ti = some r → (∀ b, r.basic? = some b → P b) →
    (∀ p ∈ r.parts, HasSize g P p (size p)) → r.size? (r.parts.map size) = some n →
    HasSize g P ti n

/-- A recipe can be followed. -/
def Yields (g : TypeGraph) (P : BasicType → Prop) (r : Recipe) (n : Nat) : Prop :=
  (∀ b, r.basic? = some b → P b) ∧ ∃ ns, List.Forall₂ (g.HasSize P) r.parts ns ∧ r.size? ns = some n

theorem HasSize.mono (h : g.HasSize P ti n) (hP : ∀ b, P b → P' b) : g.HasSize P' ti n := by
  induction h with
  | mk size hr hb _ hn ih => exact .mk size hr (fun b h => hP b (hb b h)) ih hn

/-- The size does not depend on the type system. -/
theorem HasSize.unique (h : g.HasSize P ti n) (h' : g.HasSize P' ti k) : n = k := by
  induction h generalizing k with
  | @mk ti r n size hr _ _ hn ih =>
    obtain ⟨size', hr', _, hparts, hk⟩ := h'
    obtain rfl := Option.some.inj (hr.symm.trans hr')
    have hsize : r.parts.map size = r.parts.map size' :=
      List.map_congr_left fun p hp => ih p hp (hparts p hp)
    exact Option.some.inj (hn.symm.trans (hsize ▸ hk))

theorem exists_size {ps : List TypeIndex} {ns : List Nat} (h : List.Forall₂ (g.HasSize P) ps ns) :
    ∃ size : TypeIndex → Nat, (∀ p ∈ ps, g.HasSize P p (size p)) ∧ ps.map size = ns := by
  classical
  let size (p : TypeIndex) : Nat := if h : ∃ n, g.HasSize P p n then h.choose else 0
  have hsize {p : TypeIndex} {n : Nat} (h : g.HasSize P p n) : size p = n := by
    have hex : ∃ n, g.HasSize P p n := ⟨n, h⟩
    rw [show size p = hex.choose from dif_pos hex]
    exact hex.choose_spec.unique h
  refine ⟨size, ?_⟩
  induction h with
  | nil => exact ⟨(fun _ hp => nomatch hp), rfl⟩
  | cons h _ ih =>
    refine ⟨List.forall_mem_cons.2 ⟨?_, ih.1⟩, by rw [List.map_cons, hsize h, ih.2]⟩
    rwa [hsize h]

theorem hasSize_iff : g.HasSize P ti n ↔ ∃ r, g.recipe? ti = some r ∧ g.Yields P r n := by
  constructor
  · rintro ⟨size, hr, hb, hparts, hn⟩
    exact ⟨_, hr, hb, _, List.forall₂_map_right_iff.2 (List.forall₂_same.2 hparts), hn⟩
  · rintro ⟨r, hr, hb, ns, hparts, hn⟩
    obtain ⟨size, hsize, rfl⟩ := exists_size hparts
    exact .mk size hr hb hsize hn

theorem recipe?_of_target_eq (h : g.target ti = ti) : g.recipe? ti = g.ownRecipe? ti := if_pos h

theorem hasSize_iff_of_target_eq (h : g.target ti = ti) :
    g.HasSize P ti n ↔ ∃ r, g.ownRecipe? ti = some r ∧ g.Yields P r n := by
  rw [hasSize_iff, recipe?_of_target_eq h]

/-- A forward reference has the size of its definition. -/
theorem hasSize_target : g.HasSize P (g.target ti) n ↔ g.HasSize P ti n := by
  by_cases h : g.target ti = ti
  · rw [h]
  · rw [show g.HasSize P ti n ↔ _ from hasSize_iff, recipe?, if_neg h]
    constructor
    · exact fun hn => ⟨_, rfl, nofun, [n], .cons hn .nil, rfl⟩
    · rintro ⟨_, ⟨⟩, _, ns, hparts, hn⟩
      obtain ⟨k, _, hk, hnil, rfl⟩ := List.forall₂_cons_left_iff.1 hparts
      cases hnil
      exact Option.some.inj hn ▸ hk

/-! ### Circles -/

/-- One type is a part of another. -/
def Needs (g : TypeGraph) (ti p : TypeIndex) : Prop := ∃ r, g.recipe? ti = some r ∧ p ∈ r.parts

/-- Nothing that is under way is needed for a type. -/
def Clear (g : TypeGraph) (under : List TypeIndex) (ti : TypeIndex) : Prop :=
  ∀ u ∈ under, ¬ Relation.ReflTransGen g.Needs ti u

/-- A type that has a size is no part of a part of itself. -/
theorem HasSize.not_circular (h : g.HasSize P ti n) : ¬ Relation.TransGen g.Needs ti ti := by
  induction h with
  | @mk ti r n size hr _ _ _ ih =>
    intro hcircle
    obtain ⟨p, ⟨r', hr', hp⟩, hback⟩ := Relation.TransGen.head'_iff.1 hcircle
    obtain rfl := Option.some.inj (hr.symm.trans hr')
    exact ih p hp (.tail' hback ⟨r, hr, hp⟩)

theorem clear_nil : g.Clear [] ti := fun _ h => nomatch h

theorem Clear.not_mem (h : g.Clear under ti) : ti ∉ under := fun hti => h ti hti .refl

/-- What is clear stays so for its parts while it is under way itself. -/
theorem Clear.part (h : g.Clear under ti) (hn : g.HasSize P ti n) (hp : g.Needs ti p) :
    g.Clear (ti :: under) p := by
  intro u hu hpu
  rcases List.mem_cons.1 hu with rfl | hu
  · exact hn.not_circular (Relation.TransGen.head'_iff.2 ⟨p, hp, hpu⟩)
  · exact h u hu (hpu.head hp)

theorem needs_target (h : g.target ti ≠ ti) : g.Needs ti (g.target ti) :=
  ⟨_, if_neg h, List.mem_singleton_self _⟩

end TypeGraph
end Pdb
