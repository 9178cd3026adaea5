import Pdb.Proofs.AddedMembers
import Pdb.Proofs.Placement

/-! # Definitions of tag types

What completing a tag type needs to know of its record is what the record says (`members_of_shape?`), and
there is nothing to know of a record that is no definition. A definition has the size that follows from
its own recipe.
-/

namespace Pdb

/-- The size and the signedness of the enumerators of a record. Only an enumeration has any. -/
def TypeRecord.enumerators? (s : TypeStream) : TypeRecord → Option (Nat × Bool)
  | .enum r => some ((s.integral? r.underlying).getD (4, true))
  | _ => none

/-- Members are private if nothing else is stated in a class, and public in all other records. -/
def TypeStream.defaultAccess (s : TypeStream) (ti : TypeIndex) : Visibility :=
  if s.leaf? ti = some .class_ then .private_ else .public_

theorem RawRecord.exists_class {record : RawRecord} {r : TypeRecord} (h : record.type? = some r)
    (hleaf : record.leaf = .class_) : ∃ c, r = .class_ c := by
  rw [type?, hleaf, TypeRecord.parse?] at h
  obtain ⟨⟨_, rest⟩, hdecode, rfl⟩ := Option.map_eq_some_iff.1 h
  obtain ⟨⟨c, _⟩, _, heq⟩ := Option.bind_eq_some_iff.1 hdecode
  cases heq
  exact ⟨c, rfl⟩

theorem RecordKind.defaultAccess_ofLeaf (l : Leaf) :
    (ofLeaf l).defaultAccess = if l = .class_ then .private_ else .public_ := by
  unfold ofLeaf
  split
  · rfl
  · rfl
  · next hclass _ =>
    rw [if_neg hclass]
    rfl

/-! ### Completing a definition -/

def TypeRecord.class? : TypeRecord → Option ClassRecord
  | .class_ c => some c
  | _ => none

namespace TypeStream
variable {s : TypeStream} {ti list : TypeIndex} {n : Nat}

/-- There is a class at an index, no reference to one, with a list of members and a length. -/
def DefinesClass (s : TypeStream) (ti list : TypeIndex) (n : Nat) : Prop :=
  ∃ c ∈ (s.type? ti).bind TypeRecord.class?, (TypeRecord.class_ c).isForwardRef = false
    ∧ c.fieldList = list ∧ c.length.size? = some n

instance : Decidable (s.DefinesClass ti list n) :=
  inferInstanceAs (Decidable (∃ c ∈ (s.type? ti).bind TypeRecord.class?, _))

theorem isSimple_of_type? {r : TypeRecord} (h : s.type? ti = some r) : ti.isSimple = false := by
  by_contra hsimple
  cases h.symm.trans (type?_of_isSimple (Bool.not_eq_false _ ▸ hsimple))

theorem DefinesClass.exists_class (h : s.DefinesClass ti list n) : ∃ c,
    s.type? ti = some (.class_ c) ∧ (TypeRecord.class_ c).isForwardRef = false
      ∧ c.fieldList = list ∧ c.length.size? = some n := by
  obtain ⟨c, hc, hrest⟩ := h
  obtain ⟨r, hr, hc⟩ := Option.bind_eq_some_iff.1 (Option.mem_def.1 hc)
  cases r with
  | class_ c' =>
    obtain rfl := Option.some.inj hc
    exact ⟨_, hr, hrest⟩
  | _ => cases hc

end TypeStream

namespace TypeGraph
open Creation TypeStore TypeSystem
variable {g : TypeGraph} {P : BasicType → Prop} {ti list : TypeIndex} {handle : TypeHandle}
  {t : TagShape} {r : TypeRecord}

/-- What a shape says of members is what the record says. -/
theorem members_of_shape? (h : g.shape? ti handle = some t) :
    t.defaultAccess = g.stream.defaultAccess ti ∧ ∃ r, g.stream.type? ti = some r
      ∧ r.isForwardRef = false ∧ r.fieldList? = some t.fieldList
      ∧ t.integers? = r.enumerators? g.stream ∧ t.uniqueName? = r.uniqueName? := by
  obtain ⟨record, r, hrecord, hr, ht, hforward⟩ := exists_record_of_shape? h
  have haccess : g.stream.defaultAccess ti
      = if record.leaf = .class_ then .private_ else .public_ := by
    rw [TypeStream.defaultAccess, TypeStream.leaf?, hrecord, Option.map_some]
    simp only [Option.some.injEq]
  have hpublic (hclass : ∀ c, r ≠ .class_ c) : g.stream.defaultAccess ti = .public_ := by
    rw [haccess, if_neg]
    intro hleaf
    obtain ⟨c, hc⟩ := RawRecord.exists_class hr hleaf
    exact hclass c hc
  simp only [shape?, Option.bind_eq_bind, hrecord, hr, hforward, Option.bind_some,
    Bool.false_eq_true, if_false] at h
  cases r with
  | class_ c =>
    obtain rfl := Option.some.inj h
    exact ⟨haccess ▸ RecordKind.defaultAccess_ofLeaf _, _, ht, hforward, rfl, rfl, rfl⟩
  | union u =>
    obtain rfl := Option.some.inj h
    exact ⟨(hpublic (by simp)).symm, _, ht, hforward, rfl, rfl, rfl⟩
  | enum e =>
    obtain rfl := Option.some.inj h
    exact ⟨(hpublic (by simp)).symm, _, ht, hforward, rfl, rfl, rfl⟩
  | _ => cases h

theorem exists_shape? (hr : g.stream.type? ti = some r) (hforward : r.isForwardRef = false)
    (hlist : r.fieldList? = some list) (handle : TypeHandle) :
    ∃ t, g.shape? ti handle = some t ∧ t.fieldList = list := by
  rw [TypeStream.type?_eq] at hr
  obtain ⟨record, hrecord, hr⟩ := Option.bind_eq_some_iff.1 hr
  simp only [shape?, Option.bind_eq_bind, hrecord, hr, hforward, Option.bind_some,
    Bool.false_eq_true, if_false]
  cases r with
  | class_ c => exact ⟨_, rfl, Option.some.inj hlist⟩
  | union u => exact ⟨_, rfl, Option.some.inj hlist⟩
  | enum e => exact ⟨_, rfl, Option.some.inj hlist⟩
  | _ => cases hlist

/-- A definition has members if its list is there, or it has none. -/
theorem hasMembers_iff : g.hasMembers t ↔ t.fieldList = .none
    ∨ g.stream.leaf? t.fieldList = some .fieldList := by
  simp [hasMembers]

theorem recipe?_of_type? (hr : g.stream.type? ti = some r) (hforward : r.isForwardRef = false) :
    g.recipe? ti = g.recordRecipe? r := by
  have htarget : g.target ti = ti := by
    rw [target_eq_definition, TypeStream.definition_of_type? hr hforward]
  rw [recipe?_of_target_eq htarget, ownRecipe?, TypeStream.isSimple_of_type? hr,
    if_neg Bool.false_ne_true, ← Option.bind_assoc, ← TypeStream.type?_eq, hr, Option.bind_some]

/-- A record that is no forward reference has the size that follows from its own recipe. -/
theorem hasSize_iff_of_type? {n : Nat} (hr : g.stream.type? ti = some r)
    (hforward : r.isForwardRef = false) :
    g.HasSize P ti n ↔ ∃ recipe, g.recordRecipe? r = some recipe ∧ g.Yields P recipe n := by
  rw [hasSize_iff, recipe?_of_type? hr hforward]

theorem hasSize_basic {b : BasicType} {n : Nat} {spelling : String} (hsimple : ti.isSimple)
    (hti : ti.simpleType? = some (.basic b n spelling)) (hP : P b) : g.HasSize P ti n := by
  have htarget : g.target ti = ti := if_pos hsimple
  have hrecipe : g.ownRecipe? ti = some { parts := [], basic? := some b, size? := fun _ => some n } := by
    rw [ownRecipe?, if_pos hsimple, TypeIndex.recipe?, hti, Option.map_some]
  refine (hasSize_iff_of_target_eq htarget).2 ⟨_, hrecipe, fun b' hb => ?_, [], .nil, rfl⟩
  obtain rfl := Option.some.inj hb
  exact hP

theorem hasSize_class {n : Nat} (h : g.stream.DefinesClass ti list n) : g.HasSize P ti n := by
  obtain ⟨c, hr, hforward, _, hn⟩ := h.exists_class
  exact (hasSize_iff_of_type? hr hforward).2 ⟨_, rfl, nofun, [], .nil, hn⟩

/-- An enumeration has the size of its integers. -/
theorem hasSize_enum {n : Nat} {e : EnumRecord} (he : g.stream.type? ti = some (.enum e))
    (hforward : (TypeRecord.enum e).isForwardRef = false) (hn : g.HasSize P e.underlying n) :
    g.HasSize P ti n :=
  (hasSize_iff_of_type? he hforward).2 ⟨_, rfl, nofun, [n], .cons hn .nil, rfl⟩

theorem not_hasSize_of_type? {n : Nat} (hsimple : ti.isSimple = false)
    (h : g.stream.type? ti = none) : ¬ g.HasSize P ti n := by
  rw [TypeStream.type?_eq] at h
  have hreference : g.stream.forwardRef? ti = none := by
    rw [TypeStream.forwardRef?]
    rcases hrecord : g.stream.record ti with _ | record
    · rfl
    · simp_all [Except.toOption]
  have htarget : g.target ti = ti := by
    rw [target_eq_definition, TypeStream.definition, hreference]
  have hrecipe : g.ownRecipe? ti = none := by
    rw [ownRecipe?, hsimple, if_neg Bool.false_ne_true, ← Option.bind_assoc, h, Option.bind_none]
  rw [hasSize_iff_of_target_eq htarget, hrecipe]
  rintro ⟨_, ⟨⟩, _⟩

end TypeGraph
end Pdb
