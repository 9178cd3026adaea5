import Pdb.TypeSystem.Model

/-! # Type systems that declare tag types afresh

Little has to be known of a type system: a declaration is a new one each time, and it stays the
declaration of its type. `FreshTags` says so, for a type system of which it is known what it has
declared. `TypeModel` is one.
-/

namespace Pdb

/-- A state of a type system comes from the state `origin`. -/
inductive TypeSystem.Follows {σ : Type} [TypeSystem σ] (origin : σ) : σ → Prop
  | refl : Follows origin origin
  | namespaceIn {s : σ} (name : String) (c : DeclContext) :
    Follows origin s → Follows origin (TypeSystem.namespaceIn s name c).2
  | basic? {s : σ} (b : BasicType) : Follows origin s → Follows origin (TypeSystem.basic? s b).2
  | derive {s : σ} (t : DerivedType) : Follows origin s → Follows origin (TypeSystem.derive s t).2
  | declare {s : σ} (d : Declaration) : Follows origin s → Follows origin (TypeSystem.declare s d).2
  | change {s : σ} (type : TypeHandle) (c : TagChange) :
    Follows origin s → Follows origin (TypeSystem.change s type c)

theorem TypeSystem.Follows.trans {σ : Type} [TypeSystem σ] {a b c : σ} (h : Follows a b)
    (h' : Follows b c) : Follows a c := by
  induction h' with
  | refl => exact h
  | namespaceIn name context _ ih => exact ih.namespaceIn name context
  | basic? b _ ih => exact ih.basic? b
  | derive t _ ih => exact ih.derive t
  | declare d _ ih => exact ih.declare d
  | change type c _ ih => exact ih.change type c

/-- A type system that declares each tag type afresh. -/
class FreshTags (σ : Type) [TypeSystem σ] where
  /-- What has been declared. -/
  Declared : σ → TagDecl → Prop
  namespaceIn_declared (s : σ) (name : String) (c : DeclContext) (tag : TagDecl) :
    Declared (TypeSystem.namespaceIn s name c).2 tag ↔ Declared s tag
  namespaceIn_tagOf? (s : σ) (name : String) (c : DeclContext) {h : TypeHandle} {tag : TagDecl} :
    TypeSystem.tagOf? s h = some tag →
      TypeSystem.tagOf? (TypeSystem.namespaceIn s name c).2 h = some tag
  basic_declared (s : σ) (b : BasicType) (tag : TagDecl) :
    Declared (TypeSystem.basic? s b).2 tag ↔ Declared s tag
  basic_tagOf? (s : σ) (b : BasicType) {h : TypeHandle} {tag : TagDecl} :
    TypeSystem.tagOf? s h = some tag → TypeSystem.tagOf? (TypeSystem.basic? s b).2 h = some tag
  derive_declared (s : σ) (t : DerivedType) (tag : TagDecl) :
    Declared (TypeSystem.derive s t).2 tag ↔ Declared s tag
  derive_tagOf? (s : σ) (t : DerivedType) {h : TypeHandle} {tag : TagDecl} :
    TypeSystem.tagOf? s h = some tag → TypeSystem.tagOf? (TypeSystem.derive s t).2 h = some tag
  change_declared (s : σ) (type : TypeHandle) (c : TagChange) (tag : TagDecl) :
    Declared (TypeSystem.change s type c) tag ↔ Declared s tag
  change_tagOf? (s : σ) (type : TypeHandle) (c : TagChange) {h : TypeHandle} {tag : TagDecl} :
    TypeSystem.tagOf? s h = some tag → TypeSystem.tagOf? (TypeSystem.change s type c) h = some tag
  declare_fresh (s : σ) (d : Declaration) : ∃ new, ¬ Declared s new
    ∧ TypeSystem.tagOf? (TypeSystem.declare s d).2 (TypeSystem.declare s d).1 = some new
    ∧ ∀ tag, Declared (TypeSystem.declare s d).2 tag ↔ tag = new ∨ Declared s tag
  declare_tagOf? (s : σ) (d : Declaration) {h : TypeHandle} {tag : TagDecl} :
    TypeSystem.tagOf? s h = some tag → TypeSystem.tagOf? (TypeSystem.declare s d).2 h = some tag

namespace FreshTags
variable {σ : Type} [TypeSystem σ] [FreshTags σ]

/-- From one state to another nothing has been declared, and what has a declaration keeps it. -/
structure Quiet (a b : σ) : Prop where
  follows : TypeSystem.Follows a b
  declared : ∀ tag, Declared b tag ↔ Declared a tag
  tagOf? : ∀ h tag, TypeSystem.tagOf? a h = some tag → TypeSystem.tagOf? b h = some tag

theorem quiet_namespaceIn (s : σ) (name : String) (c : DeclContext) :
    Quiet s (TypeSystem.namespaceIn s name c).2 :=
  ⟨.namespaceIn name c .refl, namespaceIn_declared s name c, fun _ _ => namespaceIn_tagOf? s name c⟩

theorem quiet_basic? (s : σ) (b : BasicType) : Quiet s (TypeSystem.basic? s b).2 :=
  ⟨.basic? b .refl, basic_declared s b, fun _ _ => basic_tagOf? s b⟩

theorem quiet_derive (s : σ) (t : DerivedType) : Quiet s (TypeSystem.derive s t).2 :=
  ⟨.derive t .refl, derive_declared s t, fun _ _ => derive_tagOf? s t⟩

theorem quiet_change (s : σ) (type : TypeHandle) (c : TagChange) :
    Quiet s (TypeSystem.change s type c) :=
  ⟨.change type c .refl, change_declared s type c, fun _ _ => change_tagOf? s type c⟩

/-- A type has the same declaration later on. -/
theorem tagOf?_of_follows {a b : σ} {h : TypeHandle} {tag : TagDecl}
    (hab : TypeSystem.Follows a b) (ht : TypeSystem.tagOf? a h = some tag) :
    TypeSystem.tagOf? b h = some tag := by
  induction hab with
  | refl => exact ht
  | namespaceIn name c _ ih => exact namespaceIn_tagOf? _ name c ih
  | basic? b _ ih => exact basic_tagOf? _ b ih
  | derive t _ ih => exact derive_tagOf? _ t ih
  | declare d _ ih => exact declare_tagOf? _ d ih
  | change type c _ ih => exact change_tagOf? _ type c ih

end FreshTags

namespace TypeModel
variable {m m' : TypeModel} {depth : Nat} {h : TypeHandle} {tag : TagDecl}

/-- Types are only ever added. -/
def Extends (m m' : TypeModel) : Prop :=
  ∀ (i : Nat) (t : ModelType), m.types[i]? = some t → m'.types[i]? = some t

theorem Extends.tagOf? (he : m.Extends m') (ht : m.tagOf? h = some tag) :
    m'.tagOf? h = some tag := by
  rw [TypeModel.tagOf?] at ht ⊢
  generalize h + 1 = depth at ht
  induction depth generalizing h with
  | zero => exact ht
  | succ depth ih =>
    rw [tagAt?] at ht ⊢
    cases hm : m.types[h]? with
    | none => rw [hm] at ht; exact nomatch ht
    | some t =>
      rw [hm] at ht
      rw [he h t hm]
      match t, ht with
      | .tag d, ht => exact ht
      | .derived (.qualified inner q), ht => exact ih ht

theorem Extends.of_types_eq (h : m'.types = m.types) : m.Extends m' :=
  fun _ _ ht => h ▸ ht

theorem extends_add (m : TypeModel) (t : ModelType) : m.Extends (m.add t).2 := by
  intro i t' ht
  obtain ⟨hi, rfl⟩ := Array.getElem?_eq_some_iff.1 ht
  show (m.types.push t)[i]? = some m.types[i]
  rw [Array.getElem?_push_lt hi]

theorem types_namespaceIn (m : TypeModel) (name : String) (c : DeclContext) :
    (m.namespaceIn name c).2.types = m.types := by
  rw [namespaceIn]
  split <;> rfl

theorem tags_namespaceIn (m : TypeModel) (name : String) (c : DeclContext) :
    (m.namespaceIn name c).2.tags = m.tags := by
  rw [namespaceIn]
  split <;> rfl

theorem types_change (m : TypeModel) (type : TypeHandle) (c : TagChange) :
    (m.change type c).types = m.types := by
  rw [change]
  split <;> rfl

theorem size_tags_change (m : TypeModel) (type : TypeHandle) (c : TagChange) :
    (m.change type c).tags.size = m.tags.size := by
  rw [change]
  split <;> simp

theorem tagOf?_declare (m : TypeModel) (d : Declaration) :
    (m.declare d).2.tagOf? (m.declare d).1 = some m.tags.size := by
  show (m.declare d).2.tagOf? m.types.size = some m.tags.size
  simp [TypeModel.tagOf?, tagAt?, declare, add]

instance : FreshTags TypeModel where
  Declared m tag := tag < m.tags.size
  namespaceIn_declared m name c tag := by
    show tag < (m.namespaceIn name c).2.tags.size ↔ _
    rw [tags_namespaceIn]
  namespaceIn_tagOf? m name c := Extends.tagOf? (.of_types_eq (types_namespaceIn m name c))
  basic_declared _ _ _ := Iff.rfl
  basic_tagOf? m b := Extends.tagOf? (extends_add m _)
  derive_declared _ _ _ := Iff.rfl
  derive_tagOf? m t := Extends.tagOf? (extends_add m _)
  change_declared m type c tag := by
    show tag < (m.change type c).tags.size ↔ _
    rw [size_tags_change]
  change_tagOf? m type c := Extends.tagOf? (.of_types_eq (types_change m type c))
  declare_fresh m d := by
    refine ⟨m.tags.size, Nat.lt_irrefl _, tagOf?_declare m d, fun tag => ?_⟩
    show tag < (m.tags.push _).size ↔ tag = m.tags.size ∨ tag < m.tags.size
    rw [Array.size_push]
    exact Nat.lt_succ_iff_lt_or_eq.trans or_comm
  declare_tagOf? m d := Extends.tagOf? (extends_add { m with tags := m.tags.push { decl := d } } _)

end TypeModel
end Pdb
