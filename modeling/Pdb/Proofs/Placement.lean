import Mathlib.Logic.Relation
import Pdb.Proofs.Reach

/-! # Where a tag type is declared

The record around a nested one cannot be under way for the sake of the nested one: from a tag type
one comes only to tag types with shorter unique names, and to built-in types (`reaches_of_isTag`).
So whether the tag type around it can be made when a tag type is declared does not depend on what is
asked for, and neither do its name and the names of what it is declared in: `Placed`.
-/

namespace Pdb

namespace TypeStream

/-- The underlying types of enumerations are built-in ones. -/
def EnumsSimple (s : TypeStream) : Prop :=
  ∀ ti e, s.type? ti = some (.enum e) → e.underlying.isSimple

theorem enumsSimple_iff {s : TypeStream} : s.EnumsSimple ↔ ∀ ti ∈ s.indexes,
    (s.type? ti).all fun | .enum e => e.underlying.isSimple | _ => true := by
  constructor
  · intro h ti _
    rw [Option.all_eq_true]
    intro t ht
    cases t with
    | enum e => exact h ti e ht
    | _ => rfl
  · intro h ti e ht
    obtain ⟨record, hrecord, _⟩ := Option.bind_eq_some_iff.1 (s.type?_eq ti ▸ ht)
    have hti := h ti (mem_indexes hrecord)
    rwa [ht] at hti

instance (s : TypeStream) : Decidable s.EnumsSimple := decidable_of_iff _ enumsSimple_iff.symm

/-- A record that is no forward reference is its own definition. -/
theorem definition_of_type? {s : TypeStream} {ti : TypeIndex} {t : TypeRecord}
    (ht : s.type? ti = some t) (h : t.isForwardRef = false) : s.definition ti = ti := by
  rw [definition]
  rcases hf : s.forwardRef? ti with _ | ⟨leaf, f, name⟩
  · rfl
  · rw [type?_eq, Option.bind_eq_some_iff] at ht
    obtain ⟨record, hrecord, htype⟩ := ht
    simp [forwardRef?, hrecord, htype, h, failure] at hf

end TypeStream

namespace TypeGraph
open Nesting
variable {g : TypeGraph} {ti p : TypeIndex} {under : List TypeIndex}

/-! ### No tag type leads back to itself -/

/-- There is a tag type that is made from the record at `ti`. -/
structure IsTag (g : TypeGraph) (ti : TypeIndex) : Prop where
  target : g.target ti = ti
  record : ∃ r, g.stream.type? ti = some r ∧ r.isTag

theorem IsTag.not_isSimple (h : g.IsTag ti) : ti.isSimple = false := by
  obtain ⟨r, hr, _⟩ := h.record
  exact (exists_record_of_type? hr).1

theorem isTag_of_parent (h : g.nesting.find? ti = some p) : g.IsTag p := by
  obtain ⟨_, l, _⟩ := TypeStream.nestedIn_of_nesting? g.nesting_eq h
  refine ⟨?_, l.outer, l.outer_eq, l.outer_isTag⟩
  rw [target_eq_definition]
  exact TypeStream.definition_of_type? l.outer_eq l.outer_isDefinition

theorem refers_of_isSimple (h : ti.isSimple) (hp : g.Refers ti p) : p.isSimple := by
  have htype : g.stream.type? ti = none := TypeStream.type?_of_isSimple h
  cases hp with
  | definition htarget => exact absurd (if_pos h) htarget
  | pointee _ hp => exact (simpleType?_pointer hp).2.1
  | reference ht _ => exact nomatch htype.symm.trans ht
  | parent hp =>
    obtain ⟨t, ht⟩ := exists_type?_of_parent hp
    exact nomatch htype.symm.trans ht

theorem refers_of_isTag (henums : g.stream.EnumsSimple) (h : g.IsTag ti) (hp : g.Refers ti p) :
    p.isSimple ∨ g.IsTag p ∧ nameLength g.stream p < nameLength g.stream ti := by
  obtain ⟨r, hr, htag⟩ := h.record
  cases hp with
  | definition htarget => exact absurd h.target htarget
  | pointee hsimple _ => exact absurd hsimple (Bool.eq_false_iff.1 h.not_isSimple)
  | reference ht hp =>
    obtain rfl := Option.some.inj (hr.symm.trans ht)
    cases r with
    | enum e =>
      obtain rfl := List.mem_singleton.1 hp
      exact .inl (henums ti e hr)
    | class_ r => exact nomatch hp
    | union r => exact nomatch hp
    | _ => exact absurd htag Bool.false_ne_true
  | parent hp => exact .inr ⟨isTag_of_parent hp, nameLength_lt g.nesting_eq hp⟩

/-- By induction on the way: unique names get shorter, and from built-in types there is no way back.
-/
theorem reaches_of_isTag (henums : g.stream.EnumsSimple) (h : g.IsTag ti)
    (hp : Relation.TransGen g.Refers ti p) :
    p.isSimple ∨ g.IsTag p ∧ nameLength g.stream p < nameLength g.stream ti := by
  induction hp with
  | single hp => exact refers_of_isTag henums h hp
  | tail _ hp ih =>
    rcases ih with hsimple | ⟨htag, hlt⟩
    · exact .inl (refers_of_isSimple hsimple hp)
    · exact (refers_of_isTag henums htag hp).imp_right fun ⟨htag', hlt'⟩ => ⟨htag', hlt'.trans hlt⟩

theorem IsTag.not_circular (henums : g.stream.EnumsSimple) (h : g.IsTag ti) :
    ¬ Relation.TransGen g.Refers ti ti := by
  intro hcircle
  rcases reaches_of_isTag henums h hcircle with hsimple | ⟨_, hlt⟩
  · exact absurd hsimple (Bool.eq_false_iff.1 h.not_isSimple)
  · exact absurd hlt (Nat.lt_irrefl _)

theorem parts_of_functionRecipe? {result args : TypeIndex} {call : UInt8} {r : Recipe}
    (h : g.functionRecipe? result args call = some r) : r.parts = g.signature result args := by
  rw [functionRecipe?] at h
  rw [signature]
  cases htype : g.stream.type? args with
  | none =>
    rw [htype] at h
    cases h
  | some t =>
    rw [htype] at h
    cases t with
    | argList list => exact Option.some.inj h ▸ rfl
    | _ => cases h

theorem parts_of_recordRecipe? {t : TypeRecord} {r : Recipe} (h : g.recordRecipe? t = some r) :
    r.parts = g.references t := by
  cases t with
  | pointer p =>
    obtain ⟨class_?, hclass, rfl⟩ := Option.map_eq_some_iff.1 h
    rw [references, hclass, Option.join_some]
  | procedure q => exact parts_of_functionRecipe? h
  | memberFunction q => exact parts_of_functionRecipe? h
  | modifier m => exact Option.some.inj h ▸ rfl
  | class_ q => exact Option.some.inj h ▸ rfl
  | union q => exact Option.some.inj h ▸ rfl
  | enum e => exact Option.some.inj h ▸ rfl
  | array a => exact Option.some.inj h ▸ rfl
  | _ => cases h

/-- What a type is made from is asked for to make it. -/
theorem refers_of_needs (h : g.Needs ti p) : g.Refers ti p := by
  obtain ⟨r, hr, hp⟩ := h
  by_cases htarget : g.target ti = ti
  · rw [recipe?_of_target_eq htarget, ownRecipe?] at hr
    split_ifs at hr with hsimple
    · obtain ⟨type, htype, rfl⟩ := Option.map_eq_some_iff.1 hr
      cases type with
      | pointer q size => exact List.mem_singleton.1 hp ▸ .pointee hsimple htype
      | nullPtr => cases hp
      | basic type size spelling => cases hp
    · obtain ⟨record, hrecord, hr⟩ := Option.bind_eq_some_iff.1 hr
      obtain ⟨t, htype, hr⟩ := Option.bind_eq_some_iff.1 hr
      have ht : g.stream.type? ti = some t := by
        rw [TypeStream.type?_eq, hrecord, Option.bind_some, htype]
      exact .reference ht (parts_of_recordRecipe? hr ▸ hp)
  · rw [recipe?, if_neg htarget] at hr
    obtain rfl := Option.some.inj hr
    exact List.mem_singleton.1 hp ▸ .definition htarget

/-- A tag type can be made whatever is under way that has led to it. -/
theorem IsTag.clear (henums : g.stream.EnumsSimple) (h : g.IsTag ti)
    (hunder : ∀ u ∈ under, Relation.TransGen g.Refers u ti) : g.Clear under ti := by
  intro u hu hneeds
  have hback : Relation.ReflTransGen g.Refers ti u :=
    Relation.ReflTransGen.mono (fun _ _ => refers_of_needs) ti u hneeds
  exact h.not_circular henums (Relation.TransGen.trans_right hback (hunder u hu))

/-! ### Names and places -/

/-- The name of a tag type inside of another one. -/
def innerName (g : TypeGraph) (name : Bytes) (unique? : Option Bytes) : String :=
  match unique?.bind (UniqueName.parse? g.demangler) with
  | some u => Text.lossy u.identifier.text
  | none => String.ofList (QualifiedName.identifier (Text.lossy name).toList)

/-- The namespaces for a name, and the name that is left. -/
def namespacePlace (scopes : List String) (isTemplate : Bool) (name whole : String) :
    List String × String :=
  if isTemplate then ([], whole) else (scopes, name)

/-- The namespaces and the name of a tag type that is declared in no other one. -/
def outerPlace (g : TypeGraph) (ti : TypeIndex) (name : Bytes) (unique? : Option Bytes) :
    List String × String :=
  match unique?.bind (UniqueName.parse? g.demangler) with
  | some u =>
    if (g.nesting.find? ti).isSome then ([], g.innerName name unique?)
    else namespacePlace (u.scopes.map fun p => Text.lossy p.text) u.anyScopeIsTemplate
      (g.innerName name unique?) (Text.lossy name)
  | none =>
    let scopes := (QualifiedName.scopes (Text.lossy name).toList).map String.ofList
    namespacePlace scopes (scopes.any (·.contains '<')) (g.innerName name unique?) (Text.lossy name)

/-- The tag type of the record at `ti` is declared with a name, and inside of contexts with the names
`path`, from the outside in. It is declared in the tag type around it if there is one, which is made
if the type system has the built-in types in `P`. -/
inductive Placed (g : TypeGraph) (P : BasicType → Prop) : TypeIndex → List String → String → Prop
  | inside {ti p : TypeIndex} {r : TypeRecord} {name : Bytes} {path : List String} {outer : String}
      {n : Nat} : g.stream.type? ti = some r → r.tagName? = some name →
    g.nesting.find? ti = some p → g.HasSize P p n → Placed g P p path outer →
    Placed g P ti (path ++ [outer]) (g.innerName name r.uniqueName?)
  | outside {ti : TypeIndex} {r : TypeRecord} {name : Bytes} : g.stream.type? ti = some r →
    r.tagName? = some name → (∀ p, g.nesting.find? ti = some p → ∀ n, ¬ g.HasSize P p n) →
    Placed g P ti (g.outerPlace ti name r.uniqueName?).1 (g.outerPlace ti name r.uniqueName?).2

/-- A tag type has one place. -/
theorem Placed.unique {P : BasicType → Prop} {path path' : List String} {name name' : String}
    (h : g.Placed P ti path name) (h' : g.Placed P ti path' name') : path = path' ∧ name = name' := by
  induction h generalizing path' name' with
  | inside ht hname hp hsize _ ih =>
    cases h' with
    | inside ht' hname' hp' _ h' =>
      obtain rfl := Option.some.inj (ht.symm.trans ht')
      obtain rfl := Option.some.inj (hname.symm.trans hname')
      obtain rfl := Option.some.inj (hp.symm.trans hp')
      obtain ⟨rfl, rfl⟩ := ih h'
      exact ⟨rfl, rfl⟩
    | outside _ _ hnone => exact absurd hsize (hnone _ hp _)
  | outside ht hname hnone =>
    cases h' with
    | inside _ _ hp' hsize' _ => exact absurd hsize' (hnone _ hp' _)
    | outside ht' hname' _ =>
      obtain rfl := Option.some.inj (ht.symm.trans ht')
      obtain rfl := Option.some.inj (hname.symm.trans hname')
      exact ⟨rfl, rfl⟩

end TypeGraph
end Pdb
