import Pdb.Proofs.Creation
import Pdb.Proofs.FreshTags
import Pdb.Proofs.Recipe

/-! # What holds of the types that have been made

`Sound` ties the parts of a store to each other: an index leads to the type of the record that it is
made from, each type is found under its own index, and each declaration that the type system has
made meanwhile has an entry that agrees with its type. Between the declaration of a tag type and its
entry it is `pending`. `Reaches` is how making types changes a store: what is there stays, and what
is under way is left alone.
-/

namespace Pdb

namespace TypeSystem
variable {σ : Type} [TypeSystem σ]

/-- Some state that follows has a built-in type. -/
def MayHave (origin : σ) (b : BasicType) : Prop := ∃ s, Follows origin s ∧ (basic? s b).1.isSome

/-- All states that follow have a built-in type. -/
def MustHave (origin : σ) (b : BasicType) : Prop := ∀ s, Follows origin s → (basic? s b).1.isSome

/-- A built-in type that the type system cannot represent is one that it never can. This is what
`TypeSystem.basic?` is documented to say: there is none exactly if the type system cannot represent it,
and not for what has been asked for before. -/
def BasicsFixed (origin : σ) : Prop :=
  ∀ s, Follows origin s → ∀ b, (basic? s b).1.isSome = (basic? origin b).1.isSome

theorem MayHave.mustHave {origin : σ} {b : BasicType} (h : MayHave origin b)
    (hfixed : BasicsFixed origin) : MustHave origin b := by
  obtain ⟨s, hs, hb⟩ := h
  intro s' hs'
  rwa [hfixed s' hs', ← hfixed s hs]

end TypeSystem

namespace TypeStore
variable {σ : Type} {s s' s'' : TypeStore σ} {k : TypeIndex} {id id' : TypeId} {t : TypeObject}

theorem cached?_add (s : TypeStore σ) (t : TypeObject) (k : TypeIndex) :
    (s.add t).cached? k = if k = t.index then some s.objects.size else s.cached? k :=
  Table.find?_insert ..

theorem object?_add (s : TypeStore σ) (t : TypeObject) (id : TypeId) :
    (s.add t).object? id = if id = s.objects.size then some t else s.object? id :=
  Array.getElem?_push

theorem cached?_redirect (s : TypeStore σ) (k j : TypeIndex) (id : TypeId) :
    (s.redirect k id).cached? j = if j = k then some id else s.cached? j :=
  Table.find?_insert ..

theorem object?_size (s : TypeStore σ) : s.object? s.objects.size = none := by
  rw [object?]
  exact Array.getElem?_eq_none (Nat.le_refl _)

/-- The types that there were are there. -/
theorem object?_add_of_some (ht : s.object? id = some t) (u : TypeObject) :
    (s.add u).object? id = some t := by
  rw [object?_add, if_neg, ht]
  rintro rfl
  exact nomatch ht.symm.trans s.object?_size

theorem object?_resolve {ti : TypeIndex} (tag : TagDecl) (hid : s.cached? ti = some id) (j : TypeId) :
    (s.resolve tag ti).object? j
      = if j = id then (s.object? j).map fun t => { t with state := .full } else s.object? j := by
  have hobjects : (s.resolve tag ti).objects
      = s.objects.modify id fun t => { t with state := .full } := by
    rw [cached?] at hid
    simp only [resolve, hid]
  rw [object?, hobjects, Array.getElem?_modify, object?]
  by_cases h : id = j
  · rw [if_pos h, if_pos h.symm]
  · rw [if_neg h, if_neg (Ne.symm h)]

theorem find?_resolve (s : TypeStore σ) (tag : TagDecl) (ti : TypeIndex) (k : TagDecl) :
    (s.resolve tag ti).declarations.find? k
      = if k = tag then some ⟨ti, .full⟩ else s.declarations.find? k :=
  Table.find?_insert ..

/-- What making types does to a store. -/
structure Grows (s s' : TypeStore σ) : Prop where
  cached {k : TypeIndex} {id : TypeId} : s.cached? k = some id → s'.cached? k = some id
  entry {tag : TagDecl} {d : DeclStatus} :
    s.declarations.find? tag = some d → s'.declarations.find? tag = some d
  underway : s'.underway = s.underway
  completing : s'.completing = s.completing

theorem Grows.refl (s : TypeStore σ) : Grows s s := ⟨id, id, rfl, rfl⟩

theorem Grows.trans (h : Grows s s') (h' : Grows s' s'') : Grows s s'' where
  cached hk := h'.cached (h.cached hk)
  entry hd := h'.entry (h.entry hd)
  underway := h'.underway.trans h.underway
  completing := h'.completing.trans h.completing

section
variable [TypeSystem σ] [FreshTags σ] {g : TypeGraph} {origin : σ}
  {under : List TypeIndex} {pending : List TagDecl} {tag : TagDecl} {d : DeclStatus}

/-- What holds of the types that have been made since the type system was in the state `origin`. -/
structure Sound (g : TypeGraph) (origin : σ) (pending : List TagDecl)
    (s : TypeStore σ) : Prop where
  cached {k : TypeIndex} {id : TypeId} : s.cached? k = some id →
    ∃ t, s.object? id = some t ∧ t.index = g.target k
  object {id : TypeId} {t : TypeObject} : s.object? id = some t → s.cached? t.index = some id
  size {id : TypeId} {t : TypeObject} : s.object? id = some t →
    g.HasSize (TypeSystem.MayHave origin) t.index t.size
  entry {tag : TagDecl} {d : DeclStatus} : s.declarations.find? tag = some d →
    ∃ id t, s.object? id = some t ∧ t.index = d.index ∧ t.state = d.state
      ∧ TypeSystem.tagOf? s.system t.handle = some tag
  declared (tag : TagDecl) : FreshTags.Declared s.system tag
    ↔ FreshTags.Declared origin tag ∨ (s.declarations.find? tag).isSome ∨ tag ∈ pending
  follows : TypeSystem.Follows origin s.system
  entry_origin {tag : TagDecl} : FreshTags.Declared origin tag → s.declarations.find? tag = none
  entry_pending {tag : TagDecl} : tag ∈ pending → ¬ FreshTags.Declared origin tag ∧ s.declarations.find? tag = none

/-- A sound store that comes from another one while the records `under` are under way. -/
structure Reaches (g : TypeGraph) (origin : σ) (under : List TypeIndex)
    (pending : List TagDecl) (s s' : TypeStore σ) : Prop extends Grows s s' where
  kept {k : TypeIndex} : k ∈ under → s'.cached? k = s.cached? k
  sound : Sound g origin pending s'

theorem Reaches.refl (h : Sound g origin pending s) : Reaches g origin under pending s s :=
  ⟨.refl s, fun _ => rfl, h⟩

theorem Reaches.trans {pending' : List TagDecl} (h : Reaches g origin under pending s s')
    (h' : Reaches g origin under pending' s' s'') : Reaches g origin under pending' s s'' :=
  ⟨h.toGrows.trans h'.toGrows, fun hk => (h'.kept hk).trans (h.kept hk), h'.sound⟩

theorem Reaches.weaken (h : Reaches g origin (k :: under) pending s s') :
    Reaches g origin under pending s s' :=
  ⟨h.toGrows, fun hk => h.kept (List.mem_cons_of_mem _ hk), h.sound⟩

namespace Sound

theorem id_unique {id' : TypeId} {t' : TypeObject} (h : Sound g origin pending s)
    (ht : s.object? id = some t) (ht' : s.object? id' = some t') (hindex : t.index = t'.index) :
    id = id' :=
  Option.some.inj ((h.object ht).symm.trans (hindex ▸ h.object ht'))

/-- No record is declared twice. -/
theorem tag_unique {tag' : TagDecl} {d' : DeclStatus} (h : Sound g origin pending s)
    (hd : s.declarations.find? tag = some d) (hd' : s.declarations.find? tag' = some d')
    (hindex : d.index = d'.index) : tag = tag' := by
  obtain ⟨id, t, ht, hti, _, htag⟩ := h.entry hd
  obtain ⟨id', t', ht', hti', _, htag'⟩ := h.entry hd'
  obtain rfl := h.id_unique ht ht' (hti.trans (hindex.trans hti'.symm))
  obtain rfl := Option.some.inj (ht.symm.trans ht')
  exact Option.some.inj (htag.symm.trans htag')

theorem cached_target (h : Sound g origin pending s) (hk : s.cached? k = some id) :
    s.cached? (g.target k) = some id := by
  obtain ⟨t, ht, htarget⟩ := h.cached hk
  exact htarget ▸ h.object ht

theorem hasSize (h : Sound g origin pending s) (hk : s.cached? k = some id)
    (ht : s.object? id = some t) : g.HasSize (TypeSystem.MayHave origin) k t.size := by
  obtain ⟨t', ht', htarget⟩ := h.cached hk
  obtain rfl := Option.some.inj (ht.symm.trans ht')
  exact TypeGraph.hasSize_target.1 (htarget ▸ h.size ht)

theorem with_marks (h : Sound g origin pending s) (underway completing : List TypeIndex) :
    Sound g origin pending { s with underway, completing } :=
  ⟨h.cached, h.object, h.size, h.entry, h.declared, h.follows, h.entry_origin, h.entry_pending⟩

theorem with_system {system : σ} (h : Sound g origin pending s)
    (hq : FreshTags.Quiet s.system system) : Sound g origin pending { s with system } where
  cached := h.cached
  object := h.object
  size := h.size
  entry hd := by
    obtain ⟨id, t, ht, hindex, hstate, htag⟩ := h.entry hd
    exact ⟨id, t, ht, hindex, hstate, hq.tagOf? _ _ htag⟩
  declared tag := (hq.declared tag).trans (h.declared tag)
  follows := h.follows.trans hq.follows
  entry_origin := h.entry_origin
  entry_pending := h.entry_pending

/-- A declaration is pending when it has just been made. -/
theorem declare (h : Sound g origin [] s) (d : Declaration) :
    ∃ new, TypeSystem.tagOf? (TypeSystem.declare s.system d).2
        (TypeSystem.declare s.system d).1 = some new
      ∧ Sound g origin [new] { s with system := (TypeSystem.declare s.system d).2 } := by
  obtain ⟨new, hnew, htag, hdeclared⟩ := FreshTags.declare_fresh s.system d
  have hnone : ¬ (FreshTags.Declared origin new ∨ (s.declarations.find? new).isSome ∨ new ∈ []) :=
    fun hold => hnew ((h.declared new).2 hold)
  refine ⟨new, htag, h.cached, h.object, h.size, fun hd => ?_, fun tag => ?_, h.follows.declare d,
    h.entry_origin, fun hp => ?_⟩
  · obtain ⟨id, t, ht, hindex, hstate, htag⟩ := h.entry hd
    exact ⟨id, t, ht, hindex, hstate, FreshTags.declare_tagOf? _ d htag⟩
  · rw [hdeclared, h.declared]
    simp
    tauto
  · rw [List.mem_singleton.1 hp]
    refine ⟨fun hb => hnone (.inl hb), ?_⟩
    simpa using fun hsome => hnone (.inr (.inl hsome))

/-- A type of a record that had none is found under the index of its record. -/
theorem add (h : Sound g origin pending s) (hnew : s.cached? t.index = none)
    (htarget : g.target t.index = t.index)
    (hsize : g.HasSize (TypeSystem.MayHave origin) t.index t.size) :
    Sound g origin pending (s.add t) where
  cached {k id} hk := by
    rw [cached?_add] at hk
    split at hk
    · next hki =>
      obtain rfl := Option.some.inj hk
      exact ⟨t, by rw [object?_add, if_pos rfl], by rw [hki, htarget]⟩
    · obtain ⟨t', ht', htarget'⟩ := h.cached hk
      exact ⟨t', object?_add_of_some ht' t, htarget'⟩
  object {id t'} ht' := by
    rw [object?_add] at ht'
    rw [cached?_add]
    split at ht'
    · next hid => rw [hid, Option.some.inj ht', if_pos rfl]
    · rw [if_neg, h.object ht']
      intro hindex
      rw [← hindex, h.object ht'] at hnew
      exact nomatch hnew
  size {id t'} ht' := by
    rw [object?_add] at ht'
    split at ht'
    · exact Option.some.inj ht' ▸ hsize
    · exact h.size ht'
  entry hd := by
    obtain ⟨id, t', ht', hrest⟩ := h.entry hd
    exact ⟨id, t', object?_add_of_some ht' t, hrest⟩
  declared := h.declared
  follows := h.follows
  entry_origin := h.entry_origin
  entry_pending := h.entry_pending

theorem enter (h : Sound g origin [tag] s) (ht : s.object? id = some t)
    (hstate : t.state = .forward) (htag : TypeSystem.tagOf? s.system t.handle = some tag) :
    Sound g origin [] { s with declarations := s.declarations.insert tag ⟨t.index, .forward⟩ } where
  cached := h.cached
  object := h.object
  size := h.size
  entry {tag' d} hd := by
    rw [Table.find?_insert] at hd
    split at hd
    · next htag' => exact ⟨id, t, ht, Option.some.inj hd ▸ rfl, Option.some.inj hd ▸ hstate, htag' ▸ htag⟩
    · exact h.entry hd
  declared tag' := by
    rw [h.declared, Table.find?_insert]
    by_cases htag' : tag' = tag <;> simp [htag']
  follows := h.follows
  entry_origin {tag'} hb := by
    rw [Table.find?_insert, if_neg, h.entry_origin hb]
    rintro rfl
    exact (h.entry_pending (List.mem_singleton_self _)).1 hb
  entry_pending hp := nomatch hp

theorem redirect (h : Sound g origin pending s) (hk : s.cached? k = none)
    (ht : s.object? id = some t) (htarget : t.index = g.target k) :
    Sound g origin pending (s.redirect k id) where
  cached {j id'} hj := by
    rw [cached?_redirect] at hj
    split at hj
    · next hjk => exact ⟨t, Option.some.inj hj ▸ ht, hjk ▸ htarget⟩
    · exact h.cached hj
  object {id' t'} ht' := by
    rw [cached?_redirect, if_neg, h.object ht']
    intro hindex
    rw [← hindex, h.object ht'] at hk
    exact nomatch hk
  size := h.size
  entry := h.entry
  declared := h.declared
  follows := h.follows
  entry_origin := h.entry_origin
  entry_pending := h.entry_pending

/-- A type and its entry become complete together. -/
theorem resolve (h : Sound g origin [] s) (hd : s.declarations.find? tag = some d) :
    Sound g origin [] (s.resolve tag d.index) := by
  obtain ⟨id, t, ht, hindex, -, htag⟩ := h.entry hd
  have hid : s.cached? d.index = some id := hindex ▸ h.object ht
  have hobject := object?_resolve tag hid
  refine ⟨fun {k id'} hk => ?_, fun {id' t'} ht' => ?_, fun {id' t'} ht' => ?_, fun {tag' d'} hd' => ?_,
    fun tag' => ?_, h.follows, fun {tag'} hb => ?_, fun hp => nomatch hp⟩
  · obtain ⟨t', ht', htarget⟩ := h.cached hk
    rw [hobject, ht']
    split
    · exact ⟨_, rfl, htarget⟩
    · exact ⟨_, rfl, htarget⟩
  · rw [hobject] at ht'
    split at ht'
    · obtain ⟨t'', ht'', rfl⟩ := Option.map_eq_some_iff.1 ht'
      exact h.object (t := t'') ht''
    · exact h.object ht'
  · rw [hobject] at ht'
    split at ht'
    · obtain ⟨t'', ht'', rfl⟩ := Option.map_eq_some_iff.1 ht'
      exact h.size (t := t'') ht''
    · exact h.size ht'
  · rw [show (s.resolve tag d.index).declarations.find? tag' = _ from Table.find?_insert ..] at hd'
    split at hd'
    · next htag' =>
      obtain rfl := Option.some.inj hd'
      refine ⟨id, { t with state := .full }, ?_, hindex, rfl, htag' ▸ htag⟩
      rw [hobject, if_pos rfl, ht, Option.map_some]
    · next htag' =>
      obtain ⟨id', t', ht', hindex', hstate', htag''⟩ := h.entry hd'
      refine ⟨id', t', ?_, hindex', hstate', htag''⟩
      rw [hobject, if_neg, ht']
      -- a type has one declaration only
      rintro rfl
      obtain rfl := Option.some.inj (ht.symm.trans ht')
      exact htag' (Option.some.inj (htag''.symm.trans htag))
  · rw [show (s.resolve tag d.index).declarations.find? tag' = _ from Table.find?_insert ..]
    show FreshTags.Declared s.system tag' ↔ _
    rw [h.declared]
    by_cases htag' : tag' = tag <;> simp [htag', hd]
  · rw [show (s.resolve tag d.index).declarations.find? tag' = _ from Table.find?_insert ..,
      if_neg, h.entry_origin hb]
    rintro rfl
    exact nomatch hd.symm.trans (h.entry_origin hb)

end Sound

/-- What was under way in between is so no longer. -/
theorem Reaches.unmark
    (h : Reaches g origin under pending { s with underway := k :: s.underway } s') :
    Reaches g origin under pending s { s' with underway := s'.underway.erase k } where
  cached hk := h.cached hk
  entry hd := h.entry hd
  underway := by rw [h.underway, List.erase_cons_head]
  completing := h.completing
  kept hk := h.kept hk
  sound := h.sound.with_marks _ _

end
end TypeStore
end Pdb
