import Pdb.Proofs.FieldWalk
import Pdb.Proofs.TypeStore

/-! # Making the type of one record

`Makes` is what a computation does in the middle of making other types: it takes a sound store to a
sound store, leaves alone what is under way, and comes to an end if chains of members do. `create`
does so if `want` does, and finds a type exactly where the recipe of the record can be followed
without what is under way.
-/

namespace Pdb

namespace Creation
open TypeStore
variable {σ α β : Type} [TypeSystem σ] [FreshTags σ] {g : TypeGraph} {origin : σ}
  {under : List TypeIndex} {pend : α → TypeStore σ → List TagDecl}
  {pend' : β → TypeStore σ → List TagDecl} {c : Creation σ α} {k : α → Creation σ β}
  {Q Q' : Option α → Prop} {R : Option β → Prop}

/-- What a computation does while the records `under` are under way; `pend` is what it leaves
pending with its result. -/
def Makes (g : TypeGraph) (origin : σ) (under : List TypeIndex)
    (pend : α → TypeStore σ → List TagDecl) (c : Creation σ α) (Q : Option α → Prop) : Prop :=
  ∀ s, Sound g origin [] s → s.underway = under →
    wp g.stream.MakingAverts c
      (fun r s' => Reaches g origin under (r.elim [] fun a => pend a s') s s' ∧ Q r) s

/-- Nothing is left pending. -/
def settled (_ : α) (_ : TypeStore σ) : List TagDecl := []

/-- The declaration of a tag type that has just been made. -/
def pending (t : TypeObject) (s : TypeStore σ) : List TagDecl :=
  if t.state = .forward then (TypeSystem.tagOf? s.system t.handle).toList else []

namespace Makes

theorem mono (h : Makes g origin under pend c Q) (hQ : ∀ r, Q r → Q' r) :
    Makes g origin under pend c Q' :=
  fun s hs hunder => wp_mono (h s hs hunder) fun r _ hr => ⟨hr.1, hQ r hr.2⟩

theorem pure {a : α} (hpend : ∀ s, pend a s = []) (h : Q (some a)) :
    Makes g origin under pend (pure a) Q := by
  intro s hs _
  refine (wp_pure a).2 ⟨?_, h⟩
  rw [Option.elim_some, hpend]
  exact .refl hs

theorem failure (h : Q none) : Makes g origin under pend failure Q :=
  fun _ hs _ => wp_failure.2 ⟨.refl hs, h⟩

theorem ofOption {x : Option α} (h : Q x) :
    Makes g origin under settled (ofOption x : Creation σ α) Q := by
  intro s hs _
  refine (wp_ofOption x).2 ⟨?_, h⟩
  cases x <;> exact .refl hs

theorem look {f : TypeStore σ → α} (h : ∀ s, Q (some (f s))) :
    Makes g origin under settled (look f) Q :=
  fun s hs _ => (wp_look f).2 ⟨.refl hs, h s⟩

theorem ask {f : σ → α × σ} (hf : ∀ s, FreshTags.Quiet s (f s).2)
    (h : ∀ s, TypeSystem.Follows origin s → Q (some (f s).1)) :
    Makes g origin under settled (ask f) Q :=
  fun s hs _ => (wp_ask f).2
    ⟨⟨⟨id, id, rfl, rfl⟩, fun _ => rfl, hs.with_system (hf s.system)⟩, h s.system hs.follows⟩

theorem atEnd {x : Option α} (hends : g.stream.ChainsEnd → x.isSome)
    (h : ∀ a, x = some a → Q (some a)) :
    Makes g origin under settled (atEnd x : Creation σ α) Q := by
  intro s hs _
  refine (wp_atEnd x).2 ?_
  cases x with
  | none => exact fun hchains => nomatch hends hchains
  | some a => exact ⟨.refl hs, h a rfl⟩

theorem attempt {Q : Option (Option α) → Prop}
    (h : Makes g origin under settled c fun r => Q (some r)) :
    Makes g origin under settled (attempt c) Q := by
  refine fun s hs hunder => (wp_attempt c _).2 (wp_mono (h s hs hunder) fun r s' hr => ?_)
  cases r <;> exact hr

theorem bind (hc : Makes g origin under settled c Q)
    (hk : ∀ a, Q (some a) → Makes g origin under pend' (k a) R) (hnone : Q none → R none) :
    Makes g origin under pend' (c >>= k) R := by
  refine fun s hs hunder => (wp_bind c k).2 (wp_mono (hc s hs hunder) fun r s' hr => ?_)
  cases r with
  | none => exact ⟨hr.1, hnone hr.2⟩
  | some a =>
    have hunder' : s'.underway = under := hr.1.underway.trans hunder
    exact wp_mono (hk a hr.2 s' hr.1.sound hunder') fun r s'' hr' => ⟨hr.1.trans hr'.1, hr'.2⟩

end Makes
end Creation

namespace TypeGraph
open Creation TypeStore TypeSystem
variable {σ : Type} [TypeSystem σ] {g : TypeGraph} {origin : σ}
  {under : List TypeIndex} {ti p : TypeIndex} {r : Recipe} {ns : List Nat} {t : TypeObject}

/-! ### What is found and what is built -/

/-- What looking for the type at `p` finds. -/
def Found (g : TypeGraph) (origin : σ) (under : List TypeIndex) (p : TypeIndex) :
    Option TypeObject → Prop
  | some t => t.index = g.target p ∧ g.HasSize (MayHave origin) p t.size
  | none => ∀ n, g.HasSize (MustHave origin) p n → ¬ g.Clear under p

/-- What comes of a recipe for the type at `ti`. -/
def Built (g : TypeGraph) (origin : σ) (under : List TypeIndex) (ti : TypeIndex)
    (r? : Option Recipe) : Option TypeObject → Prop
  | some t => t.index = ti ∧ ∃ r, r? = some r ∧ g.Yields (MayHave origin) r t.size
  | none => ∀ r n, r? = some r → g.Yields (MustHave origin) r n → ¬ ∀ p ∈ r.parts, g.Clear under p

theorem built_some (hindex : t.index = ti) (hb : ∀ b, r.basic? = some b → MayHave origin b)
    (hparts : List.Forall₂ (g.HasSize (MayHave origin)) r.parts ns) (hsize : r.size? ns = some t.size) :
    Built g origin under ti (some r) (some t) :=
  ⟨hindex, r, rfl, hb, ns, hparts, hsize⟩

theorem built_none_of_part (hp : p ∈ r.parts) (h : Found g origin under p none) :
    Built g origin under ti (some r) none := by
  rintro _ n ⟨⟩ ⟨-, ns, hparts, -⟩ hclear
  obtain ⟨size, hsize, -⟩ := exists_size hparts
  exact h _ (hsize p hp) (hclear p hp)

theorem forall₂_hasSize_unique {P P' : BasicType → Prop} {ps : List TypeIndex} {ms : List Nat}
    (h : List.Forall₂ (g.HasSize P) ps ns) (h' : List.Forall₂ (g.HasSize P') ps ms) : ns = ms := by
  induction h generalizing ms with
  | nil => cases h'; rfl
  | cons h _ ih =>
    obtain ⟨m, ms, hm, hms, rfl⟩ := List.forall₂_cons_left_iff.1 h'
    rw [h.unique hm, ih hms]

theorem built_none_of_size (hparts : List.Forall₂ (g.HasSize (MayHave origin)) r.parts ns)
    (hsize : r.size? ns = none) : Built g origin under ti (some r) none := by
  rintro _ n ⟨⟩ ⟨-, ms, hparts', hn⟩ _
  rw [← forall₂_hasSize_unique hparts hparts', hsize] at hn
  exact nomatch hn

theorem built_none_of_basic {s : σ} {b : BasicType} (hb : r.basic? = some b)
    (hs : Follows origin s) (h : (basic? s b).1 = none) :
    Built g origin under ti (some r) none := by
  rintro _ n ⟨⟩ ⟨hmust, -⟩ _
  have := hmust b hb s hs
  rw [h] at this
  exact nomatch this

theorem built_none_of_no_recipe : Built g origin under ti none none := nofun

/-! ### Contexts -/

section
variable [FreshTags σ] {want : TypeIndex → Creation σ TypeObject}

/-- Looking for the type at `p` finds one exactly if there is one. -/
def Wants (g : TypeGraph) (origin : σ) (under : List TypeIndex)
    (want : TypeIndex → Creation σ TypeObject) (p : TypeIndex) : Prop :=
  Makes g origin under settled (want p) (Found g origin under p)

theorem makes_basic (b : BasicType) : Makes g origin under settled (basic b : Creation σ TypeHandle)
    fun h => (h.isSome → MayHave origin b)
      ∧ (h = none → ∃ s, Follows origin s ∧ (basic? s b).1 = none) := by
  refine .bind (.ask (fun s => FreshTags.quiet_basic? s b)
    (Q := fun r => ∃ s, Follows origin s ∧ r = some (basic? s b).1) fun s hs => ⟨s, hs, rfl⟩) ?_ nofun
  rintro _ ⟨s, hs, ⟨⟩⟩
  exact .ofOption ⟨fun h => ⟨s, hs, h⟩, fun h => ⟨s, hs, h⟩⟩

theorem makes_derive (d : DerivedType) :
    Makes g origin under settled (derive d : Creation σ TypeHandle) fun h => h.isSome :=
  .ask (fun s => FreshTags.quiet_derive s d) fun _ _ => rfl

theorem makes_qualify (type : TypeHandle) (q : Qualifiers) :
    Makes g origin under settled (qualify type q : Creation σ TypeHandle) fun h => h.isSome := by
  rw [qualify]
  split
  · exact .pure (fun _ => rfl) rfl
  · exact makes_derive _

theorem makes_tagOf (type : TypeHandle) :
    Makes g origin under settled (tagOf type : Creation σ TagDecl) fun _ => True :=
  .bind (.look (Q := fun _ => True) fun _ => trivial) (fun _ _ => .ofOption trivial) id

theorem makes_namespaces (c : DeclContext) (names : List String) :
    Makes g origin under settled (namespaces c names : Creation σ DeclContext)
      fun r => r.isSome := by
  induction names generalizing c with
  | nil => exact .pure (fun _ => rfl) rfl
  | cons name names ih =>
    refine .bind (.ask (fun s => FreshTags.quiet_namespaceIn s name c)
      (Q := fun r => r.isSome) fun _ _ => rfl) (fun c _ => ih c) nofun

theorem makes_tagContext (hw : Wants g origin under want p) :
    Makes g origin under settled (tagContext want p) fun _ => True :=
  .bind hw (fun _ _ => .bind (makes_tagOf _) (fun _ _ => .pure (fun _ => rfl) trivial) id)
    fun _ => trivial

theorem makes_namespaceContext (scopes : List String) (isTemplate : Bool) (name whole : String) :
    Makes g origin under settled
      (namespaceContext scopes isTemplate name whole : Creation σ (DeclContext × String))
      fun r => r.isSome := by
  rw [namespaceContext]
  split
  · exact .pure (fun _ => rfl) rfl
  · exact .bind (makes_namespaces _ _) (fun _ _ => .pure (fun _ => rfl) rfl) nofun

/-- There is always some context, whether or not the record around can be made. -/
theorem makes_declaration (hw : ∀ p, Wants g origin under want p) (name : Bytes)
    (unique? : Option Bytes) :
    Makes g origin under settled (g.declaration want ti name unique?) fun r => r.isSome := by
  rw [declaration]
  split
  · rw [decoratedDeclaration]
    split
    · refine .bind (.attempt (Q := fun r => r.isSome) ?_) (fun _ _ => .pure (fun _ => rfl) rfl) nofun
      exact (makes_tagContext (hw _)).mono fun _ _ => rfl
    · exact makes_namespaceContext _ _ _ _
  · rw [plainDeclaration]
    refine .bind (.attempt (Q := fun r => r.isSome) ?_) ?_ nofun
    · exact .bind (.ofOption (Q := fun _ => True) trivial)
        (fun _ _ => (makes_tagContext (hw _)).mono fun _ _ => rfl) fun _ => rfl
    · intro parent? _
      cases parent? with
      | none => exact makes_namespaceContext _ _ _ _
      | some parent => exact .pure (fun _ => rfl) rfl

/-! ### One lemma for each kind of record -/

theorem makes_ofBasic (b : BasicType) (name : String) (size : Nat) :
    Makes g origin under pending
      (do return finished ti name size (← basic b) : Creation σ TypeObject)
      (Built g origin under ti (some { parts := [], basic? := some b, size? := fun _ => some size })) := by
  refine .bind (makes_basic _) (fun h hmay => .pure (fun _ => rfl) ?_) fun hnone => ?_
  · exact built_some rfl (fun b hb => Option.some.inj hb ▸ hmay.1 rfl) .nil rfl
  · obtain ⟨s, hs, hb⟩ := hnone.2 rfl
    exact built_none_of_basic rfl hs hb

theorem makes_createSimple (hw : ∀ p size, ti.simpleType? = some (.pointer p size) →
    Wants g origin under want p) :
    Makes g origin under pending (createSimple want ti) (Built g origin under ti ti.recipe?) := by
  rw [createSimple, TypeIndex.recipe?]
  refine .bind (.ofOption (Q := fun r => ti.simpleType? = r) rfl) ?_ ?_
  · intro type htype
    rw [htype, Option.map_some]
    cases type with
    | nullPtr => exact makes_ofBasic _ _ _
    | pointer pointee size =>
      refine .bind (hw _ _ htype) (fun t ht => ?_) (built_none_of_part (List.mem_singleton_self _))
      refine .bind (makes_derive _) (fun h _ => .pure (fun _ => rfl) ?_) nofun
      exact built_some rfl nofun (.cons ht.2 .nil) rfl
    | basic type size spelling => exact makes_ofBasic _ _ _
  · intro hnone
    rw [hnone]
    exact built_none_of_no_recipe

theorem makes_createModifier (hw : ∀ p, Wants g origin under want p) (m : ModifierRecord) :
    Makes g origin under pending (g.createModifier want ti m)
      (Built g origin under ti (g.recordRecipe? (.modifier m))) := by
  rw [createModifier]
  refine .bind (hw _) (fun t ht => ?_) (built_none_of_part (List.mem_singleton_self _))
  refine .bind (makes_qualify _ _) (fun h _ => .pure (fun _ => rfl) ?_) nofun
  exact built_some rfl nofun (.cons ht.2 .nil) rfl

theorem makes_createPointer (hw : ∀ p, Wants g origin under want p) (p : PointerRecord) :
    Makes g origin under pending (createPointer want ti p)
      (Built g origin under ti (g.recordRecipe? (.pointer p))) := by
  rw [createPointer, recordRecipe?]
  -- without a containing class there is no recipe, even if there is a pointee
  have hnone (hc : p.containingClass? = none) : Built g origin under ti
      (p.containingClass?.map fun class_? =>
        { parts := p.pointee :: class_?.toList, size? := fun _ => some p.size }) none := by
    rw [hc]
    exact built_none_of_no_recipe
  refine .bind (hw _) (fun pointee hpointee => ?_) fun h => ?_
  · refine .bind (.ofOption (Q := fun r => p.containingClass? = r) rfl) ?_ hnone
    rintro (_ | class_) hclass
    · rw [hclass]
      refine .bind (makes_derive _) (fun _ _ => .bind (makes_qualify _ _) (fun _ _ => ?_) nofun) nofun
      exact .pure (fun _ => rfl) (built_some rfl nofun (.cons hpointee.2 .nil) rfl)
    · rw [hclass]
      refine .bind (hw _) (fun t ht => .bind (makes_derive _) (fun _ _ => ?_) nofun)
        (built_none_of_part (List.mem_cons_of_mem _ (List.mem_singleton_self _)))
      exact .pure (fun _ => rfl) (built_some rfl nofun (.cons hpointee.2 (.cons ht.2 .nil)) rfl)
  · cases hc : p.containingClass? with
    | none => exact built_none_of_no_recipe
    | some class_? => exact built_none_of_part List.mem_cons_self h

theorem makes_createArray (hw : ∀ p, Wants g origin under want p) (a : ArrayRecord) :
    Makes g origin under pending (createArray want ti a)
      (Built g origin under ti (g.recordRecipe? (.array a))) := by
  rw [createArray]
  refine .bind (hw _) (fun t ht => ?_) (built_none_of_part (List.mem_singleton_self _))
  have hparts : List.Forall₂ (g.HasSize (MayHave origin)) [a.element] [t.size] := .cons ht.2 .nil
  refine .bind (.ofOption (Q := fun r => a.length.size? = r) rfl) (fun size hsize => ?_) fun hsize => ?_
  · split
    · next hbad =>
      refine .bind (.failure (Q := fun r => r = none) rfl) nofun fun _ => built_none_of_size hparts ?_
      show a.sizeFrom? t.size = none
      rw [ArrayRecord.sizeFrom?, hsize, Option.filter_some, if_neg]
      simpa [or_iff_not_imp_left] using hbad
    · next hgood =>
      refine .bind (makes_derive _) (fun _ _ => .pure (fun _ => rfl) ?_) nofun
      refine built_some rfl nofun hparts ?_
      show a.sizeFrom? t.size = some size
      rw [ArrayRecord.sizeFrom?, hsize, Option.filter_some, if_pos]
      simpa [not_or] using hgood
  · exact built_none_of_size hparts (by simp [ArrayRecord.sizeFrom?, hsize])

theorem makes_mapM {ps : List TypeIndex} (hw : ∀ p, Wants g origin under want p) :
    Makes g origin under settled (ps.mapM want) fun r => match r with
      | some ts => List.Forall₂ (g.HasSize (MayHave origin)) ps (ts.map (·.size))
      | none => ∃ p ∈ ps, Found g origin under p none := by
  induction ps with
  | nil => exact .pure (fun _ => rfl) .nil
  | cons p ps ih =>
    rw [List.mapM_cons]
    refine .bind (hw p) (fun t ht => ?_) fun h => ⟨p, List.mem_cons_self, h⟩
    refine .bind ih (fun ts hts => .pure (fun _ => rfl) (.cons ht.2 hts)) ?_
    rintro ⟨p', hp', h⟩
    exact ⟨p', List.mem_cons_of_mem _ hp', h⟩

theorem makes_createFunction (hw : ∀ p, Wants g origin under want p) (result args : TypeIndex)
    (call : UInt8) : Makes g origin under pending (g.createFunction want ti result args call)
      (Built g origin under ti (g.functionRecipe? result args call)) := by
  rw [createFunction, functionRecipe?]
  refine .bind (.ofOption (Q := fun r => g.stream.type? args = r) rfl) (fun type htype => ?_) ?_
  · rw [htype]
    split
    · next list =>
      refine .bind (makes_mapM hw) (fun ts hts => ?_) ?_
      · refine .bind (hw result) (fun t ht => ?_)
          (built_none_of_part (List.mem_append_right _ (List.mem_singleton_self _)))
        have hparts : List.Forall₂ (g.HasSize (MayHave origin)) ((parameters list).1 ++ [result])
            (ts.map (·.size) ++ [t.size]) := List.rel_append hts (.cons ht.2 .nil)
        refine .bind (.ofOption (Q := fun r => CallingConvention.ofCode? call = r) rfl)
          (fun convention hcall => ?_) fun hcall => ?_
        · refine .bind (makes_derive _) (fun _ _ => .pure (fun _ => rfl) ?_) nofun
          exact built_some rfl nofun hparts (by rw [hcall]; rfl)
        · exact built_none_of_size hparts (by rw [hcall]; rfl)
      · rintro ⟨p, hp, h⟩
        exact built_none_of_part (List.mem_append_left _ hp) h
    · next hother =>
      refine .failure ?_
      split
      · next heq => exact (hother _ (Option.some.inj heq)).elim
      · exact built_none_of_no_recipe
  · intro hnone
    rw [hnone]
    exact built_none_of_no_recipe

theorem makes_declareTag (ti : TypeIndex) (size : Nat) (d : Declaration) (name : String) :
    Makes g origin under pending (declareTag ti size d name : Creation σ TypeObject)
      fun r => ∃ t, r = some t ∧ t.index = ti ∧ t.size = size := by
  intro s hs hunder
  obtain ⟨new, htag, hsound⟩ := hs.declare d
  simp only [declareTag, Creation.declare, Creation.change, wp_bind, wp_ask, wp_pure]
  have htag' := FreshTags.change_tagOf? _ (TypeSystem.declare s.system d).1 (.external true)
    (FreshTags.change_tagOf? _ (TypeSystem.declare s.system d).1 .start htag)
  have hsound' := (hsound.with_system (FreshTags.quiet_change _ (TypeSystem.declare s.system d).1
    .start)).with_system (FreshTags.quiet_change _ (TypeSystem.declare s.system d).1 (.external true))
  refine ⟨⟨⟨id, id, rfl, rfl⟩, fun _ => rfl, ?_⟩, _, rfl, rfl, rfl⟩
  rw [Option.elim_some, pending, if_pos rfl, finished, htag']
  exact hsound'

theorem makes_createRecord (hw : ∀ p, Wants g origin under want p) (name : Bytes)
    (unique? : Option Bytes) {length : Numeric} {size : Nat} (hsize : length.size? = some size)
    (kind : RecordKind) (inheritance : InheritanceModel) :
    Makes g origin under pending
      (g.createRecord want ti name unique? size kind inheritance)
      (Built g origin under ti (some { parts := [], size? := fun _ => length.size? })) := by
  rw [createRecord]
  refine .bind (makes_declaration hw name unique?) (fun _ _ => ?_) nofun
  refine (makes_declareTag ti size _ _).mono ?_
  rintro _ ⟨t, rfl, hindex, rfl⟩
  exact built_some hindex nofun .nil hsize

theorem makes_createEnum (hw : ∀ p, Wants g origin under want p) (e : EnumRecord) :
    Makes g origin under pending (g.createEnum want ti e)
      (Built g origin under ti (g.recordRecipe? (.enum e))) := by
  rw [createEnum]
  refine .bind (makes_declaration hw e.name e.uniqueName) (fun _ _ => ?_) nofun
  refine .bind (hw _) (fun underlying hunderlying => ?_)
    (built_none_of_part (List.mem_singleton_self _))
  refine (makes_declareTag ti underlying.size _ _).mono ?_
  rintro _ ⟨t, rfl, hindex, hsize⟩
  exact built_some hindex nofun (.cons hunderlying.2 .nil) (by rw [hsize]; rfl)

/-- Making the type of a record from its own record finds what its recipe promises. For a built-in
type only the type that it points to has to be found. -/
theorem makes_create (hsimple : ∀ p size, ti.simpleType? = some (.pointer p size) →
      Wants g origin under want p)
    (hw : ti.isSimple = false → ∀ record, (g.stream.record ti).toOption = some record →
      ∀ p, Wants g origin under want p) :
    Makes g origin under pending (g.create want ti) (Built g origin under ti (g.ownRecipe? ti)) := by
  rw [create, ownRecipe?]
  by_cases hti : ti.isSimple
  · rw [if_pos hti, if_pos hti]
    exact makes_createSimple hsimple
  · rw [if_neg hti, if_neg hti]
    refine .bind (.ofOption (Q := fun r => (g.stream.record ti).toOption = r) rfl)
      (fun record hrecord => ?_) fun hrecord => ?_
    · have hw := hw (Bool.eq_false_iff.2 hti) record hrecord
      rw [hrecord, Option.bind_some]
      refine .bind (.ofOption (Q := fun r => record.type? = r) rfl) (fun type htype => ?_)
        fun htype => ?_
      · rw [htype, Option.bind_some]
        cases type with
        | modifier m => exact makes_createModifier hw m
        | pointer p => exact makes_createPointer hw p
        | class_ r =>
          refine .bind (.ofOption (Q := fun n => r.length.size? = n) rfl) (fun size hsize => ?_)
            fun hsize => built_none_of_size .nil hsize
          refine .bind (.atEnd (Q := fun r => r.isSome) (fun hends => ?_) fun _ _ => rfl)
            (fun inheritance _ => makes_createRecord hw _ _ hsize _ _) nofun
          exact TypeStream.isSome_inheritance?_iff.2 (.inr (.inl (hends _)))
        | union r =>
          exact .bind (.ofOption (Q := fun n => r.length.size? = n) rfl)
            (fun size hsize => makes_createRecord hw _ _ hsize _ _)
            fun hsize => built_none_of_size .nil hsize
        | enum e => exact makes_createEnum hw e
        | array a => exact makes_createArray hw a
        | procedure r => exact makes_createFunction hw _ _ _
        | memberFunction r => exact makes_createFunction hw _ _ _
        | _ => exact .failure built_none_of_no_recipe
      · rw [htype]
        exact built_none_of_no_recipe
    · rw [hrecord]
      exact built_none_of_no_recipe

end

end TypeGraph
end Pdb
