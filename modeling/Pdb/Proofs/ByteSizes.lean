import Pdb.Proofs.Carried
import Pdb.Proofs.CompletedTags
import Pdb.Proofs.NumericLeaf

/-! # Sizes follow from those of the parts

A type with qualifiers has the size of the type without them, an enumeration that of its integers,
and an array that of as many elements as it was made with. The sizes are taken from the parts when the
type is made. All types in a store are `Composite`, whatever has been asked for (`AllComposite`), since
parts stay what they are but for their states.
-/

namespace Pdb

namespace TypeSystem
variable {σ : Type} [TypeSystem σ] {origin s s' : σ} {d : DerivedType} {h : TypeHandle}

/-- The type system was asked for `d` some time since it was in the state `origin`, and gave `h`. -/
def Gave (origin s : σ) (d : DerivedType) (h : TypeHandle) : Prop :=
  ∃ s₀, Follows origin s₀ ∧ h = (derive s₀ d).1 ∧ Follows (derive s₀ d).2 s

theorem Gave.mono (hg : Gave origin s d h) (hs : Follows s s') : Gave origin s' d h := by
  obtain ⟨s₀, h₀, heq, hafter⟩ := hg
  exact ⟨s₀, h₀, heq, hafter.trans hs⟩

end TypeSystem

namespace TypeStore
variable {σ : Type} [TypeSystem σ] {g : TypeGraph} {origin : σ} {s₀ s s' s'' : TypeStore σ}
  {t u : TypeObject} {ti : TypeIndex} {m : σ}

/-! ### Types stay what they are -/

/-- Types stay the same but for their states. -/
structure Persists (s s' : TypeStore σ) : Prop where
  follows : TypeSystem.Follows s.system s'.system
  objects {id : TypeId} {t : TypeObject} : s.object? id = some t →
    ∃ state, s'.object? id = some { t with state }

namespace Persists

theorem of_follows (h : TypeSystem.Follows s.system s'.system) (hobjects : s'.objects = s.objects) :
    Persists s s' where
  follows := h
  objects {id t} ht := by
    rw [object?, ← hobjects] at ht
    exact ⟨t.state, ht⟩

theorem refl (s : TypeStore σ) : Persists s s := .of_follows .refl rfl

theorem trans (h : Persists s s') (h' : Persists s' s'') : Persists s s'' where
  follows := h.follows.trans h'.follows
  objects ht := by
    obtain ⟨_, ht'⟩ := h.objects ht
    obtain ⟨state, ht''⟩ := h'.objects ht'
    exact ⟨state, ht''⟩

theorem add (s : TypeStore σ) (t : TypeObject) : Persists s (s.add t) where
  follows := .refl
  objects {_ u} hu := ⟨u.state, object?_add_of_some hu t⟩

theorem resolve {tag : TagDecl} {id : TypeId} (hid : s.cached? ti = some id) :
    Persists s (s.resolve tag ti) where
  follows := .refl
  objects {id' u} hu := by
    rw [object?_resolve tag hid, hu]
    split
    · exact ⟨.full, rfl⟩
    · exact ⟨u.state, rfl⟩

end Persists

/-- `u` is the type that is made from the record at `ti`. -/
def Holds (s : TypeStore σ) (ti : TypeIndex) (u : TypeObject) : Prop :=
  ∃ id, s.object? id = some u ∧ u.index = ti

theorem Holds.mono (h : s.Holds ti u) (hs : s.Persists s') : ∃ state, s'.Holds ti { u with state } := by
  obtain ⟨id, hu, hindex⟩ := h
  obtain ⟨state, hu'⟩ := hs.objects hu
  exact ⟨state, id, hu', hindex⟩

/-! ### What types are made of -/

/-- `t` is made as an array of `count` times `u`. -/
structure ArrayOf (origin m : σ) (t : TypeObject) (count : Nat) (u : TypeObject) : Prop where
  pos : 0 < u.size
  size : t.size = count * u.size
  element : t.element? = some u.index
  given : TypeSystem.Gave origin m (.array u.handle count) t.handle

/-- The types that the record of `t` refers to have been made, and `t` has been made from these. -/
structure Composite (g : TypeGraph) (origin : σ) (s : TypeStore σ) (t : TypeObject) : Prop where
  modifier {r : ModifierRecord} : g.stream.type? t.index = some (.modifier r) →
    ∃ u, s.Holds (g.target r.modified) u ∧ t.size = u.size
  enum {r : EnumRecord} : g.stream.type? t.index = some (.enum r) →
    ∃ u, s.Holds (g.target r.underlying) u ∧ t.size = u.size
  array {r : ArrayRecord} : g.stream.type? t.index = some (.array r) →
    ∃ count u, s.Holds (g.target r.element) u ∧ ArrayOf origin s.system t count u

namespace Composite

theorem of_modifier {r : ModifierRecord} (hr : g.stream.type? t.index = some (.modifier r))
    (hu : s.Holds (g.target r.modified) u) (hsize : t.size = u.size) : s.Composite g origin t where
  modifier hr' := by
    cases hr.symm.trans hr'
    exact ⟨u, hu, hsize⟩
  enum hr' := nomatch hr.symm.trans hr'
  array hr' := nomatch hr.symm.trans hr'

theorem of_enum {r : EnumRecord} (hr : g.stream.type? t.index = some (.enum r))
    (hu : s.Holds (g.target r.underlying) u) (hsize : t.size = u.size) : s.Composite g origin t where
  modifier hr' := nomatch hr.symm.trans hr'
  enum hr' := by
    cases hr.symm.trans hr'
    exact ⟨u, hu, hsize⟩
  array hr' := nomatch hr.symm.trans hr'

theorem of_array {r : ArrayRecord} {count : Nat} (hr : g.stream.type? t.index = some (.array r))
    (hu : s.Holds (g.target r.element) u) (ha : ArrayOf origin s.system t count u) :
    s.Composite g origin t where
  modifier hr' := nomatch hr.symm.trans hr'
  enum hr' := nomatch hr.symm.trans hr'
  array hr' := by
    cases hr.symm.trans hr'
    exact ⟨count, u, hu, ha⟩

theorem mono (h : s.Composite g origin t) (hs : s.Persists s') : s'.Composite g origin t where
  modifier hr := by
    obtain ⟨u, hu, hsize⟩ := h.modifier hr
    obtain ⟨state, hu'⟩ := hu.mono hs
    exact ⟨_, hu', hsize⟩
  enum hr := by
    obtain ⟨u, hu, hsize⟩ := h.enum hr
    obtain ⟨state, hu'⟩ := hu.mono hs
    exact ⟨_, hu', hsize⟩
  array hr := by
    obtain ⟨count, u, hu, ha⟩ := h.array hr
    obtain ⟨state, hu'⟩ := hu.mono hs
    exact ⟨count, _, hu', ha.pos, ha.size, ha.element, ha.given.mono hs.follows⟩

/-- The state of a type does not matter. -/
theorem with_state (h : s.Composite g origin t) (state : ResolveState) :
    s.Composite g origin { t with state } where
  modifier := h.modifier
  enum := h.enum
  array hr := by
    obtain ⟨count, u, hu, ha⟩ := h.array hr
    exact ⟨count, u, hu, ha.pos, ha.size, ha.element, ha.given⟩

end Composite

def AllComposite (g : TypeGraph) (origin : σ) (s : TypeStore σ) : Prop :=
  ∀ id t, s.object? id = some t → s.Composite g origin t

/-- The types of `s₀` are still there, and all types are made from their parts. -/
structure Builds (g : TypeGraph) (origin : σ) (s₀ s : TypeStore σ) : Prop extends Persists s₀ s where
  composite : s.AllComposite g origin

namespace Builds

theorem refl (h : s.AllComposite g origin) : Builds g origin s s := ⟨.refl s, h⟩

theorem trans (h : Builds g origin s₀ s) (h' : Builds g origin s s') : Builds g origin s₀ s' :=
  ⟨h.toPersists.trans h'.toPersists, h'.composite⟩

theorem of_follows (h : Builds g origin s₀ s) (hs : TypeSystem.Follows s.system s'.system)
    (hobjects : s'.objects = s.objects) : Builds g origin s₀ s' where
  toPersists := h.toPersists.trans (.of_follows hs hobjects)
  composite id t ht := by
    rw [object?, hobjects] at ht
    exact (h.composite id t ht).mono (.of_follows hs hobjects)

theorem add (h : Builds g origin s₀ s) (ht : s.Composite g origin t) :
    Builds g origin s₀ (s.add t) where
  toPersists := h.toPersists.trans (.add s t)
  composite id u hu := by
    rw [object?_add] at hu
    split at hu
    · exact Option.some.inj hu ▸ ht.mono (.add s t)
    · exact (h.composite id u hu).mono (.add s t)

theorem resolve {tag : TagDecl} {id : TypeId} (h : Builds g origin s₀ s)
    (hid : s.cached? ti = some id) : Builds g origin s₀ (s.resolve tag ti) where
  toPersists := h.toPersists.trans (.resolve hid)
  composite id' u hu := by
    rw [object?_resolve tag hid] at hu
    split at hu
    · obtain ⟨u', hu', rfl⟩ := Option.map_eq_some_iff.1 hu
      exact ((h.composite id' u' hu').with_state .full).mono (.resolve hid)
    · exact (h.composite id' u hu).mono (.resolve hid)

theorem persistent : TypeGraph.Persistent (Builds g origin) where
  refl h := .refl h.composite
  trans := .trans
  of_follows h hs hobjects _ := h.of_follows hs hobjects

end Builds
end TypeStore

namespace TypeGraph
open Creation TypeStore TypeSystem
variable {σ : Type} [TypeSystem σ] [FreshTags σ] {g : TypeGraph} {origin : σ}
  {under : List TypeIndex} {ti p : TypeIndex} {s₀ s : TypeStore σ} {averts : Halt → Prop} {fuel : Nat}
  {want : TypeIndex → Creation σ TypeObject} {t : TypeObject}

/-! ### Making types -/

section
omit [FreshTags σ]

omit [TypeSystem σ] in
theorem ofOption_bind {α β : Type} (a : α) (k : α → Creation σ β) : ofOption (some a) >>= k = k a := rfl

/-- The records of modifiers, enumerations and arrays. -/
theorem create_of_type? {r : TypeRecord} {c : Creation σ TypeObject} (hr : g.stream.type? ti = some r)
    (hc : (match r with
      | .modifier m => some (g.createModifier want ti m)
      | .enum e => some (g.createEnum want ti e)
      | .array a => some (createArray want ti a)
      | _ => none) = some c) : g.create want ti = c := by
  obtain ⟨hsimple, record, hrecord⟩ := exists_record_of_type? hr
  rw [TypeStream.type?_eq, hrecord, Option.bind_some] at hr
  rw [create, hsimple, if_neg Bool.false_ne_true, hrecord, ofOption_bind, hr, ofOption_bind]
  cases r with
  | modifier | enum | array => exact Option.some.inj hc
  | _ => cases hc

end

section
variable (hunder : s₀.underway = under)
include hunder

theorem WantsCarried.wp_composite (hw : g.WantsCarried origin (Builds g origin) under want p)
    (hs : Carries g origin (Builds g origin) under s₀ s) :
    wp g.stream.MakingAverts (want p) (fun r s' => Carries g origin (Builds g origin) under s₀ s'
      ∧ ∀ u, r = some u → s'.Holds (g.target p) u) s := by
  refine wp_mono (hw s hs.sound (hs.underway.trans hunder) (.refl hs.carried.composite)) ?_
  rintro r s' ⟨hs', hfound, hobject⟩
  refine ⟨hs.trans Builds.persistent hs', ?_⟩
  rintro u rfl
  obtain ⟨id, hid⟩ := hobject u rfl
  exact ⟨id, hid, hfound.1⟩

theorem WantsCarried.keeps_composite (hw : g.WantsCarried origin (Builds g origin) under want p) :
    Keeps g.stream.MakingAverts (Carries g origin (Builds g origin) under s₀) (want p) fun _ => True :=
  fun _ hs => wp_mono (hw.wp_composite hunder hs) fun _ _ hr => ⟨hr.1, fun _ _ => trivial⟩

end

omit [FreshTags σ] in
theorem wp_declareTag_composite (hs : Builds g origin s₀ s) (ti : TypeIndex) (size : Nat)
    (d : Declaration) (name : String) (ht : ∀ t : TypeObject, t.index = ti → t.size = size →
      s.Composite g origin t) :
    wp averts (declareTag ti size d name)
      (fun r s' => Builds g origin s₀ s' ∧ ∀ t, r = some t → s'.Composite g origin t) s := by
  simp only [declareTag, Creation.declare, Creation.change, wp_bind, wp_ask, wp_pure]
  have hfollows (h : TypeHandle) : Follows s.system
      (change (change (declare s.system d).2 h .start) h (.external true)) :=
    .change h _ (.change h _ (.declare d .refl))
  refine ⟨hs.of_follows (hfollows _) rfl, fun t heq => ?_⟩
  exact (ht t (Option.some.inj heq ▸ rfl) (Option.some.inj heq ▸ rfl)).mono (.of_follows (hfollows _) rfl)

section
variable (hunder : s₀.underway = under)
include hunder

theorem wp_createModifier_composite {r : ModifierRecord}
    (hr : g.stream.type? ti = some (.modifier r)) (hs : Carries g origin (Builds g origin) under s₀ s)
    (hw : g.WantsCarried origin (Builds g origin) under want r.modified) :
    wp g.stream.MakingAverts (g.createModifier want ti r)
      (fun a s' => Builds g origin s₀ s' ∧ ∀ t, a = some t → s'.Composite g origin t) s := by
  refine (wp_bind _ _).2 (wp_mono (hw.wp_composite hunder hs) fun a s₁ ha => ?_)
  obtain ⟨hs₁, hu⟩ := ha
  cases a with
  | none => exact ⟨hs₁.carried, nofun⟩
  | some u =>
    have hstart : Carries g origin (Builds g origin) under s₁ s₁ :=
      .refl Builds.persistent hs₁.sound hs₁.carried
    refine (keeps_qualify Builds.persistent.steady _ _).wp_bind hstart (fun h s₂ hs₂ _ => ?_)
      fun s₂ hs₂ => ?_
    · refine (wp_pure _).2 ⟨hs₁.carried.trans hs₂.carried, fun t heq => ?_⟩
      obtain rfl := Option.some.inj heq
      obtain ⟨state, hu'⟩ := (hu u rfl).mono hs₂.carried.toPersists
      exact .of_modifier hr hu' rfl
    · exact ⟨hs₁.carried.trans hs₂.carried, nofun⟩

theorem wp_createArray_composite {r : ArrayRecord} (hr : g.stream.type? ti = some (.array r))
    (hs : Carries g origin (Builds g origin) under s₀ s)
    (hw : g.WantsCarried origin (Builds g origin) under want r.element) :
    wp g.stream.MakingAverts (createArray want ti r)
      (fun a s' => Builds g origin s₀ s' ∧ ∀ t, a = some t → s'.Composite g origin t) s := by
  refine (wp_bind _ _).2 (wp_mono (hw.wp_composite hunder hs) fun a s₁ ha => ?_)
  obtain ⟨hs₁, hu⟩ := ha
  cases a with
  | none => exact ⟨hs₁.carried, nofun⟩
  | some u =>
    simp only [wp_bind, wp_ofOption]
    cases r.length.size? with
    | none => exact ⟨hs₁.carried, nofun⟩
    | some size =>
      simp only [wp_bind, wp_ite, wp_failure, wp_pure, Creation.derive, wp_ask]
      split_ifs with hbad
      · exact ⟨hs₁.carried, nofun⟩
      · have hderive : Follows s₁.system (derive s₁.system (.array u.handle (size / u.size))).2 :=
          .derive _ .refl
        refine ⟨hs₁.carried.of_follows hderive rfl, fun t heq => ?_⟩
        obtain rfl := Option.some.inj heq
        have hpersists : s₁.Persists { s₁ with system := (derive s₁.system _).2 } :=
          .of_follows hderive rfl
        obtain ⟨state, hu'⟩ := (hu u rfl).mono hpersists
        rw [not_or, not_not] at hbad
        refine .of_array hr hu' ⟨Nat.pos_of_ne_zero hbad.1, ?_, rfl, s₁.system, hs₁.sound.follows,
          rfl, .refl⟩
        exact (Nat.div_mul_cancel (Nat.dvd_of_mod_eq_zero hbad.2)).symm

theorem wp_createEnum_composite {e : EnumRecord} (hr : g.stream.type? ti = some (.enum e))
    (hs : Carries g origin (Builds g origin) under s₀ s)
    (hw : ∀ p, g.Refers ti p → g.WantsCarried origin (Builds g origin) under want p) :
    wp g.stream.MakingAverts (g.createEnum want ti e)
      (fun a s' => Builds g origin s₀ s' ∧ ∀ t, a = some t → s'.Composite g origin t) s := by
  have hkeeps (p : TypeIndex) (hp : g.Refers ti p) := (hw p hp).keeps_composite hunder
  refine (keeps_declaration Builds.persistent.steady (fun p hp => hkeeps p (.parent hp)) _ _).wp_bind hs
    (fun d s₁ hs₁ _ => ?_) fun s₁ hs₁ => ⟨hs₁.carried, nofun⟩
  have hunderlying := hw e.underlying (.reference hr List.mem_cons_self)
  refine (wp_bind _ _).2 (wp_mono (hunderlying.wp_composite hunder hs₁) fun a s₂ ha => ?_)
  obtain ⟨hs₂, hu⟩ := ha
  cases a with
  | none => exact ⟨hs₂.carried, nofun⟩
  | some u =>
    refine wp_declareTag_composite hs₂.carried ti _ _ _ fun t hindex hsize => ?_
    exact .of_enum (hindex ▸ hr) (hu u rfl) hsize

/-- What is made from a record is made from the types that it refers to. -/
theorem wp_create_composite (hw : ∀ p, g.Refers ti p → g.WantsCarried origin (Builds g origin) under want p)
    (hs : Carries g origin (Builds g origin) under s₀ s) :
    wp g.stream.MakingAverts (g.create want ti)
      (fun a s' => Builds g origin s₀ s' ∧ ∀ t, a = some t → s'.Composite g origin t) s := by
  have hpart {r : TypeRecord} {p : TypeIndex} (hr : g.stream.type? ti = some r)
      (hp : p ∈ g.references r) : g.WantsCarried origin (Builds g origin) under want p :=
    hw p (.reference hr hp)
  -- nothing is to be shown of the types of all other records
  have hother (hnone : ∀ t s', t.index = ti → TypeStore.Composite g origin s' t) :
      wp g.stream.MakingAverts (g.create want ti)
        (fun a s' => Builds g origin s₀ s' ∧ ∀ t, a = some t → s'.Composite g origin t) s := by
    refine wp_create_of_declare Builds.persistent.steady hs id
      (fun p hp => (hw p hp).keeps_composite hunder) (fun s' hs' => ⟨hs'.carried, nofun⟩)
      (fun s' t hs' ht => ⟨hs'.carried, fun t heq => ?_⟩) fun s' size d name hs' =>
        wp_declareTag_composite hs'.carried ti size d name fun t hindex _ => hnone t s' hindex
    exact hnone t s' (Option.some.inj heq ▸ ht.index)
  cases hr : g.stream.type? ti with
  | none =>
    refine hother fun t s' hindex => ⟨?_, ?_, ?_⟩ <;> (rw [hindex, hr]; exact nofun)
  | some r =>
    cases r with
    | modifier m =>
      rw [create_of_type? hr rfl]
      exact wp_createModifier_composite hunder hr hs (hpart hr List.mem_cons_self)
    | enum e =>
      rw [create_of_type? hr rfl]
      exact wp_createEnum_composite hunder hr hs hw
    | array a =>
      rw [create_of_type? hr rfl]
      exact wp_createArray_composite hunder hr hs (hpart hr List.mem_cons_self)
    | _ => refine hother fun t s' hindex => ⟨?_, ?_, ?_⟩ <;> (rw [hindex, hr]; exact nofun)

end

omit [FreshTags σ] in
theorem wp_store_builds (hs : Builds g origin s₀ s) (ht : s.Composite g origin t) :
    wp averts (store t) (fun _ s' => Builds g origin s₀ s') s :=
  wp_store_of (fun _ => hs.add ht) fun _ _ _ => (hs.add ht).of_follows .refl rfl

/-- All types are made from their parts, and stay so. -/
theorem carried_builds : Carried g origin (fun _ _ => True) (·.Composite g origin)
    (Builds g origin) where
  toPersistent := Builds.persistent
  start _ := trivial
  asks _ _ := trivial
  create _ _ hunder hs h hw := wp_create_composite hunder hw (.refl Builds.persistent hs h)
  ready_mark _ ht := ht.mono (.of_follows .refl rfl)
  store hs ht := wp_store_builds hs ht
  resolve h hid _ := h.resolve hid

end TypeGraph

namespace SymbolFile
open TypeGraph TypeSystem
variable {σ : Type} [TypeSystem σ] [FreshTags σ] {origin : σ} {f f' : SymbolFile σ}
  {q : TypeRequest} {qs : List TypeRequest} {ti : TypeIndex}

/-- The symbol file is sound, and all types in it are made from their parts. -/
structure Assembled (origin : σ) (f : SymbolFile σ) : Prop extends Sound origin f where
  composite : f.store.AllComposite f.graph origin

theorem assembled_of_ofDatabase? {demangler : Demangler} {database : Database}
    (h : ofDatabase? demangler database origin = some f) :
    Assembled origin f where
  toSound := sound_of_ofDatabase? h
  composite id t ht := by
    rw [store_of_ofDatabase? h] at ht
    exact nomatch ht

/-- One request leaves all types made from their parts. -/
theorem Assembled.perform? (hf : Assembled origin f) (h : f.perform? q = some f') :
    Assembled origin f' := by
  obtain ⟨hlater, hsound⟩ := hf.toSound.perform? h
  refine ⟨hsound, hlater.graph ▸ ?_⟩
  exact (hf.toSound.carried carried_builds (.refl hf.composite) h).composite

/-- Any number of requests leave all types made from their parts. -/
theorem Assembled.performAll? (hf : Assembled origin f) (h : f.performAll? qs = some f') :
    Assembled origin f' :=
  performAll?_induction (fun _ _ _ h₁ hq => h₁.perform? hq) hf h

end SymbolFile

/-! ### Arrays -/

/-- The length of an array that has been read has the bytes that its leaf asks for. -/
theorem TypeRecord.yields_decode_array (kind : Leaf) : Decoder.Yields (decode kind)
    fun t => ∀ a, t = .array a → a.length.WellFormed := by
  unfold decode
  split
  case h_1 =>
    refine .map (.bind_any fun _ => .bind_any fun _ => Numeric.yields_decode.bind fun _ hlength => ?_)
    refine .bind_any fun _ => .pure fun a heq => ?_
    cases heq
    exact hlength
  case h_13 | h_15 | h_16 | h_17 | h_18 =>
    repeat refine .bind_any fun _ => ?_
    exact .pure nofun
  case h_19 => exact .pure nofun
  all_goals exact .map fun _ _ _ _ => nofun

theorem TypeStream.wellFormed_length {s : TypeStream} {ti : TypeIndex} {a : ArrayRecord}
    (ha : s.type? ti = some (.array a)) : a.length.WellFormed := by
  rw [type?_eq] at ha
  obtain ⟨record, -, hrecord⟩ := Option.bind_eq_some_iff.1 ha
  obtain ⟨⟨t, rest⟩, hdecode, rfl⟩ := Option.map_eq_some_iff.1 hrecord
  exact TypeRecord.yields_decode_array _ _ _ _ hdecode a rfl

theorem ArrayRecord.sizeFrom?_eq_none_iff {a : ArrayRecord} (h : a.length.WellFormed) {element : Nat} :
    a.sizeFrom? element = none ↔ a.length.uint64? = none
      ∨ ∃ n, a.length.uint64? = some n ∧ (element = 0 ∨ ¬ (element : Int) ∣ n) := by
  rw [sizeFrom?, Numeric.size?_eq h]
  cases hn : a.length.uint64? with
  | none => simp
  | some n =>
    rw [Numeric.uint64?, Numeric.inRange?, Option.filter_eq_some_iff] at hn
    have hpos : 0 ≤ n := (of_decide_eq_true hn.2).1
    have hdvd : (element : Int) ∣ n ↔ n.toNat % element = 0 := by
      rw [← Int.toNat_of_nonneg hpos, Int.natCast_dvd_natCast, Nat.dvd_iff_mod_eq_zero, Int.toNat_natCast]
    rw [Option.map_some, Option.filter_some]
    simp [hdvd, or_iff_not_imp_left]

namespace TypeGraph
variable {g : TypeGraph} {P : BasicType → Prop} {ti : TypeIndex} {a : ArrayRecord} {n : Nat}

theorem hasSize_array (ha : g.stream.type? ti = some (.array a)) :
    g.HasSize P ti n ↔ ∃ k, g.HasSize P a.element k ∧ a.sizeFrom? k = some n := by
  rw [hasSize_iff_of_type? ha rfl]
  constructor
  · rintro ⟨_, ⟨⟩, -, ns, hparts, hn⟩
    obtain ⟨k, _, hk, hnil, rfl⟩ := List.forall₂_cons_left_iff.1 hparts
    exact ⟨k, hk, hn⟩
  · rintro ⟨k, hk, hn⟩
    exact ⟨_, rfl, nofun, [k], .cons hk .nil, hn⟩

end TypeGraph

namespace SymbolFile
open TypeGraph TypeSystem
variable {σ : Type} [TypeSystem σ] [FreshTags σ] {origin : σ} {f f₁ f₂ : SymbolFile σ}
  {ti : TypeIndex} {a : ArrayRecord} {e r : Option TypeId} {t u w : TypeObject} {counts : List Nat}

/-- There is no type for an array exactly if there is none for its element, or its length is not one of
an array of such elements. -/
theorem Sound.eq_none_iff_of_array (hfixed : BasicsFixed origin) (hf : Sound origin f)
    (ha : f.graph.stream.type? ti = some (.array a)) (he : f.typeOf a.element false = some (e, f₁))
    (hr : f.typeOf ti false = some (r, f₂)) :
    r = none ↔ e = none ∨ a.length.uint64? = none
      ∨ ∃ id u n, e = some id ∧ f₁.object? id = some u ∧ a.length.uint64? = some n
        ∧ (u.size = 0 ∨ ¬ (u.size : Int) ∣ n) := by
  have hsome := hf.isSome_typeOf hfixed hr
  have hsome' := hf.isSome_typeOf hfixed he
  simp only [hasSize_array ha] at hsome
  rw [← Option.not_isSome_iff_eq_none, hsome]
  cases e with
  | none =>
    refine iff_of_true (fun ⟨_, k, hk, _⟩ => ?_) (.inl rfl)
    exact nomatch hsome'.2 ⟨k, hk⟩
  | some id =>
    obtain ⟨hlater, hf₁, hid⟩ := hf.typeOf he
    obtain ⟨u, hu, -⟩ := hf₁.store.cached hid
    have hsize := hf₁.store.hasSize hid hu
    rw [hlater.graph] at hsize
    -- the element has the size of the type that has been found for it, and no other one
    have hnone : (¬ ∃ n k, f.graph.HasSize (MustHave origin) a.element k ∧ a.sizeFrom? k = some n)
        ↔ a.sizeFrom? u.size = none := by
      rw [Option.eq_none_iff_forall_ne_some]
      constructor
      · exact fun h n hn => h ⟨n, u.size, hsize.mono fun b hb => hb.mustHave hfixed, hn⟩
      · rintro h ⟨n, k, hk, hn⟩
        exact h n (hk.unique hsize ▸ hn)
    rw [hnone, ArrayRecord.sizeFrom?_eq_none_iff (TypeStream.wellFormed_length ha)]
    simp [show f₁.object? id = some u from hu]

/-- `u` has been made for the record at `ti`, or for the definition that this refers to. -/
def Made (f : SymbolFile σ) (ti : TypeIndex) (u : TypeObject) : Prop :=
  ∃ id, f.object? id = some u ∧ u.index = f.graph.target ti ∧ f.store.cached? u.index = some id

omit [FreshTags σ] in
/-- `t` is an array of arrays and so on down to `w`, with as many elements as in `counts`. -/
inductive Nest (origin : σ) (f : SymbolFile σ) : TypeObject → List Nat → TypeObject → Prop
  | nil (t : TypeObject) : Nest origin f t [] t
  | cons {t u w : TypeObject} {a : ArrayRecord} {count : Nat} {counts : List Nat} :
    f.graph.stream.type? t.index = some (.array a) → f.Made a.element u →
    TypeStore.ArrayOf origin f.store.system t count u → Nest origin f u counts w →
    Nest origin f t (count :: counts) w

omit [FreshTags σ] in
theorem Nest.size_eq (h : Nest origin f t counts w) : t.size = counts.prod * w.size := by
  induction h with
  | nil t => rw [List.prod_nil, Nat.one_mul]
  | cons _ _ harray _ ih => rw [harray.size, ih, List.prod_cons, Nat.mul_assoc]

theorem Sound.made (hf : Sound origin f) (h : f.store.Holds (f.graph.target ti) u) : f.Made ti u := by
  obtain ⟨id, hu, hindex⟩ := h
  exact ⟨id, hu, hindex, hf.store.object hu⟩

/-- By induction on what the type is made from. -/
theorem Assembled.exists_nest (hf : Assembled origin f) {n : Nat}
    (hn : f.graph.HasSize (MayHave origin) ti n) (ht : f.store.Holds (f.graph.target ti) t) :
    ∃ counts w, Nest origin f t counts w ∧ ∀ a, f.graph.stream.type? w.index ≠ some (.array a) := by
  induction hn generalizing t with
  | @mk ti r n size hr _ _ _ ih =>
    by_cases htarget : f.graph.target ti = ti
    · by_cases harray : ∃ a, f.graph.stream.type? t.index = some (.array a)
      · obtain ⟨a, ha⟩ := harray
        obtain ⟨id, hobject, hindex⟩ := ht
        rw [htarget] at hindex
        have hr' : f.graph.recipe? ti = f.graph.recordRecipe? (.array a) :=
          recipe?_of_type? (hindex ▸ ha) rfl
        obtain rfl := Option.some.inj (hr.symm.trans hr')
        obtain ⟨count, u, hu, hof⟩ := (hf.composite id t hobject).array ha
        obtain ⟨counts, w, hnest, hw⟩ := ih a.element List.mem_cons_self hu
        exact ⟨count :: counts, w, .cons ha (hf.made hu) hof hnest, hw⟩
      · exact ⟨[], t, .nil t, fun a ha => harray ⟨a, ha⟩⟩
    · rw [recipe?, if_neg htarget] at hr
      obtain rfl := Option.some.inj hr
      exact ih (f.graph.target ti) List.mem_cons_self (by rwa [target_target])

/-- Sizes follow from those of the parts, all of which have been made, whatever has been asked for. There
is no type for an array exactly if there is none for its element, or its length is no number, or no
multiple of the size of its element, or that has no size. For that the type system has to keep to what it
promises of its built-in types (`BasicsFixed`). -/
theorem sizes_compose {demangler : Demangler} {database : Database} {system : σ} {f₀ : SymbolFile σ}
    {qs : List TypeRequest} (hopen : ofDatabase? demangler database system = some f₀) (hf : f₀.performAll? qs = some f) :
    (∀ k id, f.store.cached? k = some id → ∃ t, f.object? id = some t ∧ t.index = f.graph.target k
      ∧ (∀ r, database.types.type? t.index = some (.modifier r) →
        ∃ u, f.Made r.modified u ∧ t.size = u.size)
      ∧ (∀ r, database.types.type? t.index = some (.enum r) →
        ∃ u, f.Made r.underlying u ∧ t.size = u.size)
      ∧ (∀ r, database.types.type? t.index = some (.array r) →
        ∃ count u, f.Made r.element u ∧ TypeStore.ArrayOf system f.store.system t count u)
      ∧ ∃ counts w, Nest system f t counts w
        ∧ ∀ a, database.types.type? w.index ≠ some (.array a))
    ∧ (∀ t counts w, Nest system f t counts w → t.size = counts.prod * w.size)
    ∧ (BasicsFixed system → ∀ ti a, database.types.type? ti = some (.array a) →
      (database.types.ChainsEnd → ∀ p, (f.typeOf p false).isSome)
      ∧ ∀ e f₁ r f₂, f.typeOf a.element false = some (e, f₁) → f.typeOf ti false = some (r, f₂) →
        (r = none ↔ e = none ∨ a.length.uint64? = none
          ∨ ∃ id u n, e = some id ∧ f₁.object? id = some u ∧ a.length.uint64? = some n
            ∧ (u.size = 0 ∨ ¬ (u.size : Int) ∣ n))) := by
  have hassembled := (assembled_of_ofDatabase? hopen).performAll? hf
  rw [← stream_of_performAll? hopen hf]
  refine ⟨fun k id hid => ?_, fun _ _ _ hnest => hnest.size_eq, fun hfixed ti a ha => ⟨?_, ?_⟩⟩
  · obtain ⟨t, ht, hindex⟩ := hassembled.store.cached hid
    have hc := hassembled.composite id t ht
    refine ⟨t, ht, hindex, fun r hr => ?_, fun r hr => ?_, fun r hr => ?_, ?_⟩
    · obtain ⟨u, hu, hsize⟩ := hc.modifier hr
      exact ⟨u, hassembled.made hu, hsize⟩
    · obtain ⟨u, hu, hsize⟩ := hc.enum hr
      exact ⟨u, hassembled.made hu, hsize⟩
    · obtain ⟨count, u, hu, hof⟩ := hc.array hr
      exact ⟨count, u, hassembled.made hu, hof⟩
    · exact hassembled.exists_nest (hassembled.store.hasSize hid ht) ⟨id, ht, hindex⟩
  · exact fun hends p => Option.isSome_map.symm.trans
      ((hassembled.leads_typeOf p false).isSome hends)
  · exact fun e f₁ r f₂ => hassembled.eq_none_iff_of_array hfixed ha

end SymbolFile

/-! ### Arrays of arrays of a union -/

/-- A reference to the union is at `0x1000`, an array of three of these at `0x1001`, and of two such arrays
at `0x1002`. The array at `0x1003` has one byte too many. The union is at `0x1004`. -/
def nestedArrays : TypeStream :=
  let name := Text.utf8 "U"
  let (reference, t) := TypeList.addUnion {} name none .none 0 true
  let (inner, t) := t.addArray reference 12
  let (_, t) := t.addArray inner 24
  let (_, t) := t.addArray inner 25
  let (_, t) := t.addUnion name none .none 4 false
  match TypeStream.parse .types (.ofBytes t.encode) with
  | .ok s => s
  | .error _ => .empty .types

theorem read_nestedArrays : (∀ ti ∈ nestedArrays.indexes, nestedArrays.nextList? ti = none)
    ∧ nestedArrays.type? ⟨0x1001⟩ = some (.array ⟨⟨0x1000⟩, .uint64, .ofNat 12, []⟩)
    ∧ nestedArrays.type? ⟨0x1002⟩ = some (.array ⟨⟨0x1001⟩, .uint64, .ofNat 24, []⟩)
    ∧ nestedArrays.type? ⟨0x1003⟩ = some (.array ⟨⟨0x1001⟩, .uint64, .ofNat 25, []⟩) := by
  decide +kernel

namespace SymbolFile

theorem sizes_compose_nested : ∃ (f₀ f : SymbolFile TypeModel) (t u : TypeObject) (count : Nat),
    ofDatabase? Decorated.demangler (.ofTypes nestedArrays) {} = some f₀
      ∧ f₀.performAll? [.typeOf ⟨0x1002⟩ false] = some f
      ∧ t.size = 24 ∧ u.size = 12 ∧ f.Made ⟨0x1001⟩ u
      ∧ TypeStore.ArrayOf {} f.store.system t count u ∧ count = 2
      ∧ ∀ r f', f.typeOf ⟨0x1003⟩ false = some (r, f') → r = none := by
  obtain ⟨_, hinner, ha, hbad⟩ := read_nestedArrays
  rw [← Database.types_ofTypes nestedArrays] at hinner ha hbad
  have hrun : ((ofDatabase? Decorated.demangler (.ofTypes nestedArrays) ({} : TypeModel)).bind fun f₀ =>
      (f₀.performAll? [.typeOf ⟨0x1002⟩ false]).bind fun f => (f.store.cached? ⟨0x1002⟩).bind fun id =>
        (f.store.cached? ⟨0x1001⟩).bind fun id' => (f.object? id').map fun u =>
          ((f.object? id).map (·.size), u.size)) = some (some 24, 12) := by
    decide +kernel
  obtain ⟨f₀, hopen, hrun⟩ := Option.bind_eq_some_iff.1 hrun
  obtain ⟨f, hf, hrun⟩ := Option.bind_eq_some_iff.1 hrun
  obtain ⟨id, hid, hrun⟩ := Option.bind_eq_some_iff.1 hrun
  obtain ⟨id', hid', hrun⟩ := Option.bind_eq_some_iff.1 hrun
  obtain ⟨u, hu, heq⟩ := Option.map_eq_some_iff.1 hrun
  obtain ⟨hsize, hsize'⟩ := Prod.mk.inj heq
  have hgraph : f.graph.stream = (Database.ofTypes nestedArrays).types := stream_of_performAll? hopen hf
  -- an array is no forward reference
  have htarget {ti : TypeIndex} {a : ArrayRecord}
      (ha : (Database.ofTypes nestedArrays).types.type? ti = some (.array a)) :
      f.graph.target ti = ti := by
    rw [TypeGraph.target_eq_definition, hgraph, TypeStream.definition_of_type? ha rfl]
  obtain ⟨hcached, -, hnone⟩ := sizes_compose hopen hf
  obtain ⟨t, ht, hindex, -, -, harray, -⟩ := hcached _ _ hid
  rw [htarget ha] at hindex
  obtain ⟨count, v, hv, hof⟩ := harray _ (hindex ▸ ha)
  have hv' := hv
  obtain ⟨id'', hobject, hindex', hid''⟩ := hv'
  rw [hindex', htarget hinner, hid'] at hid''
  obtain rfl := Option.some.inj hid''
  obtain rfl := Option.some.inj (hu.symm.trans hobject)
  rw [ht, Option.map_some, Option.some.injEq] at hsize
  refine ⟨f₀, f, t, u, count, hopen, hf, hsize, hsize', hv, hof, ?_, fun r f' hr => ?_⟩
  · have hproduct := hof.size
    rw [hsize, hsize'] at hproduct
    omega
  · have he : f.typeOf ⟨0x1001⟩ false = some (some id', f) := typeOf_of_cached hid'
    refine ((hnone (fun _ _ _ => rfl) _ _ hbad).2 _ _ _ _ he hr).2 (.inr (.inr ?_))
    exact ⟨id', u, 25, rfl, hu, by decide, .inr (by rw [hsize']; decide)⟩

end SymbolFile
end Pdb
