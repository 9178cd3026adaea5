import Pdb.Proofs.NestedMembers
import Pdb.Proofs.TagDefinitions
import Pdb.Proofs.Utf8

/-! # What completed tag types are made of

After any requests each tag type that is complete is made of the members of its record: of those that
reading the field list yields, in their order, each once (`Composed`). What a member adds, and the
reasons for which one is left out, are those of `TypeGraph.Adds`; whether a type can be made depends
neither on the order of the requests nor on what is complete (`Sound.isSome_handle?_iff`). Completing one
tag type changes no other (`complete_composes`). It succeeds for all definitions whose members can be
read, unless a data member is too far away for a place in bits (`Furnished.completes_or_overflows`).
-/

namespace Pdb

namespace SymbolFile
open TypeGraph TypeStore TypeSystem

section
variable {σ : Type} [TypeSystem σ] [FreshTags σ] {origin : σ} {f : SymbolFile σ} {d : TagDecl}
  {ti list : TypeIndex} {r : TypeRecord} {type : TypeHandle}

/-- The first type that is asked for may be a tag type, which then waits for its members. -/
theorem exists_forward {demangler : Demangler} {database : Database} {system : TypeModel}
    {f₀ : SymbolFile TypeModel} {n : Nat} (hopen : ofDatabase? demangler database system = some f₀)
    (hends : database.types.ChainsEnd) (henums : database.types.EnumsSimple)
    (hr : database.types.type? ti = some r) (htag : r.isTag)
    (hforward : r.isForwardRef = false) (hsize : f₀.graph.HasSize (MustHave system) ti n) :
    ∃ f type d, f₀.performAll? [.typeOf ti false] = some f ∧ f.store.system.tagOf? type = some d
      ∧ f.store.declarations.find? d = some ⟨ti, .forward⟩ := by
  have hfixed : BasicsFixed system := fun _ _ _ => rfl
  have hsound := sound_of_ofDatabase? hopen
  have hgraph := graph_of_ofDatabase? hopen
  have hlead := (hsound.leads_typeOf ti false).isSome (hgraph ▸ hends)
  obtain ⟨⟨id?, f⟩, hget⟩ := Option.isSome_iff_exists.1 (Option.isSome_map.symm.trans hlead)
  have hsome := (hsound.isSome_typeOf hfixed hget).2 ⟨n, hsize⟩
  obtain ⟨id, rfl⟩ := Option.isSome_iff_exists.1 hsome
  have hinformed := informed_of_ofDatabase? hopen
    (f₀.graph.enclosure TypeModel.reading (MustHave system))
  obtain ⟨t, _, hindex, _, hknown⟩ := hinformed.exists_object hfixed (hgraph ▸ henums) hget
  rw [← hgraph] at hr
  rw [target_eq_definition, TypeStream.definition_of_type? hr hforward] at hindex
  obtain ⟨d, henters⟩ := hknown.enters (hindex ▸ hr) htag
  obtain ⟨⟨ti', state⟩, he, hti⟩ := henters.entry
  obtain rfl := hti.trans hindex
  have hgrows : Creation.Keeps (fun _ => False) (Grown (fun _ => False) f₀.store) (f₀.graph.get ti')
      fun _ => True :=
    keeps_get_grown (fun d e he => hsound.store.lt_of_entry he) ti'
  have hrun : (f₀.run (f₀.graph.get ti')).map (·.2) = some f := congrArg (Option.map (·.2)) hget
  obtain ⟨_, hgrown, _⟩ := of_run (hgrows f₀.store (.refl _)) hrun
  refine ⟨f, t.handle, d, ?_, henters.tagOf, ?_⟩
  · rw [performAll?, List.foldlM_cons, perform?, hget]
    rfl
  · -- there were no entries before, so that this one is new and has not been completed
    rcases hgrown.entered he with hold | rfl
    · rw [store_of_ofDatabase? hopen] at hold
      cases hold
    · exact he

end

/-! ### What a complete tag type is made of -/

section
variable {σ : Type} [TypeSystem σ]

/-- What the type at an index is called, for one who asks for it. -/
def handle? (f : SymbolFile σ) (ti : TypeIndex) : Option TypeHandle :=
  (f.typeOf ti false).bind fun (id?, f) => (id?.bind f.object?).map (·.handle)

variable [FreshTags σ] {origin : σ} {f : SymbolFile σ} {ti : TypeIndex}

theorem Sound.isSome_handle?_iff (hf : Sound origin f) (hfixed : BasicsFixed origin)
    (hends : f.graph.stream.ChainsEnd) :
    (f.handle? ti).isSome ↔ ∃ n, f.graph.HasSize (MustHave origin) ti n := by
  have hlead := (hf.leads_typeOf ti false).isSome hends
  obtain ⟨⟨id?, f'⟩, hget⟩ := Option.isSome_iff_exists.1 (Option.isSome_map.symm.trans hlead)
  rw [← hf.isSome_typeOf hfixed hget, handle?, hget]
  obtain ⟨_, hf', hgot⟩ := hf.typeOf hget
  cases id? with
  | none => exact Iff.rfl
  | some id =>
    obtain ⟨t, ht, _⟩ := hf'.store.cached hgot
    simp [object?, ht]

end

variable {demangler : Demangler} {origin system : TypeModel} {f f' f₀ : SymbolFile TypeModel}
  {q : TypeRequest} {qs : List TypeRequest} {d : TagDecl} {ti : TypeIndex} {type : TypeHandle}
  {database : Database}

theorem names_handle? (hf : Sound origin f) : f.graph.Names origin f.store f.handle? where
  made hid ht := by
    rw [handle?, typeOf_of_cached hid]
    exact congrArg (Option.map _) ht
  missing {p} hnone := by
    rw [handle?]
    rcases htype : f.typeOf p false with _ | ⟨_ | id, f'⟩
    · rfl
    · rfl
    · obtain ⟨n, hn⟩ := (hf.isSome_typeOf (fun _ _ _ => rfl) htype).1 rfl
      exact absurd hn (hnone n)

/-- Each tag type is blank or has been completed. -/
structure Furnished (origin : TypeModel) (f : SymbolFile TypeModel) : Prop
    extends Sound origin f where
  alive : Alive origin f.store
  completed : f.graph.AllCompleted origin f.store

theorem furnished_of_ofDatabase? (h : ofDatabase? demangler database origin = some f) :
    Furnished origin f where
  toSound := sound_of_ofDatabase? h
  alive := alive_of_ofDatabase? h
  completed := by
    rw [store_of_ofDatabase? h]
    exact nofun

theorem Furnished.perform? (hf : Furnished origin f) (h : f.perform? q = some f') :
    Furnished origin f' := by
  obtain ⟨hlater, hsound⟩ := hf.toSound.perform? h
  refine ⟨hsound, (alive_perform? hf.toSound hf.alive h).1, ?_⟩
  rw [hlater.graph]
  -- making types leaves what is complete alone
  have hmade (s : TypeStore TypeModel) (hs : Reaches f.graph origin [] [] f.store s
      ∧ Holds f.store s ∧ Grown (fun _ => False) f.store s) : f.graph.AllCompleted origin s :=
    hf.completed.grown hf.store ⟨hs.1.cached, fun ht => ⟨_, hs.2.1 _ _ ht, rfl⟩⟩ hs.2.2
  have hget (ti : TypeIndex) : Creation.Keeps f.graph.stream.MakingAverts (fun s =>
      Reaches f.graph origin [] [] f.store s ∧ Holds f.store s ∧ Grown (fun _ => False) f.store s)
      (f.graph.get ti) fun _ => True := by
    intro s ⟨hreaches, hholds, hgrown⟩
    have hgrows : Creation.Keeps (fun _ => False) (Grown (fun _ => False) f.store) (f.graph.get ti)
        fun _ => True :=
      keeps_get_grown (fun d e he => hf.store.lt_of_entry he) ti
    refine Creation.wp_mono (Creation.wp_and (keeps_get hf.underway ti s hreaches)
      (Creation.wp_and (keeps_get_holds f.store ti s hholds) (hgrows s hgrown))) fun r s' hr => ?_
    exact ⟨⟨hr.1.1, hr.2.1.1, hr.2.2.1⟩, fun _ _ => trivial⟩
  exact of_perform? ⟨.refl hf.store, fun _ _ h => h, .refl f.store⟩ hget hmade
    (wp_complete_completed hf.underway hf.store hf.alive hf.completed) h

theorem Furnished.performAll? (hf : Furnished origin f) (h : f.performAll? qs = some f') :
    Furnished origin f' :=
  performAll?_induction (fun _ _ _ h₁ hq => h₁.perform? hq) hf h

/-- A tag type is made of the members of its record, and has exact places for its fields. -/
structure Composed (f : SymbolFile TypeModel) (ti : TypeIndex) (tag : ModelTag) (t : TagShape)
    (ms : List Member) (layout : RecordLayout) : Prop where
  index : t.index = ti
  record : ∃ r, f.graph.stream.type? ti = some r ∧ r.isForwardRef = false
    ∧ r.fieldList? = some t.fieldList ∧ t.integers? = r.enumerators? f.graph.stream
    ∧ t.uniqueName? = r.uniqueName?
  access : t.defaultAccess = f.graph.stream.defaultAccess ti
  members : f.graph.stream.fields? t.fieldList = some ms
  layout_eq : tag.layout = some layout
  added : ∃ adds, List.Forall₂ (f.graph.Adds t f.handle?) ms adds ∧ AddedUp tag layout adds
  fits : ∀ p ∈ layout.fields, p.2 < 2 ^ 64

/-- It has what is computed. -/
theorem Composed.addedUp {tag : ModelTag} {t : TagShape} {ms : List Member} {layout : RecordLayout}
    (h : f.Composed ti tag t ms layout) :
    AddedUp tag layout (ms.map (f.graph.additions t f.handle?)) := by
  obtain ⟨adds, hadds, hadded⟩ := h.added
  have hms (m : Member) (hm : m ∈ ms) := TypeStream.wellFormed_of_mem_fields? h.members hm
  rwa [(forall₂_adds_iff hms).1 hadds] at hadded

/-- The members are those of the record at the index. -/
theorem Composed.members_eq {tag : ModelTag} {t : TagShape} {ms ms' : List Member}
    {layout : RecordLayout} {r : TypeRecord} {list : TypeIndex} (h : f.Composed ti tag t ms layout)
    (hr : f.graph.stream.type? ti = some r) (hlist : r.fieldList? = some list)
    (hms : f.graph.stream.fields? list = some ms') :
    ms = ms' ∧ t.integers? = r.enumerators? f.graph.stream := by
  obtain ⟨r', hr', _, hlist', hintegers, _⟩ := h.record
  obtain rfl := Option.some.inj (hr.symm.trans hr')
  obtain rfl := Option.some.inj (hlist.symm.trans hlist')
  exact ⟨Option.some.inj (h.members.symm.trans hms), hintegers⟩

theorem Furnished.exists_composed (hf : Furnished origin f)
    (hd : f.store.declarations.find? d = some ⟨ti, .full⟩) : ∃ tag t ms layout,
      f.store.system.tags[d]? = some tag ∧ f.Composed ti tag t ms layout := by
  obtain ⟨tag, t, ms, layout, htag, hcompleted⟩ := hf.completed d ti hd
  obtain ⟨handle, hshape⟩ := hcompleted.shape
  obtain ⟨haccess, hrecord⟩ := members_of_shape? hshape
  have hms (m : Member) (hm : m ∈ ms) := TypeStream.wellFormed_of_mem_fields? hcompleted.members hm
  have hnames := names_handle? hf.toSound
  have hadded := hcompleted.added _ hnames
  refine ⟨tag, t, ms, layout, htag, (shape?_eq_some hshape).1, hrecord, haccess, hcompleted.members,
    hcompleted.layout_eq, ⟨_, (forall₂_adds_iff hms).2 rfl, hadded⟩, fun p hp => ?_⟩
  rw [hadded.places, List.flatMap_map, List.mem_map] at hp
  obtain ⟨x, hx, rfl⟩ := hp
  obtain ⟨m, hm, hx⟩ := List.mem_flatMap.1 hx
  exact place_lt_of_not_overflows (hms m hm) hnames (hcompleted.fits m hm) hx

/-- Whatever has been asked for, a tag type that is complete is made of the members of its record. -/
theorem exists_composed (hopen : ofDatabase? demangler database system = some f₀)
    (hf : f₀.performAll? qs = some f) (hd : f.store.declarations.find? d = some ⟨ti, .full⟩) :
    ∃ tag t ms layout, f.store.system.tags[d]? = some tag ∧ f.Composed ti tag t ms layout :=
  ((furnished_of_ofDatabase? hopen).performAll? hf).exists_composed hd

theorem Sound.complete_frame (hf : Sound origin f) (htag : f.store.system.tagOf? type = some d)
    (hentry : f.store.declarations.find? d = some ⟨ti, .forward⟩)
    (hcomplete : f.complete type = some (.ok true, f')) :
    f'.store.declarations.find? d = some ⟨ti, .full⟩
    ∧ (∀ d', d' ≠ d → d' < f.store.system.tags.size →
      f'.store.system.tags[d']? = f.store.system.tags[d']?)
    ∧ ∀ d' tag, f.store.system.tags.size ≤ d' → f'.store.system.tags[d']? = some tag →
      tag.IsBlank := by
  obtain ⟨d', ti', htag', hfull⟩ := complete_true hcomplete
  obtain rfl := Option.some.inj (htag.symm.trans htag')
  have hrun : (f.run (f.graph.complete type)).map (·.2) = some f' := by
    have hmap := congrArg (Option.map (·.2)) hcomplete
    rwa [SymbolFile.complete, Option.map_map] at hmap
  obtain ⟨_, hframe, hfresh, hentries⟩ :=
    of_run (wp_complete_frame hf.underway hf.store type) hrun
  obtain ⟨state, hentry'⟩ := hentries d _ hentry
  obtain ⟨rfl, _⟩ := DeclStatus.mk.inj (Option.some.inj (hfull.symm.trans hentry'))
  refine ⟨hfull, fun d' hne hlt => hframe d' ?_ hlt, hfresh⟩
  rw [htag]
  intro heq
  exact hne (Option.some.inj heq).symm

/-- Completing a definition either halts at an overflow, namely if a data member with a type is too far
away for a place in bits, or it succeeds. -/
theorem Furnished.completes_or_overflows {r : TypeRecord} {list : TypeIndex} {ms : List Member}
    (hf : Furnished origin f) (hends : f.graph.stream.ChainsEnd)
    (htag : f.store.system.tagOf? type = some d)
    (hentry : f.store.declarations.find? d = some ⟨ti, .forward⟩)
    (hr : f.graph.stream.type? ti = some r) (hforward : r.isForwardRef = false)
    (hlist : r.fieldList? = some list)
    (hhas : list = .none ∨ f.graph.stream.leaf? list = some .fieldList)
    (hms : f.graph.stream.fields? list = some ms) :
    (∃ f', f.complete type = some (.ok true, f')) ∧ (∀ m ∈ ms, ¬ f.graph.Overflows origin m)
      ∨ f.OverflowsAt (.complete type) ∧ ∃ m ∈ ms, f.graph.Overflows origin m := by
  obtain ⟨t, hshape, rfl⟩ := exists_shape? hr hforward hlist type
  have hwp := wp_complete_placed hf.underway hf.store hf.alive htag hentry
    (hf.completing ▸ List.not_mem_nil) hshape (hasMembers_iff.2 hhas) hms
  rw [Creation.wp] at hwp
  rcases hc : (f.graph.complete type).runOn f.store with ⟨_ | _, s⟩ | ⟨r', s⟩ <;> rw [hc] at hwp
  · exact absurd hends hwp
  · refine .inr ⟨by rw [OverflowsAt, overflown?, hc]; rfl, ?_⟩
    by_contra hnone
    exact hwp fun m hm hover => hnone ⟨m, hm, hover⟩
  · obtain ⟨rfl, hfit⟩ := hwp
    exact .inl ⟨⟨{ f with store := s }, by rw [complete, run_of_runOn hc]; rfl⟩, hfit⟩

/-- Completing succeeds for a definition with members that have places in bits. -/
theorem Furnished.exists_complete {r : TypeRecord} {list : TypeIndex} (hf : Furnished origin f)
    (hends : f.graph.stream.ChainsEnd) (htag : f.store.system.tagOf? type = some d)
    (hentry : f.store.declarations.find? d = some ⟨ti, .forward⟩)
    (hr : f.graph.stream.type? ti = some r) (hforward : r.isForwardRef = false)
    (hlist : r.fieldList? = some list)
    (hhas : list = .none ∨ f.graph.stream.leaf? list = some .fieldList)
    (hfit : ∀ ms ∈ f.graph.stream.fields? list, ∀ m ∈ ms, f.graph.stream.Fits m) :
    ∃ f', f.complete type = some (.ok true, f') := by
  obtain ⟨ms, hms⟩ := Option.isSome_iff_exists.1
    (TypeStream.isSome_fields?_iff.2 (.inr (hends list)))
  rcases hf.completes_or_overflows hends htag hentry hr hforward hlist hhas hms with h | ⟨_, m, hm, h⟩
  · exact h.1
  · exact absurd h (not_overflows_of_fits (TypeStream.wellFormed_of_mem_fields? hms hm)
      (hfit ms hms m hm))

/-- When a tag type is completed, what its members add is added once and in their order. The layout
has the same fields, no other tag type is changed, and those that are new are blank. -/
theorem complete_composes (hopen : ofDatabase? demangler database system = some f₀)
    (hf : f₀.performAll? qs = some f) (htag : f.store.system.tagOf? type = some d)
    (hentry : f.store.declarations.find? d = some ⟨ti, .forward⟩)
    (hcomplete : f.complete type = some (.ok true, f')) :
    (∃ tag t ms layout, f'.store.system.tags[d]? = some tag ∧ f'.Composed ti tag t ms layout
      ∧ layout.fields.map Prod.fst = tag.fields.map (·.name))
    ∧ (∀ d', d' ≠ d → d' < f.store.system.tags.size →
      f'.store.system.tags[d']? = f.store.system.tags[d']?)
    ∧ (∀ d' tag, f.store.system.tags.size ≤ d' → f'.store.system.tags[d']? = some tag →
      tag.IsBlank)
    ∧ (database.types.ChainsEnd → ∀ p, (f'.handle? p).isSome
      ↔ ∃ n, f'.graph.HasSize (MustHave system) p n) := by
  have hfurnished : Furnished system f := (furnished_of_ofDatabase? hopen).performAll? hf
  have hrequest : f.perform? (.complete type) = some f' := by
    rw [SymbolFile.perform?, hcomplete, Option.map_some]
  have hfurnished' : Furnished system f' := hfurnished.perform? hrequest
  obtain ⟨hfull, hframe, hfresh⟩ := hfurnished.complete_frame htag hentry hcomplete
  obtain ⟨tag, t, ms, layout, hmade, hcomposed⟩ := hfurnished'.exists_composed hfull
  refine ⟨⟨tag, t, ms, layout, hmade, hcomposed, hcomposed.addedUp.names_eq⟩, hframe, hfresh,
    fun hends p => hfurnished'.isSome_handle?_iff (fun _ _ _ => rfl) ?_⟩
  rwa [(hfurnished.toSound.perform? hrequest).1.graph, stream_of_performAll? hopen hf]

/-- In a database in which chains of members end, a definition that has a size can be asked for, and be
completed if its members have places in bits. -/
theorem exists_completed (demangler : Demangler) {list : TypeIndex} {n : Nat} {r : TypeRecord}
    (hends : database.types.ChainsEnd)
    (henums : database.types.EnumsSimple) (hr : database.types.type? ti = some r) (htag : r.isTag)
    (hforward : r.isForwardRef = false) (hlist : r.fieldList? = some list)
    (hhas : list = .none ∨ database.types.leaf? list = some .fieldList)
    (hfit : ∀ ms ∈ database.types.fields? list, ∀ m ∈ ms, database.types.Fits m) (system : TypeModel)
    (hsize : ∀ g : TypeGraph, g.stream = database.types → g.HasSize (MustHave system) ti n) :
    ∃ f₀ f f' type d, ofDatabase? demangler database system = some f₀
      ∧ f₀.performAll? [.typeOf ti false] = some f ∧ f.store.system.tagOf? type = some d
      ∧ f.store.declarations.find? d = some ⟨ti, .forward⟩
      ∧ f.complete type = some (.ok true, f') := by
  obtain ⟨f₀, hopen⟩ := exists_ofDatabase? demangler hends system
  have hgraph := graph_of_ofDatabase? hopen
  obtain ⟨f, type, d, hf, htagOf, hentry⟩ :=
    exists_forward hopen hends henums hr htag hforward (hsize _ hgraph)
  have hfurnished : Furnished system f := (furnished_of_ofDatabase? hopen).performAll? hf
  rw [← stream_of_performAll? hopen hf] at hends hr hhas hfit
  obtain ⟨f', hcomplete⟩ :=
    hfurnished.exists_complete hends htagOf hentry hr hforward hlist hhas hfit
  exact ⟨f₀, f, f', type, d, hopen, hf, htagOf, hentry, hcomplete⟩

end SymbolFile

/-! A stream with a class that has members of many kinds, and with an enumeration -/

/-- The bit field is the last three bits of the byte at 4. There is no type for the member behind it, and
a class has no enumerators. -/
def variousMembers (function bits functions : TypeIndex) : List Member := [
  .method .isPublic function none (Text.utf8 "m"),
  .overloads 3 functions (Text.utf8 "o"),
  .static ⟨0⟩ ⟨0x74⟩ (Text.utf8 "s"),
  .data .isPublic bits (.ofNat 4) (Text.utf8 "b"),
  .data .isPublic ⟨0x2000⟩ (.ofNat 8) (Text.utf8 "lost"),
  .enumerator .isPublic (.ofNat 1) (Text.utf8 "e")]

/-- An overload set with a public function that introduces a virtual one, one without a type, a private
static one, and an entry that is cut short. -/
def overloadEntries (function : TypeIndex) : Bytes :=
  [TypeList.method ⟨0x13⟩ function, TypeList.method ⟨0x0a⟩ ⟨0x2000⟩,
    TypeList.method ⟨0x09⟩ function].flatMap MethodEntry.encode ++ [0x13, 0, 0, 0] ++ function.encode

/-- The class is at `0x1005`, and the enumeration at `0x1007`. -/
def variousTypes : TypeStream :=
  let (function, t) := TypeList.addProcedure {} ⟨0x03⟩ 0 []
  let (bits, t) := t.add .bitField (.bitField ⟨⟨0x75⟩, 3, 5⟩)
  let (functions, t) := t.add .methodList (.methodList (overloadEntries function))
  let (fields, t) := t.addFields (variousMembers function bits functions)
  let (_, t) := t.addClass .class_ (Text.utf8 "C") none fields 16 false
  let (fields, t) := t.addFields [.enumerator .isPublic ⟨.char, [0xfe]⟩ (Text.utf8 "a")]
  let (_, t) := t.addEnum (Text.utf8 "E") none ⟨0x20⟩ fields false
  match TypeStream.parse .types (.ofBytes t.encode) with
  | .ok s => s
  | .error _ => .empty .types

def variousEnum : EnumRecord where
  count := 0
  properties := ⟨0⟩
  underlying := ⟨0x20⟩
  fieldList := ⟨0x1006⟩
  name := Text.utf8 "E"
  uniqueName := none

theorem read_variousTypes : (∀ ti ∈ variousTypes.indexes, variousTypes.nextList? ti = none)
    ∧ variousTypes.EnumsSimple := by
  decide +kernel

theorem type?_variousTypes : variousTypes.type? ⟨0x1000⟩ = some (.argList [])
    ∧ variousTypes.type? ⟨0x1001⟩ = some (.procedure ⟨⟨0x03⟩, 0, 0, 0, ⟨0x1000⟩⟩)
    ∧ variousTypes.type? ⟨0x1002⟩ = some (.bitField ⟨⟨0x75⟩, 3, 5⟩)
    ∧ variousTypes.type? ⟨0x1003⟩ = some (.methodList (overloadEntries ⟨0x1001⟩))
    ∧ variousTypes.type? ⟨0x1007⟩ = some (.enum variousEnum)
    ∧ variousTypes.type? ⟨0x2000⟩ = none := by
  decide +kernel

theorem members_variousTypes : variousTypes.DefinesClass ⟨0x1005⟩ ⟨0x1004⟩ 16
    ∧ variousTypes.defaultAccess ⟨0x1005⟩ = .private_
    ∧ variousTypes.leaf? ⟨0x1004⟩ = some .fieldList ∧ variousTypes.leaf? ⟨0x1006⟩ = some .fieldList
    ∧ variousTypes.memberList? ⟨0x1004⟩ = some (variousMembers ⟨0x1001⟩ ⟨0x1002⟩ ⟨0x1003⟩)
    ∧ variousTypes.memberList? ⟨0x1006⟩
      = some [.enumerator .isPublic ⟨.char, [0xfe]⟩ (Text.utf8 "a")] := by
  decide +kernel

theorem fields?_variousTypes (list : TypeIndex) :
    variousTypes.fields? list = some ((variousTypes.memberList? list).getD []) :=
  TypeStream.fields?_of_nextList?_eq_none (TypeStream.nextList?_eq_none read_variousTypes.1 list)

namespace SymbolFile
open TypeGraph TypeSystem
variable {f₀ f : SymbolFile TypeModel} {qs : List TypeRequest} {tag : ModelTag} {t : TagShape}
  {ms : List Member} {layout : RecordLayout}

section
variable (hopen : ofDatabase? Decorated.demangler (.ofTypes variousTypes) {} = some f₀)
  (hf : f₀.performAll? qs = some f)
include hopen hf

theorem handle?_various : (f.handle? ⟨0x1001⟩).isSome ∧ (f.handle? ⟨0x74⟩).isSome
    ∧ (f.handle? ⟨0x75⟩).isSome ∧ f.handle? ⟨0x2000⟩ = none := by
  have hsound := ((sound_of_ofDatabase? hopen).performAll? hf).2
  have hends : variousTypes.ChainsEnd :=
    TypeStream.chainsEnd_of_nextList?_eq_none read_variousTypes.1
  obtain ⟨hargs, hfunction, _, _, _, hlost⟩ := type?_variousTypes
  rw [← stream_ofTypes hopen hf] at hends hargs hfunction hlost
  have hmade (p : TypeIndex) :
      (f.handle? p).isSome ↔ ∃ n, f.graph.HasSize (MustHave ({} : TypeModel)) p n :=
    hsound.isSome_handle?_iff (fun _ _ _ => rfl) hends
  have hbasic {p : TypeIndex} {b : BasicType} {n : Nat} {spelling : String} (hsimple : p.isSimple)
      (hp : p.simpleType? = some (.basic b n spelling)) : (f.handle? p).isSome :=
    (hmade p).2 ⟨n, hasSize_basic hsimple hp fun _ _ => rfl⟩
  refine ⟨(hmade _).2 ⟨0, ?_⟩, hbasic rfl rfl, hbasic rfl rfl, ?_⟩
  · have hvoid : f.graph.HasSize (MustHave ({} : TypeModel)) ⟨0x03⟩ 0 :=
      hasSize_basic rfl rfl fun _ _ => rfl
    have hrecipe : f.graph.functionRecipe? ⟨0x03⟩ ⟨0x1000⟩ 0 = some {
        parts := (parameters []).1 ++ [⟨0x03⟩]
        size? := fun _ => (CallingConvention.ofCode? 0).map fun _ => 0 } := by
      rw [functionRecipe?, hargs]
    refine (hasSize_iff_of_type? hfunction rfl).2 ⟨_, hrecipe, fun b hb => ?_, [0], .cons hvoid .nil, rfl⟩
    cases hb
  · rw [← Option.not_isSome_iff_eq_none, hmade]
    rintro ⟨n, hn⟩
    exact not_hasSize_of_type? rfl hlost hn

/-- What the class has: the function, two of the overload set, the static member, and the bit field. -/
theorem Composed.various (h : f.Composed ⟨0x1005⟩ tag t ms layout) : ∃ function int unsigned,
    f.handle? ⟨0x1001⟩ = some function ∧ f.handle? ⟨0x74⟩ = some int
      ∧ f.handle? ⟨0x75⟩ = some unsigned
      ∧ tag.fields = [⟨"b", unsigned, .public_, some 3⟩] ∧ layout.fields = [("b", 37)]
      ∧ tag.statics = [⟨"s", int, .private_, none⟩]
      ∧ tag.methods = [⟨"m", function, .public_, ⟨false, false, false, false⟩⟩,
        ⟨"o", function, .public_, ⟨true, false, false, false⟩⟩,
        ⟨"o", function, .private_, ⟨false, true, false, false⟩⟩]
      ∧ tag.enumerators = [] := by
  obtain ⟨hfunction, hint, hunsigned, hlost⟩ := handle?_various hopen hf
  obtain ⟨function, hfunction⟩ := Option.isSome_iff_exists.1 hfunction
  obtain ⟨int, hint⟩ := Option.isSome_iff_exists.1 hint
  obtain ⟨unsigned, hunsigned⟩ := Option.isSome_iff_exists.1 hunsigned
  refine ⟨function, int, unsigned, hfunction, hint, hunsigned, ?_⟩
  obtain ⟨hclass, hdefault, _, _, hlist, _⟩ := members_variousTypes
  obtain ⟨_, _, hbits, hmethods, _, hnone⟩ := type?_variousTypes
  have hms := fields?_variousTypes ⟨0x1004⟩
  rw [hlist, Option.getD_some] at hms
  rw [← stream_ofTypes hopen hf] at hclass hdefault hbits hmethods hnone hms
  obtain ⟨c, hc, _, hfieldList, _⟩ := hclass.exists_class
  obtain ⟨rfl, hintegers⟩ := h.members_eq hc (congrArg some hfieldList) hms
  have haccess : t.defaultAccess = .private_ := h.access.trans hdefault
  have hplace : f.graph.dataPlace ⟨0x1002⟩ = (⟨0x75⟩, some 3, 5)
      ∧ f.graph.dataPlace ⟨0x2000⟩ = (⟨0x2000⟩, none, 0) := by
    simp [dataPlace, hbits, hnone]
  have hentries : MethodEntry.list (overloadEntries ⟨0x1001⟩) = [TypeList.method ⟨0x13⟩ ⟨0x1001⟩,
      TypeList.method ⟨0x0a⟩ ⟨0x2000⟩, TypeList.method ⟨0x09⟩ ⟨0x1001⟩] := by
    decide +kernel
  have hadded := h.addedUp
  simp only [variousMembers, List.map_cons, List.map_nil, additions, additions.function, hmethods,
    hentries, hplace, hintegers, TypeRecord.enumerators?, TypeList.method, hfunction, hint, hunsigned,
    hlost, haccess, Text.lossy_utf8, show (Numeric.ofNat 4).size? = some 4 from rfl,
    show (Numeric.ofNat 8).size? = some 8 from rfl] at hadded
  have hfunctions := hadded.methods
  simp only [List.flatMap_cons, List.flatMap_nil, hfunction, hlost] at hfunctions
  exact ⟨hadded.fields, hadded.places, hadded.statics, hfunctions, hadded.enumerators⟩

/-- What the enumeration has: the enumerator is the byte 254, though its leaf denotes -2. -/
theorem Composed.various_enumerators (h : f.Composed ⟨0x1007⟩ tag t ms layout) :
    tag.enumerators = [("a", 254)] := by
  obtain ⟨_, _, _, _, henum, _⟩ := type?_variousTypes
  obtain ⟨_, _, _, _, _, hlist⟩ := members_variousTypes
  have hms := fields?_variousTypes ⟨0x1006⟩
  rw [hlist, Option.getD_some] at hms
  rw [← stream_ofTypes hopen hf] at henum hms
  obtain ⟨rfl, hintegers⟩ := h.members_eq henum rfl hms
  have hbyte : f.graph.stream.integral? variousEnum.underlying = some (1, false) := by
    rw [TypeStream.integral?, TypeStream.integralAt, if_pos (by decide), if_pos (by decide)]
    decide
  have hvalue : (⟨.char, [0xfe]⟩ : Numeric).bits? = some ⟨0xfe, 8, true⟩ := by decide
  have hadded := h.addedUp
  simp only [List.map_cons, List.map_nil, additions, hintegers, TypeRecord.enumerators?, hbyte,
    Option.getD_some, hvalue, Text.lossy_utf8] at hadded
  rw [hadded.enumerators]
  decide

end

/-- The members of the class go to where they belong, and so does that of the enumeration. -/
theorem complete_composes_various :
    (∃ (f₀ f f' : SymbolFile TypeModel) (type : TypeHandle) (d : TagDecl) (tag : ModelTag)
        (t : TagShape) (ms : List Member) (layout : RecordLayout) (function int unsigned : TypeHandle),
      ofDatabase? Decorated.demangler (.ofTypes variousTypes) {} = some f₀
      ∧ f₀.performAll? [.typeOf ⟨0x1005⟩ false] = some f ∧ f.complete type = some (.ok true, f')
      ∧ f'.store.system.tags[d]? = some tag ∧ f'.Composed ⟨0x1005⟩ tag t ms layout
      ∧ f'.handle? ⟨0x1001⟩ = some function ∧ f'.handle? ⟨0x74⟩ = some int
      ∧ f'.handle? ⟨0x75⟩ = some unsigned
      ∧ tag.fields = [⟨"b", unsigned, .public_, some 3⟩] ∧ layout.fields = [("b", 37)]
      ∧ tag.statics = [⟨"s", int, .private_, none⟩]
      ∧ tag.methods = [⟨"m", function, .public_, ⟨false, false, false, false⟩⟩,
        ⟨"o", function, .public_, ⟨true, false, false, false⟩⟩,
        ⟨"o", function, .private_, ⟨false, true, false, false⟩⟩]
      ∧ tag.enumerators = [])
    ∧ ∃ (f₀ f f' : SymbolFile TypeModel) (type : TypeHandle) (d : TagDecl) (tag : ModelTag)
        (t : TagShape) (ms : List Member) (layout : RecordLayout),
      ofDatabase? Decorated.demangler (.ofTypes variousTypes) {} = some f₀
      ∧ f₀.performAll? [.typeOf ⟨0x1007⟩ false] = some f ∧ f.complete type = some (.ok true, f')
      ∧ f'.store.system.tags[d]? = some tag ∧ f'.Composed ⟨0x1007⟩ tag t ms layout
      ∧ tag.enumerators = [("a", 254)] := by
  have hends : variousTypes.ChainsEnd :=
    TypeStream.chainsEnd_of_nextList?_eq_none read_variousTypes.1
  have henums := read_variousTypes.2
  have hfit : variousTypes.PlacesFit := TypeStream.placesFit_of_indexes (by decide +kernel)
  obtain ⟨_, _, _, _, henum, _⟩ := type?_variousTypes
  obtain ⟨hclass, _, hleaf, hleaf', _⟩ := members_variousTypes
  rw [← Database.types_ofTypes variousTypes] at hends henums hfit henum hclass hleaf hleaf'
  constructor
  · obtain ⟨c, hc, hforward, hlist, _⟩ := hclass.exists_class
    obtain ⟨f₀, f, f', type, d, hopen, hf, htag, hentry, hcomplete⟩ :=
      exists_completed Decorated.demangler hends henums hc rfl hforward (congrArg some hlist)
        (.inr hleaf) (fun _ hms _ => hfit.fits hms) {} fun g hg => hasSize_class (hg ▸ hclass)
    obtain ⟨⟨tag, t, ms, layout, hmade, hcomposed, _⟩, _⟩ :=
      complete_composes hopen hf htag hentry hcomplete
    obtain ⟨function, int, unsigned, hhas⟩ :=
      hcomposed.various hopen (performAll?_complete hf hcomplete)
    exact ⟨f₀, f, f', type, d, tag, t, ms, layout, function, int, unsigned, hopen, hf, hcomplete, hmade,
      hcomposed, hhas⟩
  · obtain ⟨f₀, f, f', type, d, hopen, hf, htag, hentry, hcomplete⟩ :=
      exists_completed Decorated.demangler hends henums henum rfl rfl rfl (.inr hleaf')
        (fun _ hms _ => hfit.fits hms) {} fun g hg =>
          hasSize_enum (hg ▸ henum) rfl (hasSize_basic rfl rfl fun _ _ => rfl)
    obtain ⟨⟨tag, t, ms, layout, hmade, hcomposed, _⟩, _⟩ :=
      complete_composes hopen hf htag hentry hcomplete
    exact ⟨f₀, f, f', type, d, tag, t, ms, layout, hopen, hf, hcomplete, hmade, hcomposed,
      hcomposed.various_enumerators hopen (performAll?_complete hf hcomplete)⟩

end SymbolFile
end Pdb
