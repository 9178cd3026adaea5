import Pdb.Proofs.CompletedTags

/-! # Where the fields and the bases of a complete record are

A field of a complete record is recorded at its exact place in bits. A place that does not fit into a
word is never recorded: the bytes of an offset are scaled after they have been found to fit, and
completing a record with such a member halts (`recorded_places`, `place_overflows`). Each virtual base
that the record lists is made a base of the tag type, also one that it only has through another base:
what is recorded are the direct bases exactly if no indirect one can be made (`recorded_bases`,
`indirect_registered`).
-/

namespace Pdb

theorem filterMap_filter_eq_iff {α β : Type} {p : α → Bool} {f : α → Option β} {as : List α} :
    (as.filter p).filterMap f = as.filterMap f ↔ ∀ a ∈ as, p a = false → f a = none := by
  induction as with
  | nil => simp
  | cons a as ih =>
    rw [List.forall_mem_cons, ← ih]
    cases hp : p a with
    | true => cases hf : f a <;> simp [hp, hf]
    | false =>
      cases hf : f a with
      | none => simp [hp, hf]
      | some b =>
        -- one more is dropped than there are
        have hle := (List.filter_sublist (p := p) (l := as)).filterMap f |>.length_le
        have hne : (as.filter p).filterMap f ≠ b :: as.filterMap f := by
          intro heq
          rw [heq, List.length_cons] at hle
          omega
        simpa [hp, hf] using hne

/-- A virtual base that the record only has through another base. -/
def Member.isIndirectBase : Member → Bool
  | .virtualBase indirect .. => indirect
  | _ => false

namespace SymbolFile
open TypeGraph TypeSystem
variable {f f₀ : SymbolFile TypeModel} {demangler : Demangler} {database : Database} {system : TypeModel}
  {qs : List TypeRequest} {d : TagDecl} {ti : TypeIndex} {tag : ModelTag} {t : TagShape}
  {ms : List Member} {layout : RecordLayout}

/-- The name of a data member that has a type and an offset, and its place in bits. -/
def place? (f : SymbolFile TypeModel) : Member → Option (String × Nat)
  | .data _ type offset name =>
    match offset.uint64?, f.handle? (f.graph.stream.baseType type) with
    | some offset, some _ => some (Text.lossy name, 8 * offset.toNat + f.graph.stream.firstBit type)
    | _, _ => none
  | _ => none

/-- A base that has a type, in a record with the index `ti`. -/
def base? (f : SymbolFile TypeModel) (ti : TypeIndex) : Member → Option ModelBase
  | .baseClass attr type _ => specifier attr type false
  | .virtualBase _ attr type _ _ _ => specifier attr type true
  | _ => none
where
  specifier (attr : MemberAttributes) (type : TypeIndex) (isVirtual : Bool) : Option ModelBase :=
    (f.handle? type).map fun type =>
      ⟨type, attr.accessOr (f.graph.stream.defaultAccess ti), isVirtual⟩

/-- The offset in bytes of a base that is not virtual. -/
def baseOffset? (f : SymbolFile TypeModel) : Member → Option (Uid × Nat)
  | .baseClass _ type offset => (f.handle? type).map fun _ =>
    ((f.graph.target type).uid, (offset.uint64?.map Int.toNat).getD 0)
  | _ => none

/-- The place of a data member comes from the number that its leaf denotes. -/
theorem place?_eq_some_iff {m : Member} (hm : m.WellFormed) {p : String × Nat} : f.place? m = some p
    ↔ ∃ attr type offset name o, m = .data attr type offset name ∧ offset.Offset o
      ∧ (f.handle? (f.graph.stream.baseType type)).isSome
      ∧ p = (Text.lossy name, 8 * o + f.graph.stream.firstBit type) := by
  constructor
  · intro h
    cases m with
    | data attr type offset name =>
      rw [place?] at h
      split at h
      · next w handle hoffset hhandle =>
        refine ⟨attr, type, offset, name, w.toNat, rfl, hm.1.offset_iff.2 ?_, by rw [hhandle]; rfl,
          (Option.some.inj h).symm⟩
        rw [Numeric.size?_eq hm.1, hoffset, Option.map_some]
      · cases h
    | _ => cases h
  · rintro ⟨attr, type, offset, name, o, rfl, hoffset, hsome, rfl⟩
    obtain ⟨handle, hhandle⟩ := Option.isSome_iff_exists.1 hsome
    have hsize := hm.1.offset_iff.1 hoffset
    rw [Numeric.size?_eq hm.1] at hsize
    obtain ⟨w, hw, rfl⟩ := Option.map_eq_some_iff.1 hsize
    rw [place?, hw, hhandle]

theorem additions_eq (haccess : t.defaultAccess = f.graph.stream.defaultAccess ti) {m : Member}
    (hm : m.WellFormed) :
    let a := f.graph.additions t f.handle? m
    a.fields.map (fun x => (x.1.name, x.2)) = (f.place? m).toList
      ∧ a.bases = (f.base? ti m).toList
      ∧ a.offsets = (f.baseOffset? m).toList := by
  cases m with
  | data attr type offset name =>
    simp only [additions, dataPlace_eq, place?, base?, baseOffset?, Numeric.size?_eq hm.1]
    rcases offset.uint64? with _ | offset
    · exact ⟨rfl, rfl, rfl⟩
    · rcases f.handle? (f.graph.stream.baseType type) with _ | handle <;> exact ⟨rfl, rfl, rfl⟩
  | baseClass attr type offset =>
    simp only [additions, place?, base?, base?.specifier, baseOffset?, haccess, Numeric.size?_eq hm]
    rcases f.handle? type with _ | handle <;> exact ⟨rfl, rfl, rfl⟩
  | virtualBase indirect attr type pointer offset index =>
    simp only [additions, place?, base?, base?.specifier, baseOffset?, haccess]
    rcases f.handle? type with _ | handle <;> exact ⟨rfl, rfl, rfl⟩
  | nested type name =>
    simp only [additions, place?, base?, baseOffset?]
    split
    · exact ⟨rfl, rfl, rfl⟩
    · rcases f.handle? type with _ | handle <;> exact ⟨rfl, rfl, rfl⟩
  | nestedEx attr type name =>
    simp only [additions, place?, base?, baseOffset?]
    split
    · exact ⟨rfl, rfl, rfl⟩
    · rcases f.handle? type with _ | handle <;> exact ⟨rfl, rfl, rfl⟩
  | static attr type name =>
    simp only [additions, place?, base?, baseOffset?]
    rcases f.handle? type with _ | handle <;> exact ⟨rfl, rfl, rfl⟩
  | overloads count list name =>
    simp only [additions, place?, base?, baseOffset?]
    split <;> exact ⟨rfl, rfl, rfl⟩
  | enumerator attr value name =>
    simp only [additions, place?, base?, baseOffset?]
    split <;> exact ⟨rfl, rfl, rfl⟩
  | _ => exact ⟨rfl, rfl, rfl⟩

namespace Composed
variable (h : f.Composed ti tag t ms layout)
include h

theorem additions_eq {m : Member} (hm : m ∈ ms) :
    let a := f.graph.additions t f.handle? m
    a.fields.map (fun x => (x.1.name, x.2)) = (f.place? m).toList
      ∧ a.bases = (f.base? ti m).toList
      ∧ a.offsets = (f.baseOffset? m).toList :=
  SymbolFile.additions_eq h.access (TypeStream.wellFormed_of_mem_fields? h.members hm)

theorem places_eq : layout.fields = ms.filterMap f.place? := by
  rw [h.addedUp.places, List.filterMap_eq_flatMap_toList, List.flatMap_map, List.map_flatMap]
  exact List.flatMap_congr fun m hm => (h.additions_eq hm).1

theorem bases_eq : tag.bases = ms.filterMap (f.base? ti) := by
  rw [h.addedUp.bases, List.filterMap_eq_flatMap_toList, List.flatMap_map]
  exact List.flatMap_congr fun m hm => (h.additions_eq hm).2.1

theorem offsets_eq : layout.bases = ms.filterMap f.baseOffset? := by
  rw [h.addedUp.offsets, List.filterMap_eq_flatMap_toList, List.flatMap_map]
  exact List.flatMap_congr fun m hm => (h.additions_eq hm).2.2

end Composed

/-! ### Fields -/

/-- In a complete record the fields are those of its data members that have a type and an offset, each
recorded at the exact place, which fits into a word. Completing a definition succeeds if all such places
do; if one does not, it halts at the overflow. -/
theorem recorded_places (hopen : ofDatabase? demangler database system = some f₀)
    (hf : f₀.performAll? qs = some f) :
    (∀ d ti, f.store.declarations.find? d = some ⟨ti, .full⟩ → ∃ tag t ms layout,
      f.store.system.tags[d]? = some tag ∧ f.Composed ti tag t ms layout
      ∧ layout.fields = ms.filterMap f.place?
      ∧ (∀ m ∈ ms, ∀ p, f.place? m = some p ↔ ∃ attr type offset name o,
        m = .data attr type offset name ∧ offset.Offset o
          ∧ (f.handle? (f.graph.stream.baseType type)).isSome
          ∧ p = (Text.lossy name, 8 * o + f.graph.stream.firstBit type))
      ∧ ∀ p ∈ layout.fields, p.2 < 2 ^ 64)
    ∧ ∀ type d ti r list ms, database.types.ChainsEnd → f.store.system.tagOf? type = some d →
      f.store.declarations.find? d = some ⟨ti, .forward⟩ → database.types.type? ti = some r →
      r.isForwardRef = false → r.fieldList? = some list →
      list = .none ∨ database.types.leaf? list = some .fieldList →
      database.types.fields? list = some ms →
        (∃ f', f.complete type = some (.ok true, f')) ∧ (∀ m ∈ ms, ¬ f.graph.Overflows system m)
          ∨ f.OverflowsAt (.complete type) ∧ ∃ m ∈ ms, f.graph.Overflows system m := by
  have hfurnished : Furnished system f := (furnished_of_ofDatabase? hopen).performAll? hf
  constructor
  · intro d ti hd
    obtain ⟨tag, t, ms, layout, htag, hcomposed⟩ := hfurnished.exists_composed hd
    exact ⟨tag, t, ms, layout, htag, hcomposed, hcomposed.places_eq, fun m hm p =>
      place?_eq_some_iff (TypeStream.wellFormed_of_mem_fields? hcomposed.members hm), hcomposed.fits⟩
  · rw [← stream_of_performAll? hopen hf]
    exact fun type d ti r list ms => hfurnished.completes_or_overflows

end SymbolFile

/-! A stream with a class that has a virtual base through its base -/

/-- What is in the class: the type of the last member is missing, and the one before that is as far away
as a field can be. -/
def inheritedMembers (base middle : TypeIndex) : List Member := [
  .baseClass .isPublic middle (.ofNat 0),
  .virtualBase true .isPublic base ⟨0x674⟩ (.ofNat 0) (.ofNat 1),
  .data ⟨0⟩ base (.ofNat 8) (Text.utf8 "near"),
  .data .isPublic base (.ofNat (2 ^ 61 - 1)) (Text.utf8 "far"),
  .data .isPublic ⟨0x2000⟩ (.ofNat 12) (Text.utf8 "lost")]

/-- The virtual base is at `0x1000`, a structure that is derived from it at `0x1002`, and the class at
`0x1004`. -/
def inheritedTypes : TypeStream :=
  let (base, t) := TypeList.addClass {} .structure_ (Text.utf8 "A") none .none 4 false
  let (list, t) := t.addFields [.virtualBase false .isPublic base ⟨0x674⟩ (.ofNat 0) (.ofNat 1)]
  let (middle, t) := t.addClass .structure_ (Text.utf8 "B") none list 16 false
  let (list, t) := t.addFields (inheritedMembers base middle)
  let (_, t) := t.addClass .class_ (Text.utf8 "C") none list 32 false
  match TypeStream.parse .types (.ofBytes t.encode) with
  | .ok s => s
  | .error _ => .empty .types

theorem read_inheritedTypes : (∀ ti ∈ inheritedTypes.indexes, inheritedTypes.nextList? ti = none)
    ∧ inheritedTypes.EnumsSimple ∧ inheritedTypes.DefinesClass ⟨0x1000⟩ .none 4
    ∧ inheritedTypes.DefinesClass ⟨0x1002⟩ ⟨0x1001⟩ 16
    ∧ inheritedTypes.DefinesClass ⟨0x1004⟩ ⟨0x1003⟩ 32
    ∧ inheritedTypes.leaf? ⟨0x1003⟩ = some .fieldList
    ∧ inheritedTypes.memberList? ⟨0x1003⟩ = some (inheritedMembers ⟨0x1000⟩ ⟨0x1002⟩)
    ∧ inheritedTypes.type? ⟨0x2000⟩ = none ∧ inheritedTypes.defaultAccess ⟨0x1004⟩ = .private_ := by
  decide +kernel

theorem chainsEnd_inheritedTypes : inheritedTypes.ChainsEnd :=
  TypeStream.chainsEnd_of_nextList?_eq_none read_inheritedTypes.1

namespace SymbolFile
open TypeGraph TypeSystem
variable {f f₀ : SymbolFile TypeModel} {demangler : Demangler} {database : Database} {system : TypeModel}
  {qs : List TypeRequest} {d : TagDecl} {ti : TypeIndex} {tag : ModelTag} {t : TagShape}
  {ms : List Member} {layout : RecordLayout}

theorem exists_inherited : ∃ (f₀ f : SymbolFile TypeModel) (type : TypeHandle) (d : TagDecl),
    ofDatabase? Decorated.demangler (.ofTypes inheritedTypes) {} = some f₀
      ∧ f₀.performAll? [.typeOf ⟨0x1004⟩ false, .complete type] = some f
      ∧ f.store.declarations.find? d = some ⟨⟨0x1004⟩, .full⟩ := by
  obtain ⟨_, henums, _, _, hclass, hlist, _⟩ := read_inheritedTypes
  have hends := chainsEnd_inheritedTypes
  have hfit : inheritedTypes.PlacesFit := TypeStream.placesFit_of_indexes (by decide +kernel)
  rw [← Database.types_ofTypes inheritedTypes] at hends henums hclass hlist hfit
  obtain ⟨c, hc, hforward, hfieldList, _⟩ := hclass.exists_class
  obtain ⟨f₀, f, f', type, d, hopen, hf, htag, hentry, hcomplete⟩ :=
    exists_completed Decorated.demangler hends henums hc rfl hforward (congrArg some hfieldList)
      (.inr hlist) (fun _ hms _ => hfit.fits hms) {}
    fun g hg => hasSize_class (hg ▸ hclass)
  have hsound := ((sound_of_ofDatabase? hopen).performAll? hf).2
  exact ⟨f₀, f', type, d, hopen, performAll?_complete hf hcomplete,
    (hsound.complete_frame htag hentry hcomplete).1⟩

section
variable (hopen : ofDatabase? Decorated.demangler (.ofTypes inheritedTypes) {} = some f₀)
  (hf : f₀.performAll? qs = some f)
include hopen hf

/-- The base and its virtual base have types, and the last member has none. -/
theorem handle?_inherited : (f.handle? ⟨0x1000⟩).isSome ∧ (f.handle? ⟨0x1002⟩).isSome
    ∧ f.handle? ⟨0x2000⟩ = none := by
  have hsound := ((sound_of_ofDatabase? hopen).performAll? hf).2
  obtain ⟨_, _, hbase, hmiddle, _, _, _, hlost, _⟩ := read_inheritedTypes
  have hends := chainsEnd_inheritedTypes
  rw [← stream_ofTypes hopen hf] at hbase hmiddle hlost hends
  have hmade (p : TypeIndex) :
      (f.handle? p).isSome ↔ ∃ n, f.graph.HasSize (MustHave ({} : TypeModel)) p n :=
    hsound.isSome_handle?_iff (fun _ _ _ => rfl) hends
  refine ⟨(hmade _).2 ⟨4, hasSize_class hbase⟩, (hmade _).2 ⟨16, hasSize_class hmiddle⟩, ?_⟩
  rw [← Option.not_isSome_iff_eq_none, hmade]
  rintro ⟨n, hn⟩
  exact not_hasSize_of_type? rfl hlost hn

section
variable (h : f.Composed ⟨0x1004⟩ tag t ms layout)
include h

theorem Composed.members_inherited : ms = inheritedMembers ⟨0x1000⟩ ⟨0x1002⟩ := by
  obtain ⟨hnext, _, _, _, hclass, _, hlist, _⟩ := read_inheritedTypes
  obtain ⟨c, hc, _, hfieldList, _⟩ := hclass.exists_class
  have hms := TypeStream.fields?_of_nextList?_eq_none (TypeStream.nextList?_eq_none hnext ⟨0x1003⟩)
  rw [hlist, Option.getD_some] at hms
  rw [← stream_ofTypes hopen hf] at hc hms
  exact (h.members_eq hc (congrArg some hfieldList) hms).1

theorem Composed.places_inherited : ms.filterMap f.place? = [("near", 64), ("far", 2 ^ 64 - 8)] := by
  obtain ⟨hbase, _, hlost⟩ := handle?_inherited hopen hf
  obtain ⟨base, hbase⟩ := Option.isSome_iff_exists.1 hbase
  obtain ⟨_, _, hclass, _, _, _, _, hnone, _⟩ := read_inheritedTypes
  obtain ⟨c, hc, _⟩ := hclass.exists_class
  rw [← stream_ofTypes hopen hf] at hc hnone
  -- no type is a bit field
  have hplain : f.graph.stream.bitField? ⟨0x1000⟩ = none ∧ f.graph.stream.bitField? ⟨0x2000⟩ = none := by
    simp [TypeStream.bitField?, hc, hnone]
  have hoffsets : (Numeric.ofNat 8).uint64? = some 8
      ∧ (Numeric.ofNat (2 ^ 61 - 1)).uint64? = some (2 ^ 61 - 1)
      ∧ (Numeric.ofNat 12).uint64? = some 12 := by
    decide +kernel
  rw [h.members_inherited hopen hf, inheritedMembers]
  simp only [List.filterMap_cons, List.filterMap_nil, place?, hoffsets, TypeStream.baseType,
    TypeStream.firstBit, hplain, Option.elim_none, hbase, hlost, Text.lossy_utf8]
  rfl

theorem Composed.bases_inherited : ∃ base middle, f.handle? ⟨0x1000⟩ = some base
    ∧ f.handle? ⟨0x1002⟩ = some middle
    ∧ ms.filterMap (f.base? ⟨0x1004⟩) = [⟨middle, .public_, false⟩, ⟨base, .public_, true⟩] := by
  obtain ⟨hbase, hmiddle, _⟩ := handle?_inherited hopen hf
  obtain ⟨base, hbase⟩ := Option.isSome_iff_exists.1 hbase
  obtain ⟨middle, hmiddle⟩ := Option.isSome_iff_exists.1 hmiddle
  refine ⟨base, middle, hbase, hmiddle, ?_⟩
  rw [h.members_inherited hopen hf]
  simp only [inheritedMembers, List.filterMap_cons, List.filterMap_nil, base?, base?.specifier, hbase,
    hmiddle, Option.map_some]
  rfl

end
end

end SymbolFile

/-! A stream with a structure that has a field too far away -/

def distantMembers : List Member := [
  .data .isPublic ⟨0x74⟩ (.ofNat 8) (Text.utf8 "near"),
  .data .isPublic ⟨0x74⟩ (.ofNat (2 ^ 61)) (Text.utf8 "far")]

/-- The structure is at `0x1001`. -/
def distantTypes : TypeStream :=
  let (list, t) := TypeList.addFields {} distantMembers
  let (_, t) := t.addClass .structure_ (Text.utf8 "S") none list 16 false
  match TypeStream.parse .types (.ofBytes t.encode) with
  | .ok s => s
  | .error _ => .empty .types

theorem read_distantTypes : (∀ ti ∈ distantTypes.indexes, distantTypes.nextList? ti = none)
    ∧ distantTypes.EnumsSimple ∧ distantTypes.DefinesClass ⟨0x1001⟩ ⟨0x1000⟩ 16
    ∧ distantTypes.leaf? ⟨0x1000⟩ = some .fieldList
    ∧ distantTypes.memberList? ⟨0x1000⟩ = some distantMembers := by
  decide +kernel

theorem chainsEnd_distantTypes : distantTypes.ChainsEnd :=
  TypeStream.chainsEnd_of_nextList?_eq_none read_distantTypes.1

theorem fields?_distantTypes : distantTypes.fields? ⟨0x1000⟩ = some distantMembers := by
  obtain ⟨hnext, _, _, _, hlist⟩ := read_distantTypes
  rw [TypeStream.fields?_of_nextList?_eq_none (TypeStream.nextList?_eq_none hnext _), hlist]
  rfl

/-- `8 * 2 ^ 61` is no number of 64 bits. -/
theorem overflows_distantMembers (g : TypeGraph) :
    ∃ m ∈ distantMembers, g.Overflows ({} : TypeModel) m := by
  have hplain : g.stream.bitField? ⟨0x74⟩ = none := by
    rw [TypeStream.bitField?, TypeStream.type?_of_isSimple rfl]
  have hoffset : (Numeric.ofNat (2 ^ 61)).Offset (2 ^ 61) :=
    Numeric.WellFormed.offset_iff (by decide +kernel) |>.2 (by decide +kernel)
  refine ⟨_, List.mem_cons_of_mem _ List.mem_cons_self, 2 ^ 61, 4, hoffset, ?_, ?_⟩
  · rw [TypeStream.baseType, hplain]
    exact TypeGraph.hasSize_basic rfl rfl fun _ _ => rfl
  · rw [TypeStream.firstBit, hplain]
    decide

namespace SymbolFile
open TypeGraph TypeSystem
variable {f f₀ : SymbolFile TypeModel} {demangler : Demangler} {database : Database} {system : TypeModel}
  {qs : List TypeRequest} {d : TagDecl} {ti : TypeIndex}

theorem exists_distant : ∃ (f₀ f : SymbolFile TypeModel) (type : TypeHandle) (d : TagDecl),
    ofDatabase? Decorated.demangler (.ofTypes distantTypes) {} = some f₀
      ∧ f₀.performAll? [.typeOf ⟨0x1001⟩ false] = some f ∧ f.store.system.tagOf? type = some d
      ∧ f.store.declarations.find? d = some ⟨⟨0x1001⟩, .forward⟩ := by
  obtain ⟨_, henums, hclass, _⟩ := read_distantTypes
  have hends := chainsEnd_distantTypes
  rw [← Database.types_ofTypes distantTypes] at hends henums hclass
  obtain ⟨c, hc, hforward, _⟩ := hclass.exists_class
  obtain ⟨f₀, hopen⟩ := exists_ofDatabase? Decorated.demangler hends ({} : TypeModel)
  obtain ⟨f, type, d, hf, htag, hentry⟩ := exists_forward hopen hends henums hc rfl hforward
    (TypeGraph.hasSize_class (graph_of_ofDatabase? hopen ▸ hclass))
  exact ⟨f₀, f, type, d, hopen, hf, htag, hentry⟩

/-- A field as far away as can be is recorded there. Completing a record with one that is farther away
halts. -/
theorem recorded_places_inherited :
    (∃ (f₀ f : SymbolFile TypeModel) (type : TypeHandle) (d : TagDecl) (tag : ModelTag) (t : TagShape)
      (ms : List Member) (layout : RecordLayout),
      ofDatabase? Decorated.demangler (.ofTypes inheritedTypes) {} = some f₀
      ∧ f₀.performAll? [.typeOf ⟨0x1004⟩ false, .complete type] = some f
      ∧ f.store.declarations.find? d = some ⟨⟨0x1004⟩, .full⟩
      ∧ f.store.system.tags[d]? = some tag ∧ f.Composed ⟨0x1004⟩ tag t ms layout
      ∧ layout.fields = [("near", 64), ("far", 2 ^ 64 - 8)])
    ∧ ∃ (f₀ f : SymbolFile TypeModel) (type : TypeHandle),
      ofDatabase? Decorated.demangler (.ofTypes distantTypes) {} = some f₀
      ∧ f₀.performAll? [.typeOf ⟨0x1001⟩ false] = some f ∧ f.OverflowsAt (.complete type) := by
  constructor
  · obtain ⟨f₀, f, type, d, hopen, hf, hd⟩ := exists_inherited
    obtain ⟨tag, t, ms, layout, htag, hcomposed, hplaces, _⟩ :=
      (recorded_places hopen hf).1 d ⟨0x1004⟩ hd
    rw [hcomposed.places_inherited hopen hf] at hplaces
    exact ⟨f₀, f, type, d, tag, t, ms, layout, hopen, hf, hd, htag, hcomposed, hplaces⟩
  · obtain ⟨f₀, f, type, d, hopen, hf, htag, hentry⟩ := exists_distant
    obtain ⟨_, _, hclass, hlist, _⟩ := read_distantTypes
    have hends := chainsEnd_distantTypes
    have hms := fields?_distantTypes
    obtain ⟨c, hc, hforward, hfieldList, _⟩ := hclass.exists_class
    rw [← Database.types_ofTypes distantTypes] at hends hc hlist hms
    rcases (recorded_places hopen hf).2 type d _ _ _ _ hends htag hentry hc hforward
      (congrArg some hfieldList) (.inr hlist) hms with ⟨_, hfit⟩ | ⟨hover, _⟩
    · obtain ⟨m, hm, hover⟩ := overflows_distantMembers f.graph
      exact absurd hover (hfit m hm)
    · exact ⟨f₀, f, type, hopen, hf, hover⟩

/-- Completing a record may overflow. -/
theorem place_overflows : ¬ ∀ (f₀ f : SymbolFile TypeModel) (qs : List TypeRequest) (type : TypeHandle),
    ofDatabase? Decorated.demangler (.ofTypes distantTypes) {} = some f₀ → f₀.performAll? qs = some f →
    ¬ f.OverflowsAt (.complete type) := by
  intro h
  obtain ⟨f₀, f, type, d, hopen, hf, htag, hentry⟩ := exists_distant
  obtain ⟨_, _, hclass, hlist, _⟩ := read_distantTypes
  have hfurnished : Furnished {} f := (furnished_of_ofDatabase? hopen).performAll? hf
  have hstream : f.graph.stream = distantTypes := stream_ofTypes hopen hf
  obtain ⟨c, hc, hforward, hfieldList, _⟩ := hclass.exists_class
  obtain ⟨m, hm, hover⟩ := overflows_distantMembers f.graph
  rcases hfurnished.completes_or_overflows (hstream ▸ chainsEnd_distantTypes) htag hentry
    (hstream ▸ hc) hforward (congrArg some hfieldList) (hstream ▸ .inr hlist)
    (hstream ▸ fields?_distantTypes) with ⟨_, hfit⟩ | ⟨hhalt, _⟩
  · exact hfit m hm hover
  · exact h f₀ f _ type hopen hf hhalt

/-! ### Bases -/

/-- The bases of a complete record are all bases that it lists and that have types, also the indirect
ones. They are the direct ones if and only if no indirect one has a type. -/
theorem recorded_bases (hopen : ofDatabase? demangler database system = some f₀)
    (hf : f₀.performAll? qs = some f) (hd : f.store.declarations.find? d = some ⟨ti, .full⟩) :
    ∃ tag t ms layout, f.store.system.tags[d]? = some tag ∧ f.Composed ti tag t ms layout
      ∧ tag.bases = ms.filterMap (f.base? ti) ∧ layout.bases = ms.filterMap f.baseOffset?
      ∧ (tag.bases = (ms.filter (!·.isIndirectBase)).filterMap (f.base? ti)
        ↔ ∀ m ∈ ms, m.isIndirectBase → f.base? ti m = none) := by
  obtain ⟨tag, t, ms, layout, htag, hcomposed⟩ := exists_composed hopen hf hd
  refine ⟨tag, t, ms, layout, htag, hcomposed, hcomposed.bases_eq, hcomposed.offsets_eq, ?_⟩
  rw [hcomposed.bases_eq, eq_comm, filterMap_filter_eq_iff]
  simp only [Bool.not_eq_false']

theorem recorded_bases_inherited : ∃ (f₀ f : SymbolFile TypeModel) (type : TypeHandle) (d : TagDecl)
    (tag : ModelTag) (t : TagShape) (ms : List Member) (layout : RecordLayout)
    (base middle : TypeHandle), ofDatabase? Decorated.demangler (.ofTypes inheritedTypes) {} = some f₀
      ∧ f₀.performAll? [.typeOf ⟨0x1004⟩ false, .complete type] = some f
      ∧ f.store.declarations.find? d = some ⟨⟨0x1004⟩, .full⟩
      ∧ f.store.system.tags[d]? = some tag ∧ f.Composed ⟨0x1004⟩ tag t ms layout
      ∧ f.handle? ⟨0x1000⟩ = some base ∧ f.handle? ⟨0x1002⟩ = some middle
      ∧ tag.bases = [⟨middle, .public_, false⟩, ⟨base, .public_, true⟩] := by
  obtain ⟨f₀, f, type, d, hopen, hf, hd⟩ := exists_inherited
  obtain ⟨tag, t, ms, layout, htag, hcomposed, hbases, _⟩ := recorded_bases hopen hf hd
  obtain ⟨base, middle, hbase, hmiddle, heq⟩ := hcomposed.bases_inherited hopen hf
  rw [heq] at hbases
  exact ⟨f₀, f, type, d, tag, t, ms, layout, base, middle, hopen, hf, hd, htag, hcomposed, hbase,
    hmiddle, hbases⟩

theorem indirect_registered : ¬ ∀ (f₀ f : SymbolFile TypeModel) (qs : List TypeRequest) (d : TagDecl)
    (ti : TypeIndex) (tag : ModelTag) (t : TagShape) (ms : List Member) (layout : RecordLayout),
    ofDatabase? Decorated.demangler (.ofTypes inheritedTypes) {} = some f₀ → f₀.performAll? qs = some f →
    f.store.declarations.find? d = some ⟨ti, .full⟩ → f.store.system.tags[d]? = some tag →
    f.Composed ti tag t ms layout →
      tag.bases = (ms.filter (!·.isIndirectBase)).filterMap (f.base? ti) := by
  intro h
  obtain ⟨f₀, f, type, d, hopen, hf, hd⟩ := exists_inherited
  obtain ⟨tag, t, ms, layout, htag, hcomposed⟩ := exists_composed hopen hf hd
  obtain ⟨base, middle, hbase, _⟩ := hcomposed.bases_inherited hopen hf
  have hdirect := h f₀ f _ d _ tag t ms layout hopen hf hd htag hcomposed
  rw [hcomposed.bases_eq, eq_comm, filterMap_filter_eq_iff, hcomposed.members_inherited hopen hf]
    at hdirect
  have hnone := hdirect _ (List.mem_cons_of_mem _ List.mem_cons_self) rfl
  rw [base?, base?.specifier, hbase] at hnone
  exact nomatch hnone

end SymbolFile
end Pdb
