import Pdb.Proofs.CompletedTags
import Pdb.Proofs.Utf8

/-! # The values of enumerators

An enumerator is written with any leaf of an integer, and its enumeration has integers of a size and a
signedness of its own. What completing the enumeration registers is the one integer of that size and
signedness that is congruent to what the leaf denotes (`registered_truncated`), for each enumerator that
denotes one, in their order (`recorded_enumerators`).
-/

namespace Pdb
open Numeric

/-- What is registered for the integer `v` in an enumeration of integers of a size and a signedness:
the only one that has the low bytes of `v`. With 16 bytes all are two's complements. -/
structure Registered (size : Nat) (signed : Bool) (v w : Int) : Prop where
  stored : 0 < size → size < 16 → Stored size signed v w
  only : 0 < size → size < 16 → ∀ w', Stored size signed v w' → w' = w
  same : 0 < size → size < 16 → Fits (8 * size) signed v → w = v
  wide : size = 16 → Fits 128 true v → w = v

section
variable {size : Nat} {signed : Bool} {v : Int}

theorem registered_truncated (size : Nat) (signed : Bool) (v : Int) :
    Registered size signed v (truncated (v % 2 ^ 128).toNat size signed) := by
  have honly {w : Int} (hpos : 0 < size) (hlt : size < 16) (hw : Stored size signed v w) :
      truncated (v % 2 ^ 128).toNat size signed = w := by
    rw [truncated_eq_lowBits hpos hlt, hw.eq_lowBits hpos hlt.le]
  refine ⟨fun hpos hlt => ?_, fun hpos hlt w hw => (honly hpos hlt hw).symm,
    fun hpos hlt hv => honly hpos hlt ⟨hv, rfl⟩, ?_⟩
  · rw [truncated_eq_lowBits hpos hlt]
    exact stored_lowBits hpos hlt.le signed v
  · rintro rfl hv
    rw [truncated_wide (.inr (Nat.le_refl 16))]
    have hstored : Stored 16 true v v := ⟨hv, rfl⟩
    exact (hstored.eq_lowBits (by decide) (by decide)).symm

end

/-- The name of an enumerator, and the integer that its leaf denotes. -/
def Member.enumerator? : Member → Option (Bytes × Int)
  | .enumerator _ value name => value.value?.map (name, ·)
  | _ => none

theorem Member.enumerator?_eq_some_iff {m : Member} (hm : m.WellFormed) {name : Bytes} {v : Int} :
    m.enumerator? = some (name, v)
      ↔ ∃ attr value, m = .enumerator attr value name ∧ value.Denotes v := by
  constructor
  · intro h
    cases m with
    | enumerator attr value name' =>
      obtain ⟨w, hw, heq⟩ := Option.map_eq_some_iff.1 h
      cases heq
      exact ⟨attr, value, rfl, hm.1.denotes_iff.2 hw⟩
    | _ => exact nomatch h
  · rintro ⟨attr, value, rfl, hv⟩
    rw [enumerator?, hv.value?_eq, Option.map_some]

namespace TypeGraph
variable {g : TypeGraph} {t : TagShape} {handle? : TypeIndex → Option TypeHandle} {size : Nat}
  {signed : Bool}

theorem enumerators_additions (h : t.integers? = some (size, signed)) (m : Member) :
    (g.additions t handle? m).enumerators = (m.enumerator?.map fun x =>
      (Text.lossy x.1, truncated (x.2 % 2 ^ 128).toNat size signed)).toList := by
  cases m with
  | enumerator attr value name =>
    rw [Member.enumerator?, value?, additions, h]
    rcases value.bits? with _ | b <;> rfl
  | data attr type offset name =>
    simp only [additions, Member.enumerator?]
    rcases offset.size? with _ | offset
    · rfl
    · rcases handle? (g.dataPlace type).1 with _ | handle <;> rfl
  | baseClass attr type offset | virtualBase _ attr type _ _ _ | static attr type name =>
    simp only [additions, Member.enumerator?]
    rcases handle? type with _ | handle <;> rfl
  | nested type name | nestedEx attr type name =>
    simp only [additions, Member.enumerator?]
    split
    · rfl
    · rcases handle? type with _ | handle <;> rfl
  | overloads count list name =>
    simp only [additions, Member.enumerator?]
    split <;> rfl
  | _ => rfl

end TypeGraph

namespace SymbolFile
open TypeSystem
variable {f f₀ : SymbolFile TypeModel} {demangler : Demangler} {database : Database} {system : TypeModel}
  {qs : List TypeRequest} {ti : TypeIndex} {e : EnumRecord} {size : Nat} {signed : Bool}

/-- Completing an enumeration succeeds if its record is a definition with members, or has none. (The
places only matter for data members, which an enumeration does not have.) Each enumeration that is
complete has an enumerator for each member whose leaf denotes an integer, in their order, with what is
registered for that integer. -/
theorem recorded_enumerators (hopen : ofDatabase? demangler database system = some f₀)
    (hf : f₀.performAll? qs = some f) (he : database.types.type? ti = some (.enum e))
    (hform : database.types.integral? e.underlying = some (size, signed)) :
    (∀ type d, database.types.ChainsEnd → (TypeRecord.enum e).isForwardRef = false →
      e.fieldList = .none ∨ database.types.leaf? e.fieldList = some .fieldList →
      (∀ ms ∈ database.types.fields? e.fieldList, ∀ m ∈ ms, database.types.Fits m) →
      tagOf? f.store.system type = some d → f.store.declarations.find? d = some ⟨ti, .forward⟩ →
      ∃ f', f.complete type = some (.ok true, f') ∧ f'.store.declarations.find? d = some ⟨ti, .full⟩)
    ∧ ∀ d, f.store.declarations.find? d = some ⟨ti, .full⟩ → ∃ tag ms,
      f.store.system.tags[d]? = some tag ∧ database.types.fields? e.fieldList = some ms
      ∧ (∀ m ∈ ms, ∀ name v, m.enumerator? = some (name, v)
        ↔ ∃ attr value, m = .enumerator attr value name ∧ value.Denotes v)
      ∧ List.Forall₂ (fun x y => y.1 = Text.lossy x.1 ∧ Registered size signed x.2 y.2)
        (ms.filterMap Member.enumerator?) tag.enumerators := by
  have hfurnished : Furnished system f := (furnished_of_ofDatabase? hopen).performAll? hf
  rw [← stream_of_performAll? hopen hf] at he hform ⊢
  constructor
  · intro type d hends hforward hhas hfit htag hentry
    obtain ⟨f', hcomplete⟩ :=
      hfurnished.exists_complete hends htag hentry he hforward rfl hhas hfit
    exact ⟨f', hcomplete, (hfurnished.complete_frame htag hentry hcomplete).1⟩
  · intro d hd
    obtain ⟨tag, t, ms, layout, htag, hcomposed⟩ := exists_composed hopen hf hd
    obtain ⟨r, hr, _, hlist, hintegers, _⟩ := hcomposed.record
    obtain rfl := Option.some.inj (he.symm.trans hr)
    have hms := hcomposed.members
    rw [← Option.some.inj hlist] at hms
    have hform' : t.integers? = some (size, signed) := by
      rw [hintegers, TypeRecord.enumerators?, hform, Option.getD_some]
    refine ⟨tag, ms, htag, hms, fun m hm name v => ?_, ?_⟩
    · exact Member.enumerator?_eq_some_iff (TypeStream.wellFormed_of_mem_fields? hms hm)
    · have hadded : tag.enumerators = (ms.filterMap Member.enumerator?).map fun x =>
          (Text.lossy x.1, truncated (x.2 % 2 ^ 128).toNat size signed) := by
        rw [hcomposed.addedUp.enumerators, List.flatMap_map, List.map_filterMap,
          List.filterMap_eq_flatMap_toList]
        exact List.flatMap_congr fun m _ => TypeGraph.enumerators_additions hform' m
      rw [hadded, List.forall₂_map_right_iff, List.forall₂_same]
      exact fun x _ => ⟨rfl, registered_truncated size signed x.2⟩

end SymbolFile

/-! ### An enumeration of bytes -/

def byteEnumerators : List Member := [
  .enumerator .isPublic ⟨.char, [0xfe]⟩ (Text.utf8 "a"),
  .enumerator .isPublic (.ofNat 300) (Text.utf8 "b"),
  .enumerator .isPublic ⟨.real32, [0, 0, 0x80, 0x3f]⟩ (Text.utf8 "c"),
  .enumerator .isPublic ⟨.octword, 200 :: List.replicate 15 0⟩ (Text.utf8 "d")]

def byteTypes : TypeStream :=
  let (list, t) := TypeList.addFields {} byteEnumerators
  let (_, t) := t.addEnum (Text.utf8 "E") none ⟨0x20⟩ list false
  match TypeStream.parse .types (.ofBytes t.encode) with
  | .ok s => s
  | .error _ => .empty .types

def byteEnum : EnumRecord where
  count := 0
  properties := ⟨0⟩
  underlying := ⟨0x20⟩
  fieldList := ⟨0x1000⟩
  name := Text.utf8 "E"
  uniqueName := none

theorem read_byteTypes : (∀ ti ∈ byteTypes.indexes, byteTypes.nextList? ti = none)
    ∧ byteTypes.EnumsSimple ∧ byteTypes.type? ⟨0x1001⟩ = some (.enum byteEnum)
    ∧ byteTypes.leaf? ⟨0x1000⟩ = some .fieldList
    ∧ byteTypes.memberList? ⟨0x1000⟩ = some byteEnumerators := by
  decide +kernel

theorem chainsEnd_byteTypes : byteTypes.ChainsEnd :=
  TypeStream.chainsEnd_of_nextList?_eq_none read_byteTypes.1

theorem fields?_byteTypes : byteTypes.fields? ⟨0x1000⟩ = some byteEnumerators := by
  obtain ⟨hnext, _, _, _, hlist⟩ := read_byteTypes
  rw [TypeStream.fields?_of_nextList?_eq_none (TypeStream.nextList?_eq_none hnext _), hlist]
  rfl

theorem TypeGraph.hasSize_byteEnum {g : TypeGraph} {P : BasicType → Prop} (hP : P .unsignedChar)
    (he : g.stream.type? ⟨0x1001⟩ = some (.enum byteEnum)) : g.HasSize P ⟨0x1001⟩ 1 := by
  have htype : TypeIndex.simpleType? ⟨0x20⟩ = some (.basic .unsignedChar 1 "unsigned char") := by decide
  exact hasSize_enum he rfl (hasSize_basic rfl htype hP)

namespace SymbolFile

/-- Two of the integers do not fit into a byte, and one leaf is a real. -/
theorem recorded_enumerators_bytes : ∃ (f₀ f f' : SymbolFile TypeModel) (type : TypeHandle)
    (d : TagDecl) (tag : ModelTag), ofDatabase? Decorated.demangler (.ofTypes byteTypes) {} = some f₀
      ∧ f₀.performAll? [.typeOf ⟨0x1001⟩ false] = some f ∧ f.complete type = some (.ok true, f')
      ∧ f'.store.system.tags[d]? = some tag
      ∧ tag.enumerators = [("a", 254), ("b", 44), ("d", 200)] := by
  obtain ⟨_, henums, he, hlist, _⟩ := read_byteTypes
  have hends := chainsEnd_byteTypes
  have hfields := fields?_byteTypes
  rw [← Database.types_ofTypes byteTypes] at henums he hlist hends hfields
  have hform : (Database.ofTypes byteTypes).types.integral? byteEnum.underlying = some (1, false) := by
    rw [TypeStream.integral?, TypeStream.integralAt, if_pos (by decide), if_pos (by decide)]
    decide
  have hfit : ∀ ms ∈ (Database.ofTypes byteTypes).types.fields? byteEnum.fieldList, ∀ m ∈ ms,
      (Database.ofTypes byteTypes).types.Fits m := by
    intro ms hms
    obtain rfl := Option.some.inj (hfields.symm.trans hms)
    simp [byteEnumerators, TypeStream.Fits, TypeStream.place?]
  obtain ⟨f₀, f, _, type, d, hopen, hf, htag, hentry, _⟩ :=
    exists_completed Decorated.demangler hends henums he rfl rfl rfl (.inr hlist) hfit {} fun g hg => TypeGraph.hasSize_byteEnum (fun _ _ => rfl) (hg ▸ he)
  obtain ⟨f', hcomplete, hfull⟩ := (recorded_enumerators hopen hf he hform).1 type d hends rfl
    (.inr hlist) hfit htag hentry
  obtain ⟨tag, ms, hmade, hms, -, hrecorded⟩ :=
    (recorded_enumerators hopen (performAll?_complete hf hcomplete) he hform).2 d hfull
  obtain rfl := Option.some.inj (hfields.symm.trans hms)
  have hlisted : byteEnumerators.filterMap Member.enumerator?
      = [(Text.utf8 "a", -2), (Text.utf8 "b", 300), (Text.utf8 "d", 200)] := by
    decide +kernel
  refine ⟨f₀, f, f', type, d, tag, hopen, hf, hcomplete, hmade, ?_⟩
  rw [hlisted] at hrecorded
  generalize tag.enumerators = es at hrecorded ⊢
  obtain _ | @⟨_, ⟨_, a⟩, _, _, ⟨rfl, ha⟩, hrecorded⟩ := hrecorded
  obtain _ | @⟨_, ⟨_, b⟩, _, _, ⟨rfl, hb⟩, hrecorded⟩ := hrecorded
  obtain _ | @⟨_, ⟨_, d⟩, _, _, ⟨rfl, hd⟩, _ | _⟩ := hrecorded
  obtain rfl : 254 = a := ha.only (by decide) (by decide) 254 (by decide)
  obtain rfl : 44 = b := hb.only (by decide) (by decide) 44 (by decide)
  obtain rfl : d = 200 := hd.same (by decide) (by decide) (by decide)
  simp [Text.lossy_utf8]

end SymbolFile
end Pdb
