import Pdb.Proofs.Lifecycle
import Pdb.Proofs.NumericLeaf

/-! # What a member adds to a tag type

`Adds` says what one member adds to a tag type and to its layout if the types that there are are known:
by the bits of its attribute word, the numbers that its leaves denote, the bit field that it may be, and
for an overload set by the bytes of the entries. A member is left out for one of the reasons in `LeftOut`
and for no other. Nothing here is taken from the way in which members are added, but that a nested type
is inside is left to `definesNested`. That what is computed there is what a member adds is
`adds_additions`, and there is only one thing that it may add (`Adds.eq_additions`).
-/

namespace Pdb

/-! ### Stored integers -/

namespace Numeric

/-- `w` is an integer of `size` bytes, and has the low bytes of `v`. -/
def Stored (size : Nat) (signed : Bool) (v w : Int) : Prop :=
  Fits (8 * size) signed w ∧ w % 2 ^ (8 * size) = v % 2 ^ (8 * size)

instance (size : Nat) (signed : Bool) (v w : Int) : Decidable (Stored size signed v w) :=
  inferInstanceAs (Decidable (_ ∧ _))

/-- What there is of the integer `v` in an enumeration with integers of this size. Sizes of zero, and of
16 bytes or more, stand for two's complements of 16 bytes. -/
def Kept (size : Nat) (signed : Bool) (v w : Int) : Prop :=
  if size = 0 ∨ 16 ≤ size then Stored 16 true v w else Stored size signed v w

section
variable {size : Nat} {signed : Bool} {v w w' : Int}

theorem low_emod {k : Nat} (hk : k ≤ 128) :
    (((v % 2 ^ 128).toNat % 2 ^ k : Nat) : Int) % 2 ^ k = v % 2 ^ k := by
  have hdvd : (2 : Int) ^ k ∣ 2 ^ 128 := pow_dvd_pow 2 hk
  rw [Int.natCast_emod, cast_two_pow, Int.emod_emod, Int.toNat_of_nonneg (Int.emod_nonneg _ (by decide)),
    Int.emod_emod_of_dvd _ hdvd]

/-- The bits of an integer, read with a size and a signedness. -/
def lowBits (size : Nat) (signed : Bool) (v : Int) : Bits :=
  ⟨(v % 2 ^ 128).toNat % 2 ^ (8 * size), 8 * size, signed⟩

theorem stored_lowBits (hpos : 0 < size) (hle : size ≤ 16) (signed : Bool) (v : Int) :
    Stored size signed v (lowBits size signed v).value := by
  refine ⟨@Bits.fits_value (lowBits size signed v) (Nat.mod_lt _ (Nat.two_pow_pos _))
    (Nat.mul_pos (by decide) hpos), ?_⟩
  exact (lowBits size signed v).emod_value.symm.trans (low_emod (by omega))

theorem Stored.eq_lowBits (h : Stored size signed v w) (hpos : 0 < size) (hle : size ≤ 16) :
    w = (lowBits size signed v).value := by
  refine (Bits.value_of_emod (by omega) (Nat.mod_lt _ (Nat.two_pow_pos _)) ?_ h.1).symm
  rw [low_emod (by omega), h.2]

theorem Kept.unique (h : Kept size signed v w) (h' : Kept size signed v w') : w = w' := by
  rw [Kept] at h h'
  split at h
  · next hsize =>
    rw [if_pos hsize] at h'
    rw [h.eq_lowBits (by decide) (by decide), h'.eq_lowBits (by decide) (by decide)]
  · next hsize =>
    rw [if_neg hsize] at h'
    rw [h.eq_lowBits (by omega) (by omega), h'.eq_lowBits (by omega) (by omega)]

theorem truncated_eq_lowBits (hpos : 0 < size) (hlt : size < 16) :
    truncated (v % 2 ^ 128).toNat size signed = (lowBits size signed v).value := by
  rw [truncated, if_neg (by omega), lowBits, Bits.value]

theorem truncated_wide (hsize : size = 0 ∨ 16 ≤ size) :
    truncated (v % 2 ^ 128).toNat size signed = (lowBits 16 true v).value := by
  rw [truncated, if_pos hsize, lowBits, Bits.value, if_pos rfl]

theorem kept_truncated (size : Nat) (signed : Bool) (v : Int) :
    Kept size signed v (truncated (v % 2 ^ 128).toNat size signed) := by
  rw [Kept]
  split
  · next hsize =>
    rw [truncated_wide hsize]
    exact stored_lowBits (by decide) (by decide) true v
  · next hsize =>
    rw [truncated_eq_lowBits (by omega) (by omega)]
    exact stored_lowBits (by omega) (by omega) signed v

end

/-- An offset: the natural number of 64 bits that a leaf denotes. -/
def Offset (n : Numeric) (o : Nat) : Prop := n.Denotes o ∧ o < 2 ^ 64

theorem Offset.unique {n : Numeric} {o o' : Nat} (h : n.Offset o) (h' : n.Offset o') : o = o' :=
  Int.ofNat_inj.1 (h.1.unique h'.1)

theorem WellFormed.offset_iff {n : Numeric} (h : n.WellFormed) {o : Nat} :
    n.Offset o ↔ n.size? = some o := by
  rw [Offset, h.denotes_iff, size?_eq h, uint64?, inRange?]
  cases hv : n.value? with
  | none => simp
  | some v =>
    simp only [Option.some.injEq, Option.map_eq_some_iff, Option.filter_eq_some_iff,
      decide_eq_true_eq]
    constructor
    · rintro ⟨rfl, ho⟩
      exact ⟨o, ⟨rfl, by omega⟩, rfl⟩
    · rintro ⟨w, ⟨rfl, hw⟩, rfl⟩
      omega

end Numeric

/-! ### Attribute words -/

namespace MemberAttributes
variable {a : MemberAttributes} {default v v' : Visibility} {t t' : MethodTraits}

/-- The access to a member, in bits 0 and 1. If none is stated it is that of the record. -/
inductive Grants (a : MemberAttributes) (default : Visibility) : Visibility → Prop
  | unstated : a.bits.toNat % 4 = 0 → Grants a default default
  | private_ : a.bits.toNat % 4 = 1 → Grants a default .private_
  | protected_ : a.bits.toNat % 4 = 2 → Grants a default .protected_
  | public_ : a.bits.toNat % 4 = 3 → Grants a default .public_

theorem Grants.unique (h : a.Grants default v) (h' : a.Grants default v') : v = v' := by
  cases h <;> cases h' <;> first | rfl | omega

theorem grants_accessOr (a : MemberAttributes) (default : Visibility) :
    a.Grants default (a.accessOr default) := by
  have hcases : a.bits.toNat % 4 = 0 ∨ a.bits.toNat % 4 = 1 ∨ a.bits.toNat % 4 = 2
      ∨ a.bits.toNat % 4 = 3 := by
    omega
  rw [accessOr, access]
  rcases hcases with h | h | h | h <;> rw [h]
  exacts [.unstated h, .private_ h, .protected_ h, .public_ h]

/-- What is said of a function by the method kind, in bits 2 to 4, and by bit 5. The kinds are 1 for
virtual functions, 2 for static ones, 4 for those that introduce a virtual function, 5 for pure ones, and
6 for pure ones that introduce one. -/
structure Says (a : MemberAttributes) (t : MethodTraits) : Prop where
  isVirtual : t.isVirtual ↔ a.bits.toNat / 4 % 8 ∈ [1, 4, 5, 6]
  isStatic : t.isStatic ↔ a.bits.toNat / 4 % 8 = 2
  isPure : t.isPure ↔ a.bits.toNat / 4 % 8 ∈ [5, 6]
  isArtificial : t.isArtificial ↔ a.bits.toNat / 32 % 2 = 1

theorem Says.unique (h : a.Says t) (h' : a.Says t') : t = t' := by
  have hvirtual := Bool.eq_iff_iff.2 (h.isVirtual.trans h'.isVirtual.symm)
  have hstatic := Bool.eq_iff_iff.2 (h.isStatic.trans h'.isStatic.symm)
  have hpure := Bool.eq_iff_iff.2 (h.isPure.trans h'.isPure.symm)
  have hartificial := Bool.eq_iff_iff.2 (h.isArtificial.trans h'.isArtificial.symm)
  cases t
  cases t'
  exact MethodTraits.mk.injEq .. ▸ ⟨hvirtual, hstatic, hpure, hartificial⟩

theorem says_traits (a : MemberAttributes) : a.Says a.traits := by
  constructor
  case isArtificial => rw [traits, isArtificial, Nat.testBit_eq_decide_div_mod_eq, decide_eq_true_iff]
  all_goals
    rw [traits, methodKind]
    split <;> simp_all

end MemberAttributes

/-! ### The entries of overload sets -/

namespace MethodEntry

/-- The number in the `n` bytes from `i` on. -/
def numberAt (bs : Bytes) (i n : Nat) : Nat := Bytes.leNat ((bs.drop i).take n)

/-- The length of an entry with this attribute word: the word, two bytes that mean nothing, a type, and
an offset if bits 2 to 5 of the word are 4 or 6. -/
def lengthFor (attr : Nat) : Nat := if attr / 4 % 16 = 4 ∨ attr / 4 % 16 = 6 then 12 else 8

/-- The attributes and the types in the entries of an overload set, up to the first entry that is not all
there. -/
inductive Entries : Bytes → List (MemberAttributes × TypeIndex) → Prop
  | malformed {bs : Bytes} : bs.length < lengthFor (numberAt bs 0 2) → Entries bs []
  | entry {bs : Bytes} {xs : List (MemberAttributes × TypeIndex)} :
    lengthFor (numberAt bs 0 2) ≤ bs.length → Entries (bs.drop (lengthFor (numberAt bs 0 2))) xs →
    Entries bs ((⟨.ofNat (numberAt bs 0 2)⟩, ⟨.ofNat (numberAt bs 4 4)⟩) :: xs)

theorem Entries.unique {bs : Bytes} {xs ys : List (MemberAttributes × TypeIndex)} (h : Entries bs xs)
    (h' : Entries bs ys) : xs = ys := by
  induction h generalizing ys with
  | malformed hlt =>
    cases h' with
    | malformed => rfl
    | entry hle => omega
  | entry hle _ ih =>
    cases h' with
    | malformed hlt => omega
    | entry _ hrest => rw [ih hrest]

theorem hasVtableOffset_numberAt (bs : Bytes) :
    (⟨.ofNat (numberAt bs 0 2)⟩ : MemberAttributes).hasVtableOffset
      = decide (lengthFor (numberAt bs 0 2) = 12) := by
  have hlt := Bytes.leNat_lt_two_pow (bs.take 2)
  have hlength : (bs.take 2).length ≤ 2 := List.length_take_le ..
  have hword : numberAt bs 0 2 < 2 ^ 16 :=
    hlt.trans_le (Nat.pow_le_pow_right (by decide) (by omega))
  have hcode : (UInt16.ofNat (numberAt bs 0 2)).toNat = numberAt bs 0 2 :=
    UInt16.toNat_ofNat_of_lt' hword
  rw [MemberAttributes.hasVtableOffset, hcode, lengthFor]
  split <;> simp_all

section
open Decoder
variable {α β γ : Type}

theorem take_bind (n : Nat) (g : Bytes → β) (f : β → Decoder α) (bs : Bytes) :
    ((g <$> take n) >>= f) bs
      = if bs.length < n then none else f (g (bs.take n)) (bs.drop n) := by
  show ((take n bs).bind _).bind _ = _
  rw [take, List.length_take]
  by_cases h : bs.length < n
  · rw [if_neg (by omega), if_pos h]
    rfl
  · rw [if_pos (by omega), if_neg h]
    rfl

/-- What is made of a word is made of its bytes. -/
theorem map_word (n : Nat) (h : Nat → β) (g : β → γ) :
    g <$> h <$> word n = (fun bs => g (h (Bytes.leNat bs))) <$> take n := by
  funext bs
  show (((take n bs).map _).bind _).bind _ = (take n bs).bind _
  cases take n bs <;> rfl

theorem skip_eq (n : Nat) : skip n = (fun _ => ()) <$> take n := by
  funext bs
  show (take n bs).map _ = (take n bs).bind _
  cases take n bs <;> rfl

/-- An entry is read exactly if it is all there. -/
theorem decode_eq (bs : Bytes) : decode bs = if bs.length < lengthFor (numberAt bs 0 2) then none
    else some (⟨⟨.ofNat (numberAt bs 0 2)⟩, ⟨.ofNat (numberAt bs 4 4)⟩,
      if lengthFor (numberAt bs 0 2) = 12 then some (.ofNat (numberAt bs 8 4)) else none⟩,
      bs.drop (lengthFor (numberAt bs 0 2))) := by
  have hword : Bytes.leNat (bs.take 2) = numberAt bs 0 2 := rfl
  have hoffset := hasVtableOffset_numberAt bs
  rw [decode, MemberAttributes.decode, TypeIndex.decode, u16, u32, map_word, skip_eq, map_word,
    take_bind, take_bind, take_bind]
  simp only [vtableOffsetIf, hword, hoffset, u32, map_word, List.drop_drop, List.length_drop]
  by_cases h12 : lengthFor (numberAt bs 0 2) = 12
  · simp only [h12, decide_true, if_true]
    rw [take_bind]
    simp only [List.length_drop, List.drop_drop]
    split_ifs <;> first | rfl | omega
  · have h8 : lengthFor (numberAt bs 0 2) = 8 := by
      rw [lengthFor] at h12 ⊢
      split_ifs at h12 ⊢ <;> omega
    simp only [h12, decide_false, Bool.false_eq_true, if_false]
    rw [h8]
    split_ifs <;> first | rfl | omega

end

theorem entries_list (bs : Bytes) : Entries bs ((list bs).map fun e => (e.attr, e.type)) := by
  induction bs using Decoder.many_induct decode_progress with
  | stop bs h =>
    rw [list, listWithRest, Decoder.many_eq, h]
    rw [decode_eq] at h
    by_cases hlt : bs.length < lengthFor (numberAt bs 0 2)
    · exact .malformed hlt
    · rw [if_neg hlt] at h
      exact nomatch h
  | value bs e r h ih =>
    rw [list, listWithRest, Decoder.many_eq, h]
    rw [decode_eq] at h
    by_cases hlt : bs.length < lengthFor (numberAt bs 0 2)
    · rw [if_pos hlt] at h
      exact nomatch h
    · rw [if_neg hlt] at h
      obtain ⟨rfl, rfl⟩ := Prod.mk.inj (Option.some.inj h)
      exact .entry (Nat.le_of_not_lt hlt) ih

end MethodEntry

/-! ### Additions -/

/-- What a member adds to a tag type and to its layout. -/
structure Additions where
  /-- Each with its place in bits. -/
  fields : List (ModelField × Nat) := []
  bases : List ModelBase := []
  /-- The offsets in bytes of the bases that are not virtual. -/
  offsets : List (Uid × Nat) := []
  statics : List ModelField := []
  methods : List ModelMethod := []
  enumerators : List (String × Int) := []
  nested : List (String × TypeHandle) := []

def Additions.none : Additions where

namespace ModelTag

def add (t : ModelTag) (a : Additions) : ModelTag :=
  { t with
    fields := t.fields ++ a.fields.map Prod.fst
    bases := t.bases ++ a.bases
    statics := t.statics ++ a.statics
    methods := t.methods ++ a.methods
    enumerators := t.enumerators ++ a.enumerators
    nested := t.nested ++ a.nested }

end ModelTag

def RecordLayout.add (l : RecordLayout) (a : Additions) : RecordLayout :=
  { l with
    fields := l.fields ++ a.fields.map fun f => (f.1.name, f.2)
    bases := l.bases ++ a.offsets }

/-- All that a tag type has, it has from some additions, in their order. -/
structure AddedUp (tag : ModelTag) (layout : RecordLayout) (adds : List Additions) : Prop where
  fields : tag.fields = (adds.flatMap Additions.fields).map Prod.fst
  places : layout.fields = (adds.flatMap Additions.fields).map fun f => (f.1.name, f.2)
  bases : tag.bases = adds.flatMap Additions.bases
  offsets : layout.bases = adds.flatMap Additions.offsets
  statics : tag.statics = adds.flatMap Additions.statics
  methods : tag.methods = adds.flatMap Additions.methods
  enumerators : tag.enumerators = adds.flatMap Additions.enumerators
  nested : tag.nested = adds.flatMap Additions.nested

namespace AddedUp
variable {tag : ModelTag} {layout : RecordLayout} {adds : List Additions}

theorem of_isBlank (h : tag.IsBlank) (size : Nat) : AddedUp tag ⟨size, [], []⟩ [] :=
  ⟨h.fields, rfl, h.bases, rfl, h.statics, h.methods, h.enumerators, h.nested⟩

theorem add (h : AddedUp tag layout adds) (a : Additions) :
    AddedUp (tag.add a) (layout.add a) (adds ++ [a]) := by
  constructor <;> simp [ModelTag.add, RecordLayout.add, h.fields, h.places, h.bases, h.offsets,
    h.statics, h.methods, h.enumerators, h.nested]

theorem pass (h : AddedUp tag layout adds) : AddedUp tag layout (adds ++ [.none]) := by
  constructor <;> simp [Additions.none, h.fields, h.places, h.bases, h.offsets, h.statics, h.methods,
    h.enumerators, h.nested]

/-- Functions that are added one by one, or as one set. -/
theorem gather {β : Type} {f : β → List ModelMethod} {xs : List β}
    (h : AddedUp tag layout (adds ++ xs.map fun x => { methods := f x })) :
    AddedUp tag layout (adds ++ [{ methods := xs.flatMap f }]) := by
  obtain ⟨hfields, hplaces, hbases, hoffsets, hstatics, hmethods, henumerators, hnested⟩ := h
  constructor <;> simp_all [List.flatMap_append, List.flatMap_map]

theorem complete (h : AddedUp tag layout adds) :
    AddedUp (tag.apply (.complete layout)) layout adds :=
  ⟨h.fields, h.places, h.bases, h.offsets, h.statics, h.methods, h.enumerators, h.nested⟩

theorem names_eq (h : AddedUp tag layout adds) : layout.fields.map Prod.fst = tag.fields.map (·.name) := by
  rw [h.fields, h.places, List.map_map, List.map_map]
  rfl

end AddedUp

namespace TypeGraph
variable {g : TypeGraph} {t : TagShape} {handle? : TypeIndex → Option TypeHandle} {m : Member}
  {a a' : Additions}

/-- What a function adds to a tag type, if `handle?` has the types that there are. -/
inductive FunctionAdds (t : TagShape) (handle? : TypeIndex → Option TypeHandle) (name : Bytes)
    (attr : MemberAttributes) (type : TypeIndex) : List ModelMethod → Prop
  | missing : handle? type = none → FunctionAdds t handle? name attr type []
  | made {handle : TypeHandle} {access : Visibility} {traits : MethodTraits} :
    handle? type = some handle → attr.Grants t.defaultAccess access → attr.Says traits →
    FunctionAdds t handle? name attr type [⟨Text.lossy name, handle, access, traits⟩]

/-- A member adds nothing. -/
inductive LeftOut (g : TypeGraph) (t : TagShape) (handle? : TypeIndex → Option TypeHandle) :
    Member → Prop
  /-- The offset is no natural number of 64 bits. -/
  | offset {attr type offset name} : (∀ o, ¬ offset.Offset o) →
    LeftOut g t handle? (.data attr type offset name)
  | data {attr type offset name} : handle? (g.stream.baseType type) = none →
    LeftOut g t handle? (.data attr type offset name)
  | baseClass {attr type offset} : handle? type = none →
    LeftOut g t handle? (.baseClass attr type offset)
  | virtualBase {indirect attr type pointer pointerOffset tableOffset} : handle? type = none →
    LeftOut g t handle? (.virtualBase indirect attr type pointer pointerOffset tableOffset)
  /-- The nested type is declared in the record instead. -/
  | inside {m : Member} {type name} : m.nested? = some (type, name) → g.definesNested t type name →
    LeftOut g t handle? m
  | nested {m : Member} {type name} : m.nested? = some (type, name) → handle? type = none →
    LeftOut g t handle? m
  | static {attr type name} : handle? type = none → LeftOut g t handle? (.static attr type name)
  /-- The list of the functions is missing. -/
  | overloads {count list name} : (∀ bs, g.stream.type? list ≠ some (.methodList bs)) →
    LeftOut g t handle? (.overloads count list name)
  /-- Only an enumeration has enumerators. -/
  | enumerator {attr value name} : t.integers? = none →
    LeftOut g t handle? (.enumerator attr value name)
  | value {attr value name} : (∀ v, ¬ value.Denotes v) →
    LeftOut g t handle? (.enumerator attr value name)
  | friendFunction {type name} : LeftOut g t handle? (.friendFunction type name)
  | friendClass {type} : LeftOut g t handle? (.friendClass type)
  | vtablePointer {type} : LeftOut g t handle? (.vtablePointer type)
  | vtableOffset {type offset} : LeftOut g t handle? (.vtableOffset type offset)
  | continuation {list} : LeftOut g t handle? (.continuation list)

/-- What a member adds to a tag type, if `handle?` has the types that there are. -/
inductive Adds (g : TypeGraph) (t : TagShape) (handle? : TypeIndex → Option TypeHandle) :
    Member → Additions → Prop
  | leftOut {m : Member} : LeftOut g t handle? m → Adds g t handle? m .none
  | data {attr type offset name o handle access} : offset.Offset o →
    handle? (g.stream.baseType type) = some handle → attr.Grants t.defaultAccess access →
    Adds g t handle? (.data attr type offset name) {
      fields := [(⟨Text.lossy name, handle, access, g.stream.bitWidth? type⟩,
        8 * o + g.stream.firstBit type)] }
  /-- A base with an offset that is no number of 64 bits is put at the start. -/
  | baseClass {attr type offset o handle access} :
    (offset.Offset o ∨ o = 0 ∧ ∀ o', ¬ offset.Offset o') → handle? type = some handle →
    attr.Grants t.defaultAccess access →
    Adds g t handle? (.baseClass attr type offset) {
      bases := [⟨handle, access, false⟩], offsets := [((g.target type).uid, o)] }
  | virtualBase {indirect attr type pointer pointerOffset tableOffset handle access} :
    handle? type = some handle → attr.Grants t.defaultAccess access →
    Adds g t handle? (.virtualBase indirect attr type pointer pointerOffset tableOffset) {
      bases := [⟨handle, access, true⟩] }
  | nested {m : Member} {type name handle} : m.nested? = some (type, name) →
    g.definesNested t type name = false → handle? type = some handle →
    Adds g t handle? m { nested := [(Text.lossy name, handle)] }
  | static {attr type name handle access} : handle? type = some handle →
    attr.Grants t.defaultAccess access →
    Adds g t handle? (.static attr type name) {
      statics := [⟨Text.lossy name, handle, access, none⟩] }
  | method {attr type offset name ms} : FunctionAdds t handle? name attr type ms →
    Adds g t handle? (.method attr type offset name) { methods := ms }
  | overloads {count list name bs xs ms} : g.stream.type? list = some (.methodList bs) →
    MethodEntry.Entries bs xs →
    List.Forall₂ (fun x ms => FunctionAdds t handle? name x.1 x.2 ms) xs ms →
    Adds g t handle? (.overloads count list name) { methods := ms.flatten }
  | enumerator {attr value name size signed v w} : t.integers? = some (size, signed) →
    value.Denotes v → Numeric.Kept size signed v w →
    Adds g t handle? (.enumerator attr value name) { enumerators := [(Text.lossy name, w)] }

/-! ### What is computed -/

/-- What a member adds to a tag type, by the same steps as `addMember`. -/
def additions (g : TypeGraph) (t : TagShape) (handle? : TypeIndex → Option TypeHandle) :
    Member → Additions
  | .data attr type offset name =>
    let (type, bitWidth, position) := g.dataPlace type
    match offset.size?, handle? type with
    | some offset, some type => {
        fields := [(⟨Text.lossy name, type, attr.accessOr t.defaultAccess, bitWidth⟩,
          8 * offset + position)] }
    | _, _ => .none
  | .baseClass attr type offset => (handle? type).elim .none fun base => {
      bases := [⟨base, attr.accessOr t.defaultAccess, false⟩]
      offsets := [((g.target type).uid, offset.size?.getD 0)] }
  | .virtualBase _ attr type _ _ _ => (handle? type).elim .none fun base => {
      bases := [⟨base, attr.accessOr t.defaultAccess, true⟩] }
  | .nested type name | .nestedEx _ type name =>
    if g.definesNested t type name then .none
    else (handle? type).elim .none fun type => { nested := [(Text.lossy name, type)] }
  | .static attr type name => (handle? type).elim .none fun type => {
      statics := [⟨Text.lossy name, type, attr.accessOr t.defaultAccess, none⟩] }
  | .method attr type _ name => { methods := function attr type name }
  | .overloads _ list name =>
    match g.stream.type? list with
    | some (.methodList bs) =>
      { methods := (MethodEntry.list bs).flatMap fun e => function e.attr e.type name }
    | _ => .none
  | .enumerator _ value name =>
    match t.integers?, value.bits? with
    | some (size, signed), some bits => {
        enumerators := [(Text.lossy name, truncated (bits.extended bits.signed) size signed)] }
    | _, _ => .none
  | _ => .none
where
  function (attr : MemberAttributes) (type : TypeIndex) (name : Bytes) : List ModelMethod :=
    ((handle? type).map fun type =>
      ⟨Text.lossy name, type, attr.accessOr t.defaultAccess, attr.traits⟩).toList

theorem functionAdds_iff {name : Bytes} {attr : MemberAttributes} {type : TypeIndex}
    {ms : List ModelMethod} : FunctionAdds t handle? name attr type ms
      ↔ ms = additions.function t handle? attr type name := by
  constructor
  · rintro (h | ⟨h, haccess, htraits⟩)
    · rw [additions.function, h]
      rfl
    · rw [additions.function, h, haccess.unique (attr.grants_accessOr _), htraits.unique attr.says_traits]
      rfl
  · rintro rfl
    rw [additions.function]
    cases h : handle? type with
    | none => exact .missing h
    | some handle => exact .made h (attr.grants_accessOr _) attr.says_traits

theorem overloads_eq {name : Bytes} {bs : Bytes} {xs : List (MemberAttributes × TypeIndex)}
    {ms : List (List ModelMethod)} (hxs : MethodEntry.Entries bs xs)
    (h : List.Forall₂ (fun x ms => FunctionAdds t handle? name x.1 x.2 ms) xs ms) :
    ms.flatten = (MethodEntry.list bs).flatMap fun e =>
      additions.function t handle? e.attr e.type name := by
  obtain rfl := hxs.unique (MethodEntry.entries_list bs)
  rw [List.forall₂_map_left_iff] at h
  rw [List.flatMap_def]
  congr 1
  generalize MethodEntry.list bs = es at h
  induction h with
  | nil => rfl
  | cons hm _ ih => rw [List.map_cons, functionAdds_iff.1 hm, ih]

theorem additions_of_leftOut (hm : m.WellFormed) (h : LeftOut g t handle? m) :
    g.additions t handle? m = .none := by
  cases h with
  | @offset attr type offset name ho =>
    have hnone : offset.size? = none :=
      Option.eq_none_iff_forall_ne_some.2 fun o h => ho o (hm.1.offset_iff.2 h)
    simp only [additions, hnone]
  | @data attr type offset name h =>
    simp only [additions, dataPlace_eq, h]
    cases offset.size? <;> rfl
  | baseClass h | virtualBase h | static h => simp only [additions, h, Option.elim_none]
  | inside hp hinside =>
    cases m with
    | nested | nestedEx => cases hp; simp only [additions, hinside, if_true]
    | _ => cases hp
  | nested hp h =>
    cases m with
    | nested | nestedEx => cases hp; simp only [additions, h, Option.elim_none, ite_self]
    | _ => cases hp
  | overloads h =>
    rw [additions]
    split
    · next bs hbs => exact absurd hbs (h bs)
    · rfl
  | enumerator h => simp only [additions, h]
  | @value attr value name h =>
    have hnone : value.bits? = none := by
      cases hb : value.bits? with
      | none => rfl
      | some b => exact absurd (hm.1.denotes_iff.2 (by rw [Numeric.value?, hb]; rfl)) (h b.value)
    simp only [additions, hnone]
    cases t.integers? <;> rfl
  | friendFunction | friendClass | vtablePointer | vtableOffset | continuation => rfl

/-- There is only one thing that a member may add. -/
theorem Adds.eq_additions (hm : m.WellFormed) (h : g.Adds t handle? m a) :
    a = g.additions t handle? m := by
  cases h with
  | leftOut h => exact (additions_of_leftOut hm h).symm
  | data ho h haccess =>
    have hsize := hm.1.offset_iff.1 ho
    simp only [additions, dataPlace_eq, hsize, h, haccess.unique (MemberAttributes.grants_accessOr _ _)]
  | @baseClass attr type offset o handle access ho h haccess =>
    have hsize : offset.size?.getD 0 = o := by
      rcases ho with ho | ⟨rfl, ho⟩
      · rw [hm.offset_iff.1 ho, Option.getD_some]
      · rw [Option.eq_none_iff_forall_ne_some.2 fun o h => ho o (hm.offset_iff.2 h), Option.getD_none]
    simp only [additions, h, Option.elim_some, hsize,
      haccess.unique (MemberAttributes.grants_accessOr _ _)]
  | virtualBase h haccess | static h haccess =>
    simp only [additions, h, Option.elim_some, haccess.unique (MemberAttributes.grants_accessOr _ _)]
  | nested hp hinside h =>
    cases m with
    | nested | nestedEx =>
      cases hp
      simp only [additions, hinside, Bool.false_eq_true, if_false, h, Option.elim_some]
    | _ => cases hp
  | method h => rw [additions, functionAdds_iff.1 h]
  | overloads hlist hxs h => simp only [additions, hlist, overloads_eq hxs h]
  | @enumerator attr value name size signed v w hintegers hv hw =>
    obtain ⟨b, hb, rfl⟩ := hv.exists_bits
    simp only [additions, hintegers, hb, hw.unique (Numeric.kept_truncated size signed b.value)]
    rfl

theorem adds_additions (hm : m.WellFormed) : g.Adds t handle? m (g.additions t handle? m) := by
  -- each member is left out for a reason, or what it adds is as it says
  suffices hadds : ∃ a, g.Adds t handle? m a by
    obtain ⟨a, ha⟩ := hadds
    exact ha.eq_additions hm ▸ ha
  have haccess (attr : MemberAttributes) := attr.grants_accessOr t.defaultAccess
  have hnested {type : TypeIndex} {name : Bytes} (hp : m.nested? = some (type, name)) :
      ∃ a, g.Adds t handle? m a := by
    cases hinside : g.definesNested t type name with
    | true => exact ⟨_, .leftOut (.inside hp hinside)⟩
    | false =>
      cases h : handle? type with
      | none => exact ⟨_, .leftOut (.nested hp h)⟩
      | some handle => exact ⟨_, .nested hp hinside h⟩
  cases m with
  | data attr type offset name =>
    by_cases ho : ∃ o, offset.Offset o
    · obtain ⟨o, ho⟩ := ho
      cases h : handle? (g.stream.baseType type) with
      | none => exact ⟨_, .leftOut (.data h)⟩
      | some handle => exact ⟨_, .data ho h (haccess attr)⟩
    · exact ⟨_, .leftOut (.offset fun o h => ho ⟨o, h⟩)⟩
  | baseClass attr type offset =>
    cases h : handle? type with
    | none => exact ⟨_, .leftOut (.baseClass h)⟩
    | some handle =>
      by_cases ho : ∃ o, offset.Offset o
      · obtain ⟨o, ho⟩ := ho
        exact ⟨_, .baseClass (.inl ho) h (haccess attr)⟩
      · exact ⟨_, .baseClass (.inr ⟨rfl, fun o h => ho ⟨o, h⟩⟩) h (haccess attr)⟩
  | virtualBase indirect attr type =>
    cases h : handle? type with
    | none => exact ⟨_, .leftOut (.virtualBase h)⟩
    | some handle => exact ⟨_, .virtualBase h (haccess attr)⟩
  | static attr type name =>
    cases h : handle? type with
    | none => exact ⟨_, .leftOut (.static h)⟩
    | some handle => exact ⟨_, .static h (haccess attr)⟩
  | nested type name => exact hnested rfl
  | nestedEx attr type name => exact hnested rfl
  | method attr type offset name => exact ⟨_, .method (functionAdds_iff.2 rfl)⟩
  | overloads count list name =>
    by_cases hlist : ∃ bs, g.stream.type? list = some (.methodList bs)
    · obtain ⟨bs, hbs⟩ := hlist
      have hfunctions : List.Forall₂ (fun x ms => FunctionAdds t handle? name x.1 x.2 ms)
          ((MethodEntry.list bs).map fun e => (e.attr, e.type))
          ((MethodEntry.list bs).map fun e => additions.function t handle? e.attr e.type name) := by
        rw [List.forall₂_map_left_iff, List.forall₂_map_right_iff, List.forall₂_same]
        exact fun e _ => functionAdds_iff.2 rfl
      exact ⟨_, .overloads hbs (MethodEntry.entries_list bs) hfunctions⟩
    · exact ⟨_, .leftOut (.overloads fun bs hbs => hlist ⟨bs, hbs⟩)⟩
  | enumerator attr value name =>
    cases hintegers : t.integers? with
    | none => exact ⟨_, .leftOut (.enumerator hintegers)⟩
    | some form =>
      by_cases hv : ∃ v, value.Denotes v
      · obtain ⟨v, hv⟩ := hv
        exact ⟨_, .enumerator hintegers hv (Numeric.kept_truncated form.1 form.2 v)⟩
      · exact ⟨_, .leftOut (.value fun v h => hv ⟨v, h⟩)⟩
  | friendFunction type name => exact ⟨_, .leftOut .friendFunction⟩
  | friendClass type => exact ⟨_, .leftOut .friendClass⟩
  | vtablePointer type => exact ⟨_, .leftOut .vtablePointer⟩
  | vtableOffset type offset => exact ⟨_, .leftOut .vtableOffset⟩
  | continuation list => exact ⟨_, .leftOut .continuation⟩

/-- Only data members add fields. -/
theorem exists_place_of_mem_fields {x : ModelField × Nat} (hm : m.WellFormed)
    (hx : x ∈ (g.additions t handle? m).fields) : ∃ attr type offset name,
      m = .data attr type offset name ∧ ∃ o, offset.Offset o
        ∧ (handle? (g.stream.baseType type)).isSome ∧ x.2 = 8 * o + g.stream.firstBit type := by
  have hadds : g.Adds t handle? m (g.additions t handle? m) := adds_additions hm
  generalize g.additions t handle? m = a at hadds hx
  cases hadds with
  | data ho h haccess =>
    obtain rfl := List.mem_singleton.1 hx
    exact ⟨_, _, _, _, rfl, _, ho, by rw [h]; rfl, rfl⟩
  | _ => exact absurd hx List.not_mem_nil

theorem forall₂_adds_iff {ms : List Member} (hms : ∀ m ∈ ms, m.WellFormed) {adds : List Additions} :
    List.Forall₂ (g.Adds t handle?) ms adds ↔ adds = ms.map (g.additions t handle?) := by
  induction ms generalizing adds with
  | nil => simp
  | cons m ms ih =>
    obtain ⟨hm, hms⟩ := List.forall_mem_cons.1 hms
    rw [List.forall₂_cons_left_iff, List.map_cons]
    constructor
    · rintro ⟨a, adds, ha, hadds, rfl⟩
      rw [ha.eq_additions hm, (ih hms).1 hadds]
    · rintro rfl
      exact ⟨_, _, adds_additions hm, (ih hms).2 rfl, rfl⟩

end TypeGraph
end Pdb
