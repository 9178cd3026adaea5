import Pdb.TypeRecord.Layout

/-! # Members of a class, a union or an enumeration

A member list is a sequence of members without length prefixes: where one ends is known only after
it has been decoded. Members are followed by padding bytes from `0xf0` on. `Member.list` reads a
list up to the first member that cannot be decoded, `Member.encode` writes one member. -/

namespace Pdb
open Decoder

/-- Who may use a member; `unstated` leaves it to the kind of the class. -/
inductive MemberAccess
  | unstated | private_ | protected_ | public_
  deriving DecidableEq, Repr

def MemberAccess.name : MemberAccess → String
  | .unstated => "None"
  | .private_ => "Private"
  | .protected_ => "Protected"
  | .public_ => "Public"

/-- How a member function is dispatched. -/
inductive MethodKind
  | vanilla | virtual | static | friend | introducingVirtual | pureVirtual | pureIntroducingVirtual
  | reserved
  deriving DecidableEq, Repr

def MethodKind.name : MethodKind → String
  | .vanilla => "Vanilla"
  | .virtual => "Virtual"
  | .static => "Static"
  | .friend => "Friend"
  | .introducingVirtual => "IntroducingVirtual"
  | .pureVirtual => "PureVirtual"
  | .pureIntroducingVirtual => "PureIntroducingVirtual"
  | .reserved => "Reserved"

/-- The attribute word of a member: access in bits 0 and 1, method kind in bits 2 to 4, and whether
the compiler made it in bit 5. -/
structure MemberAttributes where
  bits : UInt16
  deriving DecidableEq, Repr, Inhabited

namespace MemberAttributes

/-- Public access, and nothing else. -/
def isPublic : MemberAttributes := ⟨3⟩

def access (a : MemberAttributes) : MemberAccess :=
  match a.bits.toNat % 4 with
  | 0 => .unstated
  | 1 => .private_
  | 2 => .protected_
  | _ => .public_

def methodKind (a : MemberAttributes) : MethodKind :=
  match a.bits.toNat / 4 % 8 with
  | 0 => .vanilla
  | 1 => .virtual
  | 2 => .static
  | 3 => .friend
  | 4 => .introducingVirtual
  | 5 => .pureVirtual
  | 6 => .pureIntroducingVirtual
  | _ => .reserved

def isArtificial (a : MemberAttributes) : Bool := a.bits.toNat.testBit 5

/-- A vtable offset follows the attribute word. The test looks at bits 2 to 5. -/
def hasVtableOffset (a : MemberAttributes) : Bool :=
  a.bits.toNat / 4 % 16 = 4 ∨ a.bits.toNat / 4 % 16 = 6

end MemberAttributes

inductive Member
  | baseClass (attr : MemberAttributes) (type : TypeIndex) (offset : Numeric)
  | virtualBase (indirect : Bool) (attr : MemberAttributes) (base pointer : TypeIndex)
      (pointerOffset tableOffset : Numeric)
  | enumerator (attr : MemberAttributes) (value : Numeric) (name : Bytes)
  | friendFunction (type : TypeIndex) (name : Bytes)
  /-- The list goes on in another record. -/
  | continuation (list : TypeIndex)
  | data (attr : MemberAttributes) (type : TypeIndex) (offset : Numeric) (name : Bytes)
  | static (attr : MemberAttributes) (type : TypeIndex) (name : Bytes)
  /-- An overload set, whose functions are in a record of their own. -/
  | overloads (count : UInt16) (list : TypeIndex) (name : Bytes)
  | nested (type : TypeIndex) (name : Bytes)
  | nestedEx (attr : MemberAttributes) (type : TypeIndex) (name : Bytes)
  | vtablePointer (type : TypeIndex)
  | friendClass (type : TypeIndex)
  | method (attr : MemberAttributes) (type : TypeIndex) (vtableOffset : Option UInt32)
      (name : Bytes)
  | vtableOffset (type : TypeIndex) (offset : UInt32)
  deriving DecidableEq, Repr, Inhabited

def MemberAttributes.decode : Decoder MemberAttributes := MemberAttributes.mk <$> u16
def MemberAttributes.encode (a : MemberAttributes) : Bytes := Bytes.ofU16 a.bits

/-- The vtable offset of a function that introduces a virtual function. -/
def vtableOffsetIf (a : MemberAttributes) : Decoder (Option UInt32) :=
  if a.hasVtableOffset then some <$> u32 else pure none

instance memberAttributesLocal : Local MemberAttributes.decode := mapLocal _ _
instance vtableOffsetIfLocal (a : MemberAttributes) : Local (vtableOffsetIf a) := iteLocal _ _ _

namespace Member

def decodeVirtualBase (indirect : Bool) : Decoder Member := do
  let attr ← MemberAttributes.decode
  let base ← TypeIndex.decode
  let pointer ← TypeIndex.decode
  let pointerOffset ← Numeric.decode
  let tableOffset ← Numeric.decode
  return .virtualBase indirect attr base pointer pointerOffset tableOffset

/-- Reads what follows the leaf code of a member. -/
def decodeBody (kind : Leaf) : Decoder Member :=
  match kind with
  | .baseClass => do
    let attr ← MemberAttributes.decode
    let type ← TypeIndex.decode
    let offset ← Numeric.decode
    return .baseClass attr type offset
  | .virtualBase => decodeVirtualBase false
  | .indirectVirtualBase => decodeVirtualBase true
  | .enumerator => do
    let attr ← MemberAttributes.decode
    let value ← Numeric.decode
    let name ← text
    return .enumerator attr value name
  | .friendFunction => do
    skip 2
    let type ← TypeIndex.decode
    let name ← text
    return .friendFunction type name
  | .continuation => do
    skip 2
    return .continuation (← TypeIndex.decode)
  | .member => do
    let attr ← MemberAttributes.decode
    let type ← TypeIndex.decode
    let offset ← Numeric.decode
    let name ← text
    return .data attr type offset name
  | .staticMember => do
    let attr ← MemberAttributes.decode
    let type ← TypeIndex.decode
    let name ← text
    return .static attr type name
  | .method => do
    let count ← u16
    let list ← TypeIndex.decode
    let name ← text
    return .overloads count list name
  | .nestedType => do
    skip 2
    let type ← TypeIndex.decode
    let name ← text
    return .nested type name
  | .nestedTypeEx => do
    let attr ← MemberAttributes.decode
    let type ← TypeIndex.decode
    let name ← text
    return .nestedEx attr type name
  | .vtablePointer => do
    skip 2
    return .vtablePointer (← TypeIndex.decode)
  | .friendClass => do
    skip 2
    return .friendClass (← TypeIndex.decode)
  | .oneMethod => do
    let attr ← MemberAttributes.decode
    let type ← TypeIndex.decode
    let offset ← vtableOffsetIf attr
    let name ← text
    return .method attr type offset name
  | .vtableOffset => do
    skip 2
    let type ← TypeIndex.decode
    let offset ← u32
    return .vtableOffset type offset
  | _ => fail

def decode : Decoder Member := u16 >>= fun code => decodeBody ⟨code⟩

/-- Padding between members. -/
def isPadding (b : UInt8) : Bool := 0xf0 ≤ b

/-- Reads one member behind any padding. -/
def next : Decoder Member := fun bs => decode (bs.dropWhile isPadding)

instance decodeBodyLocal (kind : Leaf) : Local (decodeBody kind) := by
  unfold decodeBody decodeVirtualBase
  split <;> infer_instance

theorem decode_progress : Progress decode := u16_progress.bind fun _ => inferInstance

theorem next_progress : Progress next := fun _ _ _ h =>
  Nat.lt_of_lt_of_le (decode_progress _ _ _ h) (List.dropWhile_sublist _).length_le

/-- The members of a list, up to the first that cannot be decoded, and the bytes left there. Padding
at the end is no rest. -/
def listWithRest (bs : Bytes) : List Member × Bytes :=
  let (members, r) := many next next_progress bs
  (members, if r.all isPadding then [] else r)

def list (bs : Bytes) : List Member := (listWithRest bs).1

/-- The bytes of a member, without padding. -/
def encode : Member → Bytes
  | .baseClass attr type offset =>
    leafCode .baseClass ++ attr.encode ++ type.encode ++ offset.encode
  | .virtualBase indirect attr base pointer pointerOffset tableOffset =>
    leafCode (if indirect then .indirectVirtualBase else .virtualBase) ++ attr.encode
      ++ base.encode ++ pointer.encode ++ pointerOffset.encode ++ tableOffset.encode
  | .enumerator attr value name =>
    leafCode .enumerator ++ attr.encode ++ value.encode ++ Bytes.ofText name
  | .friendFunction type name =>
    leafCode .friendFunction ++ [0, 0] ++ type.encode ++ Bytes.ofText name
  | .continuation list => leafCode .continuation ++ [0, 0] ++ list.encode
  | .data attr type offset name =>
    leafCode .member ++ attr.encode ++ type.encode ++ offset.encode ++ Bytes.ofText name
  | .static attr type name =>
    leafCode .staticMember ++ attr.encode ++ type.encode ++ Bytes.ofText name
  | .overloads count list name =>
    leafCode .method ++ Bytes.ofU16 count ++ list.encode ++ Bytes.ofText name
  | .nested type name => leafCode .nestedType ++ [0, 0] ++ type.encode ++ Bytes.ofText name
  | .nestedEx attr type name =>
    leafCode .nestedTypeEx ++ attr.encode ++ type.encode ++ Bytes.ofText name
  | .vtablePointer type => leafCode .vtablePointer ++ [0, 0] ++ type.encode
  | .friendClass type => leafCode .friendClass ++ [0, 0] ++ type.encode
  | .method attr type offset name =>
    leafCode .oneMethod ++ attr.encode ++ type.encode ++ (offset.map Bytes.ofU32).getD []
      ++ Bytes.ofText name
  | .vtableOffset type offset =>
    leafCode .vtableOffset ++ [0, 0] ++ type.encode ++ Bytes.ofU32 offset
where
  leafCode (l : Leaf) : Bytes := Bytes.ofU16 l.code

end Member

/-! ### Overload sets -/

structure MethodEntry where
  attr : MemberAttributes
  type : TypeIndex
  vtableOffset : Option UInt32
  deriving DecidableEq, Repr, Inhabited

namespace MethodEntry

def decode : Decoder MethodEntry := do
  let attr ← MemberAttributes.decode
  skip 2
  let type ← TypeIndex.decode
  let vtableOffset ← vtableOffsetIf attr
  return { attr, type, vtableOffset }

theorem decode_progress : Progress decode :=
  (u16_progress.map _).bind fun _ => inferInstance

/-- The functions of an overload set up to the first that cannot be decoded, and the bytes left
there; the set is well-formed if there are none. -/
def listWithRest (bs : Bytes) : List MethodEntry × Bytes := many decode decode_progress bs

def list (bs : Bytes) : List MethodEntry := (listWithRest bs).1

def encode (m : MethodEntry) : Bytes :=
  m.attr.encode ++ [0, 0] ++ m.type.encode ++ (m.vtableOffset.map Bytes.ofU32).getD []

end MethodEntry
end Pdb
