import Pdb.RawRecord
import Pdb.TypeRecord

/-! # The layout of type records

`TypeRecord.decode` reads the payload of a record by its leaf code, `TypeRecord.encode` writes it.
Each fixed part is a sequence of words without gaps; a decorated name is there only if the property
word says so. -/

namespace Pdb
open Decoder

def TypeIndex.decode : Decoder TypeIndex := TypeIndex.mk <$> u32
def TypeIndex.encode (ti : TypeIndex) : Bytes := Bytes.ofU32 ti.val
def Properties.decode : Decoder Properties := Properties.mk <$> u16

instance typeIndexLocal : Local TypeIndex.decode := mapLocal _ _
instance propertiesLocal : Local Properties.decode := mapLocal _ _

/-- The decorated name that the property word announces. -/
def uniqueNameIf (p : Properties) : Decoder (Option Bytes) :=
  if p.hasUniqueName then some <$> text else pure none

/-- The display name and the decorated name of a record. -/
def encodeNames (name : Bytes) (uniqueName : Option Bytes) : Bytes :=
  Bytes.ofText name ++ (uniqueName.map Bytes.ofText).getD []

instance uniqueNameIfLocal (p : Properties) : Local (uniqueNameIf p) := iteLocal _ _ _

namespace ArrayRecord

def decode : Decoder ArrayRecord := do
  let element ← TypeIndex.decode
  let index ← TypeIndex.decode
  let length ← Numeric.decode
  let name ← text
  return { element, index, length, name }

def encode (r : ArrayRecord) : Bytes :=
  r.element.encode ++ r.index.encode ++ r.length.encode ++ Bytes.ofText r.name

end ArrayRecord

namespace ClassRecord

def decode : Decoder ClassRecord := do
  let count ← u16
  let properties ← Properties.decode
  let fieldList ← TypeIndex.decode
  let derived ← TypeIndex.decode
  let vtableShape ← TypeIndex.decode
  let length ← Numeric.decode
  let name ← text
  let uniqueName ← uniqueNameIf properties
  return { count, properties, fieldList, derived, vtableShape, length, name, uniqueName }

def encode (r : ClassRecord) : Bytes :=
  Bytes.ofU16 r.count ++ Bytes.ofU16 r.properties.bits ++ r.fieldList.encode ++ r.derived.encode
    ++ r.vtableShape.encode ++ r.length.encode ++ encodeNames r.name r.uniqueName

end ClassRecord

namespace UnionRecord

def decode : Decoder UnionRecord := do
  let count ← u16
  let properties ← Properties.decode
  let fieldList ← TypeIndex.decode
  let length ← Numeric.decode
  let name ← text
  let uniqueName ← uniqueNameIf properties
  return { count, properties, fieldList, length, name, uniqueName }

def encode (r : UnionRecord) : Bytes :=
  Bytes.ofU16 r.count ++ Bytes.ofU16 r.properties.bits ++ r.fieldList.encode ++ r.length.encode
    ++ encodeNames r.name r.uniqueName

end UnionRecord

namespace EnumRecord

def decode : Decoder EnumRecord := do
  let count ← u16
  let properties ← Properties.decode
  let underlying ← TypeIndex.decode
  let fieldList ← TypeIndex.decode
  let name ← text
  let uniqueName ← uniqueNameIf properties
  return { count, properties, underlying, fieldList, name, uniqueName }

def encode (r : EnumRecord) : Bytes :=
  Bytes.ofU16 r.count ++ Bytes.ofU16 r.properties.bits ++ r.underlying.encode ++ r.fieldList.encode
    ++ encodeNames r.name r.uniqueName

end EnumRecord

namespace ProcedureRecord

def decode : Decoder ProcedureRecord := do
  let result ← TypeIndex.decode
  let call ← u8
  let reserved ← u8
  let paramCount ← u16
  let args ← TypeIndex.decode
  return { result, call, reserved, paramCount, args }

def encode (r : ProcedureRecord) : Bytes :=
  r.result.encode ++ [r.call, r.reserved] ++ Bytes.ofU16 r.paramCount ++ r.args.encode

end ProcedureRecord

namespace MemberFunctionRecord

def decode : Decoder MemberFunctionRecord := do
  let result ← TypeIndex.decode
  let class_ ← TypeIndex.decode
  let this ← TypeIndex.decode
  let call ← u8
  let reserved ← u8
  let paramCount ← u16
  let args ← TypeIndex.decode
  let thisAdjust ← u32
  return { result, class_, this, call, reserved, paramCount, args, thisAdjust }

def encode (r : MemberFunctionRecord) : Bytes :=
  r.result.encode ++ r.class_.encode ++ r.this.encode ++ [r.call, r.reserved]
    ++ Bytes.ofU16 r.paramCount ++ r.args.encode ++ Bytes.ofU32 r.thisAdjust

end MemberFunctionRecord

namespace PointerRecord

def decode : Decoder PointerRecord := do
  let pointee ← TypeIndex.decode
  let attributes ← u32
  let variant ← rest
  return { pointee, attributes, variant }

def encode (r : PointerRecord) : Bytes :=
  r.pointee.encode ++ Bytes.ofU32 r.attributes ++ r.variant

end PointerRecord

namespace ModifierRecord

def decode : Decoder ModifierRecord := do
  let modified ← TypeIndex.decode
  let attributes ← u16
  return { modified, attributes }

def encode (r : ModifierRecord) : Bytes := r.modified.encode ++ Bytes.ofU16 r.attributes

end ModifierRecord

namespace BitFieldRecord

def decode : Decoder BitFieldRecord := do
  let underlying ← TypeIndex.decode
  let length ← u8
  let position ← u8
  return { underlying, length, position }

def encode (r : BitFieldRecord) : Bytes := r.underlying.encode ++ [r.length, r.position]

end BitFieldRecord

namespace TypeRecord

/-- An argument list: a count and as many type indexes. -/
def decodeArgList : Decoder TypeRecord := do
  let n ← u32
  let args ← u32s n.toNat
  return .argList (args.map TypeIndex.mk)

def decodeAlias : Decoder TypeRecord := do
  let type ← TypeIndex.decode
  let name ← text
  return .alias_ type name

def decodeFunctionId : Decoder TypeRecord := do
  let scope ← u32
  let type ← TypeIndex.decode
  let name ← text
  return .functionId scope type name

def decodeStringId : Decoder TypeRecord := do
  let substrings ← u32
  let name ← text
  return .stringId substrings name

def decodeBuildInfo : Decoder TypeRecord := do
  let n ← u16
  let args ← u32s n.toNat
  return .buildInfo args

/-- Reads the payload of a record of kind `kind`. A kind without a layout reads nothing. -/
def decode (kind : Leaf) : Decoder TypeRecord :=
  match kind with
  | .array => .array <$> ArrayRecord.decode
  | .class_ | .structure_ | .interface => .class_ <$> ClassRecord.decode
  | .union => .union <$> UnionRecord.decode
  | .enum => .enum <$> EnumRecord.decode
  | .procedure => .procedure <$> ProcedureRecord.decode
  | .memberFunction => .memberFunction <$> MemberFunctionRecord.decode
  | .pointer => .pointer <$> PointerRecord.decode
  | .modifier => .modifier <$> ModifierRecord.decode
  | .fieldList => .fieldList <$> rest
  | .methodList => .methodList <$> rest
  | .argList => decodeArgList
  | .bitField => .bitField <$> BitFieldRecord.decode
  | .alias_ => decodeAlias
  | .functionId => decodeFunctionId
  | .stringId => decodeStringId
  | .buildInfo => decodeBuildInfo
  | _ => pure .unknown

/-- The record in a payload, if it is well-formed. -/
def parse? (kind : Leaf) (payload : Bytes) : Option TypeRecord := (decode kind payload).map (·.1)

def encode : TypeRecord → Bytes
  | .array r => r.encode
  | .class_ r => r.encode
  | .union r => r.encode
  | .enum r => r.encode
  | .procedure r => r.encode
  | .memberFunction r => r.encode
  | .pointer r => r.encode
  | .modifier r => r.encode
  | .fieldList members => members
  | .methodList entries => entries
  | .argList args => Bytes.ofU32 (UInt32.ofNat args.length) ++ args.flatMap TypeIndex.encode
  | .bitField r => r.encode
  | .alias_ type name => type.encode ++ Bytes.ofText name
  | .functionId scope type name => Bytes.ofU32 scope ++ type.encode ++ Bytes.ofText name
  | .stringId substrings name => Bytes.ofU32 substrings ++ Bytes.ofText name
  | .buildInfo args => Bytes.ofU16 (UInt16.ofNat args.length) ++ args.flatMap Bytes.ofU32
  | .unknown => []

end TypeRecord

namespace RawRecord

def leaf (r : RawRecord) : Leaf := ⟨r.kind⟩

def type? (r : RawRecord) : Option TypeRecord := TypeRecord.parse? r.leaf r.data

end RawRecord
end Pdb
