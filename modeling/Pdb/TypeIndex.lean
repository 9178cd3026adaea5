import Pdb.Text

/-! # Built-in types

A type index below `0x1000` names a built-in type, or a pointer to one, and refers to no record:
bits 0 to 7 are the kind of the type and bits 8 to 10 say whether it is the type itself or a pointer
of some size. `SimpleKind.table` is the table of the kinds. -/

namespace Pdb

/-- The built-in types that a type system provides. -/
inductive BasicType
  | void | bool | char | signedChar | unsignedChar | wchar | char8 | char16 | char32
  | short | unsignedShort | int | unsignedInt | long | unsignedLong | longLong | unsignedLongLong
  | int128 | unsignedInt128 | half | float | double | longDouble | floatComplex | doubleComplex
  | longDoubleComplex | nullPtr
  deriving DecidableEq, Repr, Inhabited

def BasicType.name : BasicType → String
  | .void => "Void"
  | .bool => "Bool"
  | .char => "Char"
  | .signedChar => "SignedChar"
  | .unsignedChar => "UnsignedChar"
  | .wchar => "WChar"
  | .char8 => "Char8"
  | .char16 => "Char16"
  | .char32 => "Char32"
  | .short => "Short"
  | .unsignedShort => "UnsignedShort"
  | .int => "Int"
  | .unsignedInt => "UnsignedInt"
  | .long => "Long"
  | .unsignedLong => "UnsignedLong"
  | .longLong => "LongLong"
  | .unsignedLongLong => "UnsignedLongLong"
  | .int128 => "Int128"
  | .unsignedInt128 => "UnsignedInt128"
  | .half => "Half"
  | .float => "Float"
  | .double => "Double"
  | .longDouble => "LongDouble"
  | .floatComplex => "FloatComplex"
  | .doubleComplex => "DoubleComplex"
  | .longDoubleComplex => "LongDoubleComplex"
  | .nullPtr => "NullPtr"

/-- What is known about one kind of built-in type. -/
structure SimpleKind.Entry where
  code : UInt8
  label : String
  /-- The built-in type that stands for the kind, if there is one. -/
  basic : Option BasicType
  /-- Values are sign-extended. The floating kinds and plain `char` count as signed. -/
  signed : Bool
  /-- In bytes. -/
  size : Nat
  /-- The name in a source text. -/
  spelling : String

structure SimpleKind where
  code : UInt8
  deriving DecidableEq, Repr, Inhabited

namespace SimpleKind

def table : List Entry := [
  ⟨0x00, "NONE", none, false, 0, ""⟩,
  ⟨0x03, "VOID", some .void, false, 0, "void"⟩,
  ⟨0x07, "NOT_TRANSLATED", none, false, 0, ""⟩,
  ⟨0x08, "HRESULT", some .unsignedInt, false, 4, "HRESULT"⟩,
  ⟨0x10, "SIGNED_CHAR", some .signedChar, true, 1, "signed char"⟩,
  ⟨0x20, "UNSIGNED_CHAR", some .unsignedChar, false, 1, "unsigned char"⟩,
  ⟨0x70, "NARROW_CHAR", some .char, true, 1, "char"⟩,
  ⟨0x71, "WIDE_CHAR", some .wchar, false, 2, "wchar_t"⟩,
  ⟨0x7a, "CHAR16", some .char16, false, 2, "char16_t"⟩,
  ⟨0x7b, "CHAR32", some .char32, false, 4, "char32_t"⟩,
  ⟨0x7c, "CHAR8", some .char8, false, 1, "char8_t"⟩,
  ⟨0x68, "SBYTE", some .signedChar, true, 1, "signed char"⟩,
  ⟨0x69, "BYTE", some .unsignedChar, false, 1, "unsigned char"⟩,
  ⟨0x11, "INT16_SHORT", some .short, true, 2, "short"⟩,
  ⟨0x21, "UINT16_SHORT", some .unsignedShort, false, 2, "unsigned short"⟩,
  ⟨0x72, "INT16", some .short, true, 2, "short"⟩,
  ⟨0x73, "UINT16", some .unsignedShort, false, 2, "unsigned short"⟩,
  ⟨0x12, "INT32_LONG", some .long, true, 4, "long"⟩,
  ⟨0x22, "UINT32_LONG", some .unsignedLong, false, 4, "unsigned long"⟩,
  ⟨0x74, "INT32", some .int, true, 4, "int"⟩,
  ⟨0x75, "UINT32", some .unsignedInt, false, 4, "unsigned int"⟩,
  ⟨0x13, "INT64_QUAD", some .longLong, true, 8, "__int64"⟩,
  ⟨0x23, "UINT64_QUAD", some .unsignedLongLong, false, 8, "unsigned __int64"⟩,
  ⟨0x76, "INT64", some .longLong, true, 8, "__int64"⟩,
  ⟨0x77, "UINT64", some .unsignedLongLong, false, 8, "unsigned __int64"⟩,
  ⟨0x14, "INT128_OCT", some .int128, true, 16, "__int128"⟩,
  ⟨0x24, "UINT128_OCT", some .unsignedInt128, false, 16, "unsigned __int128"⟩,
  ⟨0x78, "INT128", some .int128, true, 16, "__int128"⟩,
  ⟨0x79, "UINT128", some .unsignedInt128, false, 16, "unsigned __int128"⟩,
  ⟨0x46, "FLOAT16", some .half, true, 2, "__half"⟩,
  ⟨0x40, "FLOAT32", some .float, true, 4, "float"⟩,
  ⟨0x45, "FLOAT32_PARTIAL_PRECISION", none, false, 0, ""⟩,
  ⟨0x44, "FLOAT48", none, false, 0, ""⟩,
  ⟨0x41, "FLOAT64", some .double, true, 8, "double"⟩,
  ⟨0x42, "FLOAT80", some .longDouble, true, 10, "long double"⟩,
  ⟨0x43, "FLOAT128", some .longDouble, true, 16, "long double"⟩,
  ⟨0x56, "COMPLEX16", none, false, 0, ""⟩,
  ⟨0x50, "COMPLEX32", some .floatComplex, false, 4, "complex"⟩,
  ⟨0x55, "COMPLEX32_PARTIAL_PRECISION", none, false, 0, ""⟩,
  ⟨0x54, "COMPLEX48", none, false, 0, ""⟩,
  ⟨0x51, "COMPLEX64", some .doubleComplex, false, 8, "complex"⟩,
  ⟨0x52, "COMPLEX80", some .longDoubleComplex, false, 10, "complex"⟩,
  ⟨0x53, "COMPLEX128", none, false, 0, ""⟩,
  ⟨0x30, "BOOL8", some .bool, false, 1, "bool"⟩,
  ⟨0x31, "BOOL16", some .bool, false, 2, "bool"⟩,
  ⟨0x32, "BOOL32", some .bool, false, 4, "bool"⟩,
  ⟨0x33, "BOOL64", some .bool, false, 8, "bool"⟩,
  ⟨0x34, "BOOL128", some .bool, false, 16, "bool"⟩]

def entry? (k : SimpleKind) : Option Entry := table.find? (·.code == k.code)

/-- A value whose type is not translated by the compiler. -/
def notTranslated : SimpleKind := ⟨0x07⟩

def basic? (k : SimpleKind) : Option BasicType := k.entry?.bind (·.basic)
def signed (k : SimpleKind) : Bool := (k.entry?.map (·.signed)).getD false

/-- The size in bytes; `void` and unknown kinds have size 0. -/
def size (k : SimpleKind) : Nat := (k.entry?.map (·.size)).getD 0

def spelling (k : SimpleKind) : String := (k.entry?.map (·.spelling)).getD ""

def label (k : SimpleKind) : String :=
  (k.entry?.map (·.label)).getD s!"SimpleTypeKind(0x{Text.hex 2 k.code.toNat})"

end SimpleKind

/-- Whether an index names a built-in type itself, or a pointer to it. -/
inductive SimpleMode
  | direct | nearPointer | farPointer | hugePointer
  | nearPointer32 | farPointer32 | nearPointer64 | nearPointer128
  deriving DecidableEq, Repr, Inhabited

namespace SimpleMode

def ofBits (n : Nat) : SimpleMode :=
  match n % 8 with
  | 0 => .direct
  | 1 => .nearPointer
  | 2 => .farPointer
  | 3 => .hugePointer
  | 4 => .nearPointer32
  | 5 => .farPointer32
  | 6 => .nearPointer64
  | _ => .nearPointer128

def name : SimpleMode → String
  | .direct => "Direct"
  | .nearPointer => "NearPointer"
  | .farPointer => "FarPointer"
  | .hugePointer => "HugePointer"
  | .nearPointer32 => "NearPointer32"
  | .farPointer32 => "FarPointer32"
  | .nearPointer64 => "NearPointer64"
  | .nearPointer128 => "NearPointer128"

/-- The size in bytes of the pointers that have a representation. -/
def pointerSize? : SimpleMode → Option Nat
  | .nearPointer32 | .farPointer32 => some 4
  | .nearPointer64 => some 8
  | _ => none

end SimpleMode

/-- The index of a type record, or a built-in type. -/
structure TypeIndex where
  val : UInt32
  deriving DecidableEq, Repr, Inhabited

namespace TypeIndex

/-- The first index that can refer to a record. -/
def minBegin : TypeIndex := ⟨0x1000⟩
def none : TypeIndex := ⟨0⟩
/-- The type of the null pointer constant. -/
def nullptr : TypeIndex := ⟨0x0103⟩
/-- The unsigned 64-bit integer, which indexes arrays. -/
def uint64 : TypeIndex := ⟨0x0077⟩

def toNat (ti : TypeIndex) : Nat := ti.val.toNat
def ofNat (n : Nat) : TypeIndex := ⟨UInt32.ofNat n⟩

/-- The index refers to no record. -/
def isSimple (ti : TypeIndex) : Bool := ti.val < 0x1000

def simpleKind (ti : TypeIndex) : SimpleKind := ⟨UInt8.ofNat ti.toNat⟩
def simpleMode (ti : TypeIndex) : SimpleMode := .ofBits (ti.toNat / 256)

/-- The built-in type that a pointer index points to. -/
def direct (ti : TypeIndex) : TypeIndex := .ofNat (ti.toNat % 256)

def text (ti : TypeIndex) : String :=
  if ti.isSimple then
    let kind := (ti.simpleKind.entry?.map (·.label)).getD
      s!"simple(0x{Text.hex 2 ti.simpleKind.code.toNat})"
    match ti.simpleMode with
    | .direct => kind
    | .nearPointer32 | .farPointer32 => kind ++ "*32"
    | .nearPointer64 => kind ++ "*64"
    | mode => kind ++ "*" ++ mode.name
  else s!"T#0x{Text.hex 1 ti.toNat}"

end TypeIndex

/-- What a built-in type index stands for. -/
inductive SimpleType
  | nullPtr
  | pointer (pointee : TypeIndex) (size : Nat)
  | basic (type : BasicType) (size : Nat) (spelling : String)
  deriving DecidableEq, Repr

/-- The meaning of a built-in type index. Pointers other than those of 32 and 64 bits, untranslated
types and unknown kinds have none. -/
def TypeIndex.simpleType? (ti : TypeIndex) : Option SimpleType :=
  if ti = .nullptr then some .nullPtr
  else if ti.simpleMode ≠ .direct then ti.simpleMode.pointerSize?.map (.pointer ti.direct)
  else if ti.simpleKind = .notTranslated then .none
  else ti.simpleKind.basic?.map fun b => .basic b ti.simpleKind.size ti.simpleKind.spelling

end Pdb
