import Pdb.Text

/-! # Leaf codes

Every type record, every member of a field list and every variable-length number starts with a
16-bit leaf code that says how the bytes after it are laid out. -/

namespace Pdb

/-- A leaf code. Codes without a name are legal in a file; their records are passed over. -/
structure Leaf where
  code : UInt16
  deriving DecidableEq, Repr, Inhabited

namespace Leaf

@[match_pattern] abbrev vtableShape : Leaf := ⟨0x000a⟩
@[match_pattern] abbrev modifier : Leaf := ⟨0x1001⟩
@[match_pattern] abbrev pointer : Leaf := ⟨0x1002⟩
@[match_pattern] abbrev procedure : Leaf := ⟨0x1008⟩
@[match_pattern] abbrev memberFunction : Leaf := ⟨0x1009⟩
@[match_pattern] abbrev argList : Leaf := ⟨0x1201⟩
@[match_pattern] abbrev fieldList : Leaf := ⟨0x1203⟩
@[match_pattern] abbrev bitField : Leaf := ⟨0x1205⟩
@[match_pattern] abbrev methodList : Leaf := ⟨0x1206⟩
@[match_pattern] abbrev baseClass : Leaf := ⟨0x1400⟩
@[match_pattern] abbrev virtualBase : Leaf := ⟨0x1401⟩
@[match_pattern] abbrev indirectVirtualBase : Leaf := ⟨0x1402⟩
@[match_pattern] abbrev continuation : Leaf := ⟨0x1404⟩
@[match_pattern] abbrev vtablePointer : Leaf := ⟨0x1409⟩
@[match_pattern] abbrev friendClass : Leaf := ⟨0x140b⟩
@[match_pattern] abbrev vtableOffset : Leaf := ⟨0x140c⟩
@[match_pattern] abbrev enumerator : Leaf := ⟨0x1502⟩
@[match_pattern] abbrev array : Leaf := ⟨0x1503⟩
@[match_pattern] abbrev class_ : Leaf := ⟨0x1504⟩
@[match_pattern] abbrev structure_ : Leaf := ⟨0x1505⟩
@[match_pattern] abbrev union : Leaf := ⟨0x1506⟩
@[match_pattern] abbrev enum : Leaf := ⟨0x1507⟩
@[match_pattern] abbrev alias_ : Leaf := ⟨0x150a⟩
@[match_pattern] abbrev friendFunction : Leaf := ⟨0x150c⟩
@[match_pattern] abbrev member : Leaf := ⟨0x150d⟩
@[match_pattern] abbrev staticMember : Leaf := ⟨0x150e⟩
@[match_pattern] abbrev method : Leaf := ⟨0x150f⟩
@[match_pattern] abbrev nestedType : Leaf := ⟨0x1510⟩
@[match_pattern] abbrev oneMethod : Leaf := ⟨0x1511⟩
@[match_pattern] abbrev nestedTypeEx : Leaf := ⟨0x1512⟩
@[match_pattern] abbrev interface : Leaf := ⟨0x1519⟩
@[match_pattern] abbrev functionId : Leaf := ⟨0x1601⟩
@[match_pattern] abbrev memberFunctionId : Leaf := ⟨0x1602⟩
@[match_pattern] abbrev buildInfo : Leaf := ⟨0x1603⟩
@[match_pattern] abbrev substringList : Leaf := ⟨0x1604⟩
@[match_pattern] abbrev stringId : Leaf := ⟨0x1605⟩
@[match_pattern] abbrev udtSourceLine : Leaf := ⟨0x1606⟩
@[match_pattern] abbrev udtModuleSourceLine : Leaf := ⟨0x1607⟩
@[match_pattern] abbrev char : Leaf := ⟨0x8000⟩
@[match_pattern] abbrev short : Leaf := ⟨0x8001⟩
@[match_pattern] abbrev ushort : Leaf := ⟨0x8002⟩
@[match_pattern] abbrev long : Leaf := ⟨0x8003⟩
@[match_pattern] abbrev ulong : Leaf := ⟨0x8004⟩
@[match_pattern] abbrev real32 : Leaf := ⟨0x8005⟩
@[match_pattern] abbrev real64 : Leaf := ⟨0x8006⟩
@[match_pattern] abbrev real80 : Leaf := ⟨0x8007⟩
@[match_pattern] abbrev real128 : Leaf := ⟨0x8008⟩
@[match_pattern] abbrev quadword : Leaf := ⟨0x8009⟩
@[match_pattern] abbrev uquadword : Leaf := ⟨0x800a⟩
@[match_pattern] abbrev real48 : Leaf := ⟨0x800b⟩
@[match_pattern] abbrev complex32 : Leaf := ⟨0x800c⟩
@[match_pattern] abbrev complex64 : Leaf := ⟨0x800d⟩
@[match_pattern] abbrev complex80 : Leaf := ⟨0x800e⟩
@[match_pattern] abbrev complex128 : Leaf := ⟨0x800f⟩
@[match_pattern] abbrev varString : Leaf := ⟨0x8010⟩
@[match_pattern] abbrev octword : Leaf := ⟨0x8017⟩
@[match_pattern] abbrev uoctword : Leaf := ⟨0x8018⟩
@[match_pattern] abbrev decimal : Leaf := ⟨0x8019⟩
@[match_pattern] abbrev date : Leaf := ⟨0x801a⟩
@[match_pattern] abbrev utf8String : Leaf := ⟨0x801b⟩
@[match_pattern] abbrev real16 : Leaf := ⟨0x801c⟩

def names : List (UInt16 × String) := [
  (0x000a, "LF_VTSHAPE"),
  (0x1001, "LF_MODIFIER"),
  (0x1002, "LF_POINTER"),
  (0x1008, "LF_PROCEDURE"),
  (0x1009, "LF_MFUNCTION"),
  (0x1201, "LF_ARGLIST"),
  (0x1203, "LF_FIELDLIST"),
  (0x1205, "LF_BITFIELD"),
  (0x1206, "LF_METHODLIST"),
  (0x1400, "LF_BCLASS"),
  (0x1401, "LF_VBCLASS"),
  (0x1402, "LF_IVBCLASS"),
  (0x1404, "LF_INDEX"),
  (0x1409, "LF_VFUNCTAB"),
  (0x140b, "LF_FRIENDCLS"),
  (0x140c, "LF_VFUNCOFF"),
  (0x1502, "LF_ENUMERATE"),
  (0x1503, "LF_ARRAY"),
  (0x1504, "LF_CLASS"),
  (0x1505, "LF_STRUCTURE"),
  (0x1506, "LF_UNION"),
  (0x1507, "LF_ENUM"),
  (0x150a, "LF_ALIAS"),
  (0x150c, "LF_FRIENDFCN"),
  (0x150d, "LF_MEMBER"),
  (0x150e, "LF_STMEMBER"),
  (0x150f, "LF_METHOD"),
  (0x1510, "LF_NESTEDTYPE"),
  (0x1511, "LF_ONEMETHOD"),
  (0x1512, "LF_NESTEDTYPEEX"),
  (0x1519, "LF_INTERFACE"),
  (0x1601, "LF_FUNC_ID"),
  (0x1602, "LF_MFUNC_ID"),
  (0x1603, "LF_BUILDINFO"),
  (0x1604, "LF_SUBSTR_LIST"),
  (0x1605, "LF_STRING_ID"),
  (0x1606, "LF_UDT_SRC_LINE"),
  (0x1607, "LF_UDT_MOD_SRC_LINE"),
  (0x8000, "LF_CHAR"),
  (0x8001, "LF_SHORT"),
  (0x8002, "LF_USHORT"),
  (0x8003, "LF_LONG"),
  (0x8004, "LF_ULONG"),
  (0x8005, "LF_REAL32"),
  (0x8006, "LF_REAL64"),
  (0x8007, "LF_REAL80"),
  (0x8008, "LF_REAL128"),
  (0x8009, "LF_QUADWORD"),
  (0x800a, "LF_UQUADWORD"),
  (0x800b, "LF_REAL48"),
  (0x800c, "LF_COMPLEX32"),
  (0x800d, "LF_COMPLEX64"),
  (0x800e, "LF_COMPLEX80"),
  (0x800f, "LF_COMPLEX128"),
  (0x8010, "LF_VARSTRING"),
  (0x8017, "LF_OCTWORD"),
  (0x8018, "LF_UOCTWORD"),
  (0x8019, "LF_DECIMAL"),
  (0x801a, "LF_DATE"),
  (0x801b, "LF_UTF8STRING"),
  (0x801c, "LF_REAL16")]

/-- The name of a leaf, or its code in hexadecimal. -/
def name (l : Leaf) : String :=
  (names.lookup l.code).getD s!"LF_??(0x{Text.hex 4 l.code.toNat})"

/-- A code below `0x8000` in front of a number is the number itself. -/
def isImmediate (l : Leaf) : Bool := l.code < 0x8000

/-- Classes, structures and interfaces share one layout. -/
def isClassLike : Leaf → Bool
  | .class_ | .structure_ | .interface => true
  | _ => false

/-- The records of types that a programmer names: classes, unions and enumerations. -/
def isUserDefined : Leaf → Bool
  | .union | .enum => true
  | l => l.isClassLike

end Leaf
end Pdb
