import Pdb.Numeric
import Pdb.TypeIndex

/-! # Type records

The payload of a type record by its leaf code. A class, a union or an enumeration may stand in a
file more than once: a *forward reference* has a name and no members, and its definition has a list
of members, which is a record of its own. `decode` reads a payload and ignores the padding behind
it; `encode` writes one. -/

namespace Pdb

/-- The property word of a class, a union or an enumeration. -/
structure Properties where
  bits : UInt16
  deriving DecidableEq, Repr, Inhabited

namespace Properties

/-- The single-bit properties by name, with their positions. -/
def flags : List (String × Nat) :=
  [("packed", 0), ("ctor", 1), ("ovlops", 2), ("isnested", 3), ("cnested", 4), ("opassign", 5),
    ("opcast", 6), ("fwdref", 7), ("scoped", 8), ("hasuniquename", 9), ("sealed", 10),
    ("intrinsic", 13)]

def bit (p : Properties) (i : Nat) : Bool := p.bits.toNat.testBit i

def containsNested (p : Properties) : Bool := p.bit 4
def forwardRef (p : Properties) : Bool := p.bit 7
/-- An enumeration whose enumerators are in its own scope. -/
def isScoped (p : Properties) : Bool := p.bit 8
/-- A decorated name follows the display name. -/
def hasUniqueName (p : Properties) : Bool := p.bit 9
/-- The kind of homogeneous floating-point aggregate. -/
def hfa (p : Properties) : Nat := p.bits.toNat / 2 ^ 11 % 4
def mocom (p : Properties) : Nat := p.bits.toNat / 2 ^ 14

/-- The names of the properties that are set. -/
def setFlags (p : Properties) : List String := (flags.filter fun f => p.bit f.2).map (·.1)

def text (p : Properties) : String :=
  let shown (f : String × Nat) := s!"{f.1}: {p.bit f.2}"
  Text.join ", " <|
    ["UdtProperties \x7b .0: " ++ toString p.bits] ++ (flags.take 11).map shown
      ++ [s!"hfa: {p.hfa}"] ++ (flags.drop 11).map shown ++ [s!"mocom: {p.mocom} " ++ "\x7d"]

end Properties

/-- An array; its length is in bytes. -/
structure ArrayRecord where
  element : TypeIndex
  index : TypeIndex
  length : Numeric
  name : Bytes
  deriving DecidableEq, Repr, Inhabited

/-- A class, a structure or an interface. -/
structure ClassRecord where
  count : UInt16
  properties : Properties
  fieldList : TypeIndex
  derived : TypeIndex
  vtableShape : TypeIndex
  length : Numeric
  name : Bytes
  uniqueName : Option Bytes
  deriving DecidableEq, Repr, Inhabited

structure UnionRecord where
  count : UInt16
  properties : Properties
  fieldList : TypeIndex
  length : Numeric
  name : Bytes
  uniqueName : Option Bytes
  deriving DecidableEq, Repr, Inhabited

structure EnumRecord where
  count : UInt16
  properties : Properties
  underlying : TypeIndex
  fieldList : TypeIndex
  name : Bytes
  uniqueName : Option Bytes
  deriving DecidableEq, Repr, Inhabited

/-- A function type; its parameters are in an argument list. -/
structure ProcedureRecord where
  result : TypeIndex
  call : UInt8
  reserved : UInt8
  paramCount : UInt16
  args : TypeIndex
  deriving DecidableEq, Repr, Inhabited

structure MemberFunctionRecord where
  result : TypeIndex
  class_ : TypeIndex
  this : TypeIndex
  call : UInt8
  reserved : UInt8
  paramCount : UInt16
  args : TypeIndex
  thisAdjust : UInt32
  deriving DecidableEq, Repr, Inhabited

/-- A pointer or a reference. What follows the attributes depends on the mode. -/
structure PointerRecord where
  pointee : TypeIndex
  attributes : UInt32
  variant : Bytes
  deriving DecidableEq, Repr, Inhabited

/-- A type with `const` or `volatile` in front. -/
structure ModifierRecord where
  modified : TypeIndex
  attributes : UInt16
  deriving DecidableEq, Repr, Inhabited

structure BitFieldRecord where
  underlying : TypeIndex
  length : UInt8
  position : UInt8
  deriving DecidableEq, Repr, Inhabited

/-- A decoded type record. Member lists and overload sets are kept as bytes. -/
inductive TypeRecord
  | array (r : ArrayRecord)
  | class_ (r : ClassRecord)
  | union (r : UnionRecord)
  | enum (r : EnumRecord)
  | procedure (r : ProcedureRecord)
  | memberFunction (r : MemberFunctionRecord)
  | pointer (r : PointerRecord)
  | modifier (r : ModifierRecord)
  | fieldList (members : Bytes)
  | methodList (entries : Bytes)
  | argList (args : List TypeIndex)
  | bitField (r : BitFieldRecord)
  | alias_ (type : TypeIndex) (name : Bytes)
  | functionId (scope : UInt32) (type : TypeIndex) (name : Bytes)
  | stringId (substrings : UInt32) (name : Bytes)
  | buildInfo (args : List UInt32)
  | unknown
  deriving DecidableEq, Repr, Inhabited

/-! ### Pointers and modifiers -/

inductive PointerMode
  | pointer | lvalueReference | pointerToDataMember | pointerToMemberFunction | rvalueReference
  deriving DecidableEq, Repr

def PointerMode.name : PointerMode → String
  | .pointer => "Pointer"
  | .lvalueReference => "LValueReference"
  | .pointerToDataMember => "PointerToDataMember"
  | .pointerToMemberFunction => "PointerToMemberFunction"
  | .rvalueReference => "RValueReference"

namespace PointerRecord

def bit (p : PointerRecord) (i : Nat) : Bool := p.attributes.toNat.testBit i

def kind (p : PointerRecord) : Nat := p.attributes.toNat % 32

def mode? (p : PointerRecord) : Option PointerMode :=
  match p.attributes.toNat / 2 ^ 5 % 8 with
  | 0 => some .pointer
  | 1 => some .lvalueReference
  | 2 => some .pointerToDataMember
  | 3 => some .pointerToMemberFunction
  | 4 => some .rvalueReference
  | _ => none

def flat32 (p : PointerRecord) : Bool := p.bit 8
def isVolatile (p : PointerRecord) : Bool := p.bit 9
def isConst (p : PointerRecord) : Bool := p.bit 10
def isUnaligned (p : PointerRecord) : Bool := p.bit 11
def isRestrict (p : PointerRecord) : Bool := p.bit 12
def size (p : PointerRecord) : Nat := p.attributes.toNat / 2 ^ 13 % 64
def isMocom (p : PointerRecord) : Bool := p.bit 19
def isLeftReference (p : PointerRecord) : Bool := p.bit 20
def isRightReference (p : PointerRecord) : Bool := p.bit 21

/-- The pointer points into a class, which its variant names. -/
def toMember (p : PointerRecord) : Bool :=
  match p.mode? with
  | some .pointerToDataMember | some .pointerToMemberFunction => true
  | _ => false

/-- The class of a pointer to a member: outer `none` if the record ends before it, inner `none` for
an ordinary pointer. -/
def containingClass? (p : PointerRecord) : Option (Option TypeIndex) :=
  if p.toMember then (Decoder.u32 p.variant).map fun r => some ⟨r.1⟩ else some none

def text (p : PointerRecord) : String :=
  let mode := match p.mode? with
    | some m => s!"Some({m.name})"
    | none => "None"
  s!"ty: {p.pointee.text} attr: 0x{Text.hex 8 p.attributes.toNat} mode: {mode}"

end PointerRecord

namespace ModifierRecord

def isConst (m : ModifierRecord) : Bool := m.attributes.toNat.testBit 0
def isVolatile (m : ModifierRecord) : Bool := m.attributes.toNat.testBit 1
def isUnaligned (m : ModifierRecord) : Bool := m.attributes.toNat.testBit 2

end ModifierRecord

/-! ### Views -/

namespace TypeRecord

/-- The name of the record, if records of its kind have one. -/
def name? : TypeRecord → Option Bytes
  | .class_ r => some r.name
  | .union r => some r.name
  | .enum r => some r.name
  | .alias_ _ name => some name
  | .functionId _ _ name => some name
  | .stringId _ name => some name
  | _ => none

/-- The display name of a class, a union or an enumeration. -/
def tagName? : TypeRecord → Option Bytes
  | .class_ r => some r.name
  | .union r => some r.name
  | .enum r => some r.name
  | _ => none

/-- The decorated name of a class, a union or an enumeration. -/
def uniqueName? : TypeRecord → Option Bytes
  | .class_ r => r.uniqueName
  | .union r => r.uniqueName
  | .enum r => r.uniqueName
  | _ => none

def properties? : TypeRecord → Option Properties
  | .class_ r => some r.properties
  | .union r => some r.properties
  | .enum r => some r.properties
  | _ => none

/-- The member list of a class, a union or an enumeration. -/
def fieldList? : TypeRecord → Option TypeIndex
  | .class_ r => some r.fieldList
  | .union r => some r.fieldList
  | .enum r => some r.fieldList
  | _ => none

/-- The member list of a class, a union or an enumeration, unless it has none. -/
def members? (t : TypeRecord) : Option TypeIndex := t.fieldList?.filter (· ≠ .none)

/-- The record has a name and no definition. -/
def isForwardRef (t : TypeRecord) : Bool := (t.properties?.map (·.forwardRef)).getD false

def isTag : TypeRecord → Bool
  | .class_ _ | .union _ | .enum _ => true
  | _ => false

end TypeRecord

/-- The arguments of a build record by position. -/
inductive BuildArgument
  | currentDirectory | buildTool | sourceFile | programDatabase | commandArguments
  deriving DecidableEq, Repr

def BuildArgument.all : List BuildArgument :=
  [.currentDirectory, .buildTool, .sourceFile, .programDatabase, .commandArguments]

/-- The argument of a build record at its position. -/
def BuildArgument.of? (args : List UInt32) : BuildArgument → Option UInt32
  | .currentDirectory => args[0]?
  | .buildTool => args[1]?
  | .sourceFile => args[2]?
  | .programDatabase => args[3]?
  | .commandArguments => args[4]?

end Pdb
