import Pdb.Uid

/-! # Type systems

A debugger keeps the types of a program in a type system of its own. `TypeSystem` is what has to be
known of one: types are created and referred to by handles, a tag type is declared first and gets
its members later, and what has been declared is the context of what is declared inside it. -/

namespace Pdb

abbrev TypeHandle := Nat

/-- The declaration of a class, a union or an enumeration. -/
abbrev TagDecl := Nat

/-- Where something is declared: outside of everything, in a namespace or in a tag type. -/
inductive DeclContext
  | translationUnit
  | namespace_ (n : Nat)
  | tag (d : TagDecl)
  deriving DecidableEq, Repr, Inhabited

/-- The kinds of pointers that do not point into a class. -/
inductive PointerKind
  | pointer | lvalueReference | rvalueReference
  deriving DecidableEq, Repr

def PointerKind.name : PointerKind → String
  | .pointer => "Pointer"
  | .lvalueReference => "LValueReference"
  | .rvalueReference => "RValueReference"

structure Qualifiers where
  isConst : Bool := false
  isVolatile : Bool := false
  isRestrict : Bool := false
  deriving DecidableEq, Repr, Inhabited

namespace Qualifiers

def bits (q : Qualifiers) : Nat :=
  q.isConst.toNat + 2 * q.isVolatile.toNat + 4 * q.isRestrict.toNat

def isEmpty (q : Qualifiers) : Bool := q.bits = 0

end Qualifiers

inductive CallingConvention
  | c | stdCall | fastCall | thisCall | vectorCall | pascal
  deriving DecidableEq, Repr

namespace CallingConvention

def name : CallingConvention → String
  | .c => "C"
  | .stdCall => "X86StdCall"
  | .fastCall => "X86FastCall"
  | .thisCall => "X86ThisCall"
  | .vectorCall => "X86VectorCall"
  | .pascal => "X86Pascal"

/-- The convention by the code in a function record. Each has a code for near and one for far calls,
if the two were ever told apart. -/
def ofCode? (n : UInt8) : Option CallingConvention :=
  if n = 0x00 ∨ n = 0x01 then some .c
  else if n = 0x02 ∨ n = 0x03 then some .pascal
  else if n = 0x04 ∨ n = 0x05 then some .fastCall
  else if n = 0x07 ∨ n = 0x08 then some .stdCall
  else if n = 0x0b then some .thisCall
  else if n = 0x18 then some .vectorCall
  else none

end CallingConvention

inductive Visibility
  | public_ | protected_ | private_
  deriving DecidableEq, Repr

def Visibility.name : Visibility → String
  | .public_ => "Public"
  | .protected_ => "Protected"
  | .private_ => "Private"

/-- The keyword that introduces a record. -/
inductive RecordKind
  | class_ | struct | union | interface
  deriving DecidableEq, Repr

def RecordKind.name : RecordKind → String
  | .class_ => "Class"
  | .struct => "Struct"
  | .union => "Union"
  | .interface => "Interface"

/-- How much a pointer to a member of a class has to hold. -/
inductive InheritanceModel
  | single | multiple | virtual
  deriving DecidableEq, Repr

def InheritanceModel.name : InheritanceModel → String
  | .single => "Single"
  | .multiple => "Multiple"
  | .virtual => "Virtual"

/-- A type that is made from other types. -/
inductive DerivedType
  | pointer (pointee : TypeHandle) (kind : PointerKind)
  | qualified (type : TypeHandle) (qualifiers : Qualifiers)
  | memberPointer (class_ pointee : TypeHandle)
  | array (element : TypeHandle) (count : Nat)
  | function (result : TypeHandle) (args : List TypeHandle) (isVariadic : Bool)
    (convention : CallingConvention)
  deriving DecidableEq, Repr

/-- The declaration of a record or of an enumeration. -/
inductive Declaration
  | record (context : DeclContext) (access : Visibility) (name : String) (kind : RecordKind)
      (uid : Uid) (inheritance : InheritanceModel)
  | enum (context : DeclContext) (name : String) (underlying : TypeHandle) (isScoped : Bool)
  deriving DecidableEq, Repr

structure MethodTraits where
  isVirtual : Bool
  isStatic : Bool
  isPure : Bool
  /-- The compiler made the function. -/
  isArtificial : Bool
  deriving DecidableEq, Repr

structure RecordLayout where
  /-- In bytes. -/
  size : Nat
  /-- The fields in order, each with its offset in bits. -/
  fields : List (String × Nat)
  /-- The bases that are not virtual, each with its offset in bytes. -/
  bases : List (Uid × Nat)
  deriving DecidableEq, Repr, Inhabited

/-- What is done to a tag type after its declaration. -/
inductive TagChange
  /-- Its definition begins. -/
  | start
  /-- Its members will come when they are asked for. -/
  | external (b : Bool)
  | field (name : String) (type : TypeHandle) (access : Visibility) (bitWidth : Option Nat)
  | base (type : TypeHandle) (access : Visibility) (isVirtual : Bool)
  | staticMember (name : String) (type : TypeHandle) (access : Visibility)
  | method (name : String) (type : TypeHandle) (access : Visibility) (traits : MethodTraits)
  | enumerator (name : String) (value : Int)
  | nested (name : String) (type : TypeHandle)
  /-- Its definition ends. -/
  | complete (layout : RecordLayout)
  deriving DecidableEq, Repr

/-- The operations of a type system with states `σ`. -/
class TypeSystem (σ : Type) where
  /-- The namespace with a name in a context. -/
  namespaceIn : σ → String → DeclContext → DeclContext × σ
  /-- A built-in type. There is none if the type system cannot represent it. -/
  basic? : σ → BasicType → Option TypeHandle × σ
  derive : σ → DerivedType → TypeHandle × σ
  declare : σ → Declaration → TypeHandle × σ
  change : σ → TypeHandle → TagChange → σ
  /-- The declaration of a tag type. -/
  tagOf? : σ → TypeHandle → Option TagDecl

end Pdb
