import Pdb.Database.Function
import Pdb.TypeStream.Lookup

/-! # Variables

Global variables, thread-local variables and constants are global symbols. Where a variable is
stands in a location expression: an operation code and its operand. A constant has its value
instead. -/

namespace Pdb

inductive VariableScope
  | global | static | threadLocal
  deriving DecidableEq, Repr

def VariableScope.name : VariableScope → String
  | .global => "Global"
  | .static => "Static"
  | .threadLocal => "ThreadLocal"

/-- How the value of a variable is found. -/
inductive VariableLocation
  /-- A location expression; it is empty if the variable has no address. -/
  | expression (code : Bytes)
  /-- The value itself, low byte first. -/
  | constant (value : Bytes)
  deriving DecidableEq, Repr

def VariableLocation.isConstant : VariableLocation → Bool
  | .constant _ => true
  | .expression _ => false

structure Variable where
  /-- The offset of its symbol. -/
  offset : UInt32
  isPublic : Bool
  name : Bytes
  type : TypeIndex
  scope : VariableScope
  /-- It can be seen from other compile units. -/
  isExternal : Bool
  /-- The module at its address. -/
  module? : Option UInt16
  location : VariableLocation
  deriving DecidableEq, Repr

namespace Variable

def uid (v : Variable) : Uid := (Entity.globalSymbol v.offset v.isPublic).uid

/-- The name in the outermost scope. -/
def qualifiedName (v : Variable) : String := "::" ++ Text.lossy v.name

end Variable

/-! ### Location expressions -/

namespace Location

def opAddress : UInt8 := 0x03
def opConstant4 : UInt8 := 0x0c
/-- Turns an offset into an address of the thread's own storage. -/
def opThreadAddress : UInt8 := 0x9b

/-- The expression for an address, as an operand of at most eight bytes. -/
def atAddress (address : UInt64) (size : UInt8) : Bytes :=
  opAddress :: Bytes.leBytes (min size.toNat 8) address.toNat

/-- The expression for an offset in the thread's own storage. -/
def inThread (offset : UInt32) : Bytes := opConstant4 :: Bytes.ofU32 offset ++ [opThreadAddress]

end Location

namespace Database

/-- The bytes of a constant, as many as its type has, or else as the number itself has. -/
def constantBytes (d : Database) (type : TypeIndex) (bits : Numeric.Bits) : Bytes :=
  let size := match d.types.integral? type with
    | some (size, _) => size
    | none => bits.width / 8
  Bytes.leBytes (min size 16) (bits.extended bits.signed)

/-- The scope of a variable by the kind of its symbol, and whether it can be seen elsewhere. -/
def scopeOf? : SymbolKind → Option (VariableScope × Bool)
  | .globalData32 => some (.global, true)
  | .localData32 => some (.static, false)
  | .globalThread32 => some (.threadLocal, true)
  | .localThread32 => some (.threadLocal, false)
  | _ => none

/-- The expression for a place in the image, which is empty if the place has no address. -/
def locationOf (d : Database) (place : SectionOffset) : Bytes :=
  ((d.addressOf? place.segment place.offset).map fun address =>
    Location.atAddress address d.options.addressSize).getD []

/-- The address of a variable in the image. -/
def variableAddress? (d : Database) (r : RawRecord) : Option UInt64 := do
  match r.symbolKind, ← r.symbol? with
  | kind, .data _ place _ =>
    guard (scopeOf? kind).isSome
    d.addressOf? place.segment place.offset
  | _, _ => none

/-- The variable that a symbol describes. The module at its address is given, if there is one. -/
def variableOf? (d : Database) (offset : UInt32) (isPublic : Bool) (r : RawRecord)
    (module? : Option UInt16) : Option Variable := do
  match r.symbolKind, ← r.symbol? with
  | .constant, .constant type value name =>
    let bits ← value.bits?
    return {
      offset, isPublic, name, type, scope := .global, isExternal := false, module? := none
      location := .constant (d.constantBytes type bits) }
  | kind, .data type place name =>
    let (scope, isExternal) ← scopeOf? kind
    let location := .expression (d.locationOf place)
    return { offset, isPublic, name, type, scope, isExternal, module?, location }
  | kind, .threadData type address name =>
    let (scope, isExternal) ← scopeOf? kind
    return {
      offset, isPublic, name, type, scope, isExternal, module? := none
      location := .expression (Location.inThread address.offset) }
  | _, _ => none

variable [UnstableSort]

/-- The variable at an offset of the global symbols. -/
def variableAt? (d : Database) (offset : UInt32) (isPublic : Bool) : Option Variable := do
  let r ← (d.globals.recordAt offset.toNat).toOption
  d.variableOf? offset isPublic r ((d.variableAddress? r).bind d.moduleAt?)

/-- The variables with a name, at most `limit` of them unless that is zero. -/
def variablesNamed (d : Database) (name : Bytes) (limit : Nat) : List Variable :=
  limited limit ((d.globals.find name).filterMap fun offset => d.variableAt? offset false)

end Database
end Pdb
