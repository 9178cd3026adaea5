import Pdb.TypeIndex

/-! # Identifiers of entities

A debugger refers to everything in a symbol file by a 64-bit number. `Entity.uid` packs what an
entity is into its number: the three top bits are the kind, and the low bits its fields. A number
with another bit set stands for no entity. -/

namespace Pdb

/-- The kinds of entities, in the order of their codes. -/
inductive EntityKind
  | unit | unitSymbol | globalSymbol | type
  deriving DecidableEq, Repr, Inhabited

namespace EntityKind

def code : EntityKind → Nat
  | .unit => 0
  | .unitSymbol => 1
  | .globalSymbol => 2
  | .type => 3

def ofCode? : Nat → Option EntityKind
  | 0 => some .unit
  | 1 => some .unitSymbol
  | 2 => some .globalSymbol
  | 3 => some .type
  | _ => none

def name : EntityKind → String
  | .unit => "Compiland"
  | .unitSymbol => "CompilandSym"
  | .globalSymbol => "GlobalSym"
  | .type => "Type"

/-- The number of bits that the fields take. -/
def fieldBits : EntityKind → Nat
  | .unit => 16
  | .unitSymbol => 48
  | .globalSymbol => 33
  | .type => 33

end EntityKind

/-- What an identifier stands for: a compile unit, which is a module; a symbol of a module; a global
or a public symbol; a type record or an item record. -/
inductive Entity
  | unit (module : UInt16)
  | unitSymbol (module : UInt16) (offset : UInt32)
  | globalSymbol (offset : UInt32) (isPublic : Bool)
  | type (index : TypeIndex) (isItem : Bool)
  deriving DecidableEq, Repr, Inhabited

abbrev Uid := UInt64

namespace Entity

def kind : Entity → EntityKind
  | .unit _ => .unit
  | .unitSymbol .. => .unitSymbol
  | .globalSymbol .. => .globalSymbol
  | .type .. => .type

/-- The fields of an entity as a number. -/
def fields : Entity → Nat
  | .unit module => module.toNat
  | .unitSymbol module offset => module.toNat * 2 ^ 32 + offset.toNat
  | .globalSymbol offset isPublic => isPublic.toNat * 2 ^ 32 + offset.toNat
  | .type index isItem => isItem.toNat * 2 ^ 32 + index.toNat

def uid (e : Entity) : Uid := UInt64.ofNat (e.kind.code * 2 ^ 61 + e.fields)

/-- The entity of a kind with the given fields. -/
def ofFields (n : Nat) : EntityKind → Entity
  | .unit => .unit (UInt16.ofNat n)
  | .unitSymbol => .unitSymbol (UInt16.ofNat (n / 2 ^ 32)) (UInt32.ofNat n)
  | .globalSymbol => .globalSymbol (UInt32.ofNat n) (n.testBit 32)
  | .type => .type (.ofNat n) (n.testBit 32)

def text (e : Entity) : String :=
  let braced (type fields : String) : String := type ++ " \x7b " ++ fields ++ " \x7d"
  let body := match e with
    | .unit module => braced "PdbCompilandId" s!"modi: {module}"
    | .unitSymbol module offset => braced "PdbCompilandSymId" s!"modi: {module}, offset: {offset}"
    | .globalSymbol offset isPublic =>
      braced "PdbGlobalSymId" s!"offset: {offset}, is_public: {isPublic}"
    | .type index isItem => braced "PdbTypeSymId" s!"index: {index.text}, is_ipi: {isItem}"
  s!"{e.kind.name}({body})"

end Entity

/-- Why a number stands for no entity, or for none of the expected kind. -/
inductive UidFault
  | invalidKind (uid : Uid)
  | wrongKind (uid : Uid) (kind expected : EntityKind)
  | reservedBits (uid : Uid)
  deriving DecidableEq, Repr

def UidFault.message : UidFault → String
  | .invalidKind u =>
    s!"PdbSymUid 0x{Text.hex 1 u.toNat} has invalid kind {u.toNat / 2 ^ 61}"
  | .wrongKind u kind expected =>
    s!"PdbSymUid 0x{Text.hex 1 u.toNat} is a {kind.name}, not a {expected.name}"
  | .reservedBits u => s!"PdbSymUid 0x{Text.hex 1 u.toNat} has reserved bits set"

namespace Uid

def kind (u : Uid) : Except UidFault EntityKind :=
  match EntityKind.ofCode? (u.toNat / 2 ^ 61) with
  | some k => return k
  | none => throw (.invalidKind u)

/-- The entity with the number, which should be of the given kind. -/
def unpackAs (expected : EntityKind) (u : Uid) : Except UidFault Entity := do
  let k ← kind u
  if k ≠ expected then throw (.wrongKind u k expected)
  let fields := u.toNat % 2 ^ 61
  if 2 ^ expected.fieldBits ≤ fields then throw (.reservedBits u)
  return .ofFields fields expected

def unpack (u : Uid) : Except UidFault Entity := do unpackAs (← kind u) u

/-- The text of a number: that of its entity, or the number itself if its kind is invalid. -/
def text (u : Uid) : Except UidFault String :=
  match kind u with
  | .error _ => return s!"PdbSymUid(0x{Text.hex 1 u.toNat})"
  | .ok k => Entity.text <$> unpackAs k u

end Uid
end Pdb
