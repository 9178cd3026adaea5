import Pdb.Database.CompileUnit

/-! # Functions

A function is a symbol of a module. Global symbols refer to functions by their module and their
offset there, and are found by name. -/

namespace Pdb

structure Function where
  module : UInt16
  /-- The offset of its symbol in the module. -/
  offset : UInt32
  name : Bytes
  start : UInt64
  /-- The address behind its code. -/
  stop : UInt64
  /-- The record of its type. -/
  type : TypeIndex
  deriving DecidableEq, Repr

namespace Function

def uid (f : Function) : Uid := (Entity.unitSymbol f.module f.offset).uid
def unitUid (f : Function) : Uid := (Entity.unit f.module).uid

end Function

namespace Database

/-- The function that a symbol of a module describes. Code that starts where the image is loaded, or
that goes beyond the last address, is none. -/
def functionOf? (d : Database) (module : UInt16) (offset : UInt32) (p : ProcSymbol) :
    Option Function := do
  let start ← d.addressOf? p.address.segment p.address.offset
  guard (start ≠ d.options.loadAddress)
  guard (start.toNat + p.length.toNat < 2 ^ 64)
  return {
    module, offset, name := p.name, start, stop := start + p.length.toUInt64, type := p.type }

/-- The function at an offset of a module, if the module has a stream. -/
def functionIn? (d : Database) (module : UInt16) (offset : UInt32) :
    Option ModuleStream → Option Function
  | none => none
  | some m => do
    let r ← (m.recordAt offset.toNat).toOption
    d.functionOf? module offset (← procOf? r)

def function? (d : Database) (module : UInt16) (offset : UInt32) : Option Function := do
  d.functionIn? module offset (← (d.moduleStream module.toNat).toOption)

/-- The module, counted from 0, and the offset there that a global symbol refers to. -/
def target? (d : Database) (offset : UInt32) : Option (UInt16 × UInt32) := do
  let r ← (d.globals.recordAt offset.toNat).toOption
  guard (r.symbolKind = .procRef ∨ r.symbolKind = .localProcRef)
  match r.symbol? with
  | some (.reference _ offset module _) =>
    guard (module ≠ 0)
    return (module - 1, offset)
  | _ => none

/-- The first `limit` of some results, or all of them if the limit is zero. -/
def limited {α : Type} (limit : Nat) (xs : List α) :
    List α := if limit = 0 then xs else xs.take limit

/-- The functions with a name, at most `limit` of them unless that is zero. -/
def functionsNamed (d : Database) (name : Bytes) (limit : Nat) : List Function :=
  limited limit <| (d.globals.find name).filterMap fun offset => do
    let (module, offset) ← d.target? offset
    d.function? module offset

end Database
end Pdb
