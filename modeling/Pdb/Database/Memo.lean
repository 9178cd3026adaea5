import Pdb.Database.Context
import Pdb.Database.Variable
import Pdb.Table

/-! # What is kept of a database

A part of a database is read when it is asked for, and what has been read is kept: the ranges of
addresses, the streams of modules, and the compile units, functions, variables and line tables.
What could not be read is not kept, so it is read again the next time. -/

namespace Pdb

/-- What has been read from a database so far. -/
structure Memo where
  ranges? : Option (List AddressRange) := none
  streams : Table UInt16 ModuleStream := .empty
  units : Table UInt16 CompileUnit := .empty
  functions : Table Uid Function := .empty
  globals : Table Uid Variable := .empty
  lineTables : Table UInt16 LineTable := .empty

/-- A question that looks into the memo first, and may add to it. -/
abbrev Recall (α : Type) := StateM Memo α

/-- A place in the memo. -/
structure Slot (α : Type) where
  kept? : Memo → Option α
  keep : α → Memo → Memo

namespace Slot

def ranges : Slot (List AddressRange) where
  kept? memo := memo.ranges?
  keep rs memo := { memo with ranges? := rs }

def stream (module : UInt16) : Slot ModuleStream where
  kept? memo := memo.streams.find? module
  keep s memo := { memo with streams := memo.streams.insert module s }

def unit (module : UInt16) : Slot CompileUnit where
  kept? memo := memo.units.find? module
  keep u memo := { memo with units := memo.units.insert module u }

def function (u : Uid) : Slot Function where
  kept? memo := memo.functions.find? u
  keep f memo := { memo with functions := memo.functions.insert u f }

def variable_ (u : Uid) : Slot Variable where
  kept? memo := memo.globals.find? u
  keep v memo := { memo with globals := memo.globals.insert u v }

def lineTable (module : UInt16) : Slot LineTable where
  kept? memo := memo.lineTables.find? module
  keep t memo := { memo with lineTables := memo.lineTables.insert module t }

/-- Makes an answer, and keeps the part of it that can be kept. -/
def make {α β : Type} (slot : Slot α) (part? : β → Option α) (answer : Recall β) : Recall β := do
  let b ← answer
  match part? b with
  | some a => modify (slot.keep a)
  | none => pure ()
  return b

/-- The answer by what is kept, or else one that is made. -/
def lookUp {α β : Type} (slot : Slot α) (shown : α → β) (part? : β → Option α) (answer : Recall β) :
    Recall β := do
  match slot.kept? (← get) with
  | some a => return shown a
  | none => slot.make part? answer

end Slot

/-- What is known of an address so far, and the parts that have been found. -/
structure Resolution where
  context : SymbolContext := .empty
  found : ContextItems := .none
  deriving DecidableEq, Repr

namespace Resolution

def addUnit (r : Resolution) (u : CompileUnit) : Resolution where
  context := { r.context with compileUnit? := u }
  found := r.found.union .compileUnit

def addFunction (r : Resolution) (f : Function) : Resolution where
  context := { r.context with function? := f }
  found := r.found.union .function

def addLine (r : Resolution) (t : LineTable) (e : LineEntry) : Resolution where
  context := { r.context with line? := e, file? := t.fileName? e }
  found := r.found.union .line

end Resolution

namespace Recall

/-- Answers one after another, each that there is, until there are `limit` of them unless that is
zero. -/
def upTo {α β : Type} (limit : Nat) (ask : α → Recall (Option β)) :
    List β → List α → Recall (List β)
  | found, [] => return found
  | found, x :: xs =>
    if limit ≠ 0 ∧ limit ≤ found.length then return found
    else do upTo limit ask (found ++ (← ask x).toList) xs

variable [UnstableSort] (d : Database)

def ranges : Recall (List AddressRange) := Slot.ranges.lookUp id some (pure d.ranges)

def moduleAt? (address : UInt64) : Recall (Option UInt16) := do
  return AddressRange.moduleIn? (← ranges d) address

/-- Only streams are kept: a module without one is looked up again. -/
def moduleStream (module : UInt16) : Recall (Except Fault (Option ModuleStream)) :=
  (Slot.stream module).lookUp (fun s => .ok (some s)) (·.toOption.join)
    (pure (d.moduleStream module.toNat))

def compileUnit? (module : UInt16) : Recall (Option CompileUnit) :=
  (Slot.unit module).lookUp some id do
    match d.modules[module.toNat]? with
    | none => return none
    | some m => return (← moduleStream d module).toOption.bind (d.unitOf? module m)

def unitAt? (i : Nat) : Recall (Option CompileUnit) :=
  match d.unitModule? i with
  | none => return none
  | some module => compileUnit? d module

def lineTable? (module : UInt16) : Recall (Option LineTable) :=
  (Slot.lineTable module).lookUp some id do
    return (← moduleStream d module).toOption.bind d.lineTableIn?

def supportFiles? (module : UInt16) : Recall (Option (List Bytes)) := do
  return (← moduleStream d module).toOption.bind d.supportFilesIn?

def procedureAt? (module : UInt16) (address : UInt64) : Recall (Except Fault (Option UInt32)) := do
  return (← moduleStream d module).bind (d.procedureIn? address)

def function? (module : UInt16) (offset : UInt32) : Recall (Option Function) :=
  (Slot.function (Entity.unitSymbol module offset).uid).lookUp some id do
    return (← moduleStream d module).toOption.bind (d.functionIn? module offset)

def functionAt? (module : UInt16) (address : UInt64) : Recall (Option Function) := do
  match (← procedureAt? d module address).toOption.join with
  | none => return none
  | some offset => function? d module offset

/-- The module of a variable, which may have no address. -/
def variableModule? : Option UInt64 → Recall (Option UInt16)
  | none => return none
  | some address => moduleAt? d address

def variableAt? (offset : UInt32) (isPublic : Bool) : Recall (Option Variable) :=
  (Slot.variable_ (Entity.globalSymbol offset isPublic).uid).lookUp some id do
    match (d.globals.recordAt offset.toNat).toOption with
    | none => return none
    | some r =>
      return d.variableOf? offset isPublic r (← variableModule? d (d.variableAddress? r))

def variablesNamed (name : Bytes) (limit : Nat) : Recall (List Variable) :=
  upTo limit (variableAt? d · false) [] (d.globals.find name)

/-- The function that a global symbol refers to, with its compile unit. -/
def functionContext? (offset : UInt32) : Recall (Option SymbolContext) := do
  match d.target? offset with
  | none => return none
  | some (module, offset) =>
    match ← function? d module offset with
    | none => return none
    | some f =>
      let compileUnit? ← compileUnit? d module
      return some { SymbolContext.empty with function? := f, compileUnit? }

def functionContexts (name : Bytes) (limit : Nat) : Recall (List SymbolContext) :=
  upTo limit (functionContext? d) [] (d.globals.find name)

/-! ### What is at an address -/

def addFunctionAt (module : UInt16) (address : UInt64) (items : ContextItems) (r : Resolution) :
    Recall Resolution :=
  if items.contains .function then do
    match ← functionAt? d module address with
    | none => return r
    | some f => return r.addFunction f
  else return r

def addLineAt (module : UInt16) (address : UInt64) (items : ContextItems) (r : Resolution) :
    Recall Resolution :=
  if items.contains .line then do
    match ← lineTable? d module with
    | none => return r
    | some t =>
      match t.find? address with
      | none => return r
      | some e => return r.addLine t e
  else return r

/-- What is asked for about an address, as far as it is known. -/
def resolve (address : UInt64) (items : ContextItems) : Recall Resolution :=
  if items = .none then return {}
  else do
    match ← moduleAt? d address with
    | none => return {}
    | some module =>
      match ← compileUnit? d module with
      | none => return {}
      | some u =>
        let r ← addFunctionAt d module address items (Resolution.addUnit {} u)
        addLineAt d module address items r

end Recall
end Pdb
