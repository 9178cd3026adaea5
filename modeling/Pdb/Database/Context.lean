import Pdb.Database.Function
import Pdb.LineData.Table

/-! # What is at an address

The line table of a module, and all that is known of an address: its compile unit, its function and
its line. -/

namespace Pdb

/-- What is asked for about an address. Each part is a bit of a word; other bits mean nothing. -/
structure ContextItems where
  bits : UInt32
  deriving DecidableEq, Repr

namespace ContextItems

def none : ContextItems := ⟨0⟩
def compileUnit : ContextItems := ⟨1⟩
def function : ContextItems := ⟨2⟩
def line : ContextItems := ⟨4⟩

def contains (a b : ContextItems) : Bool := a.bits &&& b.bits = b.bits

def union (a b : ContextItems) : ContextItems := ⟨a.bits ||| b.bits⟩

def when (condition : Bool) (a : ContextItems) : ContextItems := if condition then a else none

end ContextItems

/-- What is known of an address, or of a function. -/
structure SymbolContext where
  compileUnit? : Option CompileUnit
  function? : Option Function
  line? : Option LineEntry
  /-- The source file of the line. -/
  file? : Option Bytes
  deriving DecidableEq, Repr

namespace SymbolContext

def empty : SymbolContext := ⟨none, none, none, none⟩

/-- The parts that are there. -/
def found (c : SymbolContext) : ContextItems :=
  ((ContextItems.compileUnit.when c.compileUnit?.isSome).union
    (ContextItems.function.when c.function?.isSome)).union (ContextItems.line.when c.line?.isSome)

end SymbolContext

namespace Database

/-- The line table of a module, which is empty without a stream. -/
def lineTableIn? (d : Database) : Option ModuleStream → Option LineTable
  | none => some ⟨[], []⟩
  | some m => do (LineTable.build (← m.lineData.toOption) d.names d.addressOf?).toOption

def lineTable? (d : Database) (module : Nat) : Option LineTable := do
  d.lineTableIn? (← (d.moduleStream module).toOption)

/-- The source files of a module, also those without lines. -/
def supportFilesIn? (d : Database) : Option ModuleStream → Option (List Bytes)
  | none => some []
  | some m => do (LineTable.supportFiles (← m.lineData.toOption) d.names).toOption

def supportFiles? (d : Database) (module : Nat) : Option (List Bytes) := do
  d.supportFilesIn? (← (d.moduleStream module).toOption)

/-- The function of a module at an address. -/
def functionAt? (d : Database) (module : UInt16) (address : UInt64) : Option Function := do
  let offset ← (← (d.procedureAt? module.toNat address).toOption)
  d.function? module offset

def contextAt [UnstableSort] (d : Database) (address : UInt64) (items : ContextItems) : SymbolContext :=
  if items = .none then .empty
  else match (d.moduleAt? address).bind fun m => (d.compileUnit? m).map (m, ·) with
    | none => .empty
    | some (module, unit) =>
      let function? := if items.contains .function then d.functionAt? module address else none
      let table? := if items.contains .line then d.lineTable? module.toNat else none
      let line? := table?.bind (·.find? address)
      { compileUnit? := unit, function?, line?
        file? := line?.bind fun e => table?.bind (·.fileName? e) }

/-- The functions with a name, each with its compile unit. -/
def functionContexts (d : Database) (name : Bytes) (limit : Nat) : List SymbolContext :=
  (d.functionsNamed name limit).map fun (f : Function) =>
    { SymbolContext.empty with function? := f, compileUnit? := d.compileUnit? f.module }

end Database
end Pdb
