import Pdb.Database.Address
import Pdb.Uid

/-! # Compile units

Each module is a compile unit, but for the one that the linker makes for itself. What is known of a
unit is in the symbols in front of its first function: the compiler's flags, and a reference to the
items that tell the source file and the directory. -/

namespace Pdb

/-- The source language of a compile unit. -/
inductive Language
  | unknown | c | cPlusPlus | masm | cSharp | rust | swift
  deriving DecidableEq, Repr, Inhabited

namespace Language

def name : Language → String
  | .unknown => "Unknown"
  | .c => "C"
  | .cPlusPlus => "CPlusPlus"
  | .masm => "Masm"
  | .cSharp => "CSharp"
  | .rust => "Rust"
  | .swift => "Swift"

def ofCode : Nat → Language
  | 0x00 => .c
  | 0x01 => .cPlusPlus
  | 0x03 => .masm
  | 0x0a => .cSharp
  | 0x15 => .rust
  | 0x53 => .swift
  | _ => .unknown

end Language

structure CompileUnit where
  module : UInt16
  name : Bytes
  /-- The source file, or the object file if that is not known. -/
  mainFile : Bytes
  language : Language
  isOptimized : Bool
  deriving DecidableEq, Repr

def CompileUnit.uid (u : CompileUnit) : Uid := (Entity.unit u.module).uid

/-! ### Paths -/

namespace Path

/-- A path that starts with a slash, a backslash, or a drive letter and a colon. -/
def isAbsolute : Bytes → Bool
  | a :: b :: _ => a = 0x2f || a = 0x5c || isLetter a && b = 0x3a
  | [a] => a = 0x2f || a = 0x5c
  | [] => false
where
  isLetter (b : UInt8) : Bool := 0x41 ≤ b ∧ b ≤ 0x5a ∨ 0x61 ≤ b ∧ b ≤ 0x7a

def join (directory file : Bytes) : Bytes :=
  if directory.getLast? = some 0x5c ∨ directory.getLast? = some 0x2f then directory ++ file
  else directory ++ 0x5c :: file

end Path

namespace Database

/-- The number of compile units. The linker's module, if there is one, is the last. -/
def unitCount (d : Database) : Nat :=
  match d.modules.getLast? with
  | some m => if m.name = ModuleEntry.linkerName then d.modules.length - 1 else d.modules.length
  | none => 0

def itemText? (d : Database) (item : UInt32) : Option Bytes :=
  match d.items.type? ⟨item⟩ with
  | some (.stringId _ name) => some name
  | _ => none

/-- The source file that a build record names. -/
def sourceFile? (d : Database) (item : UInt32) : Option Bytes :=
  match d.items.type? ⟨item⟩ with
  | some (.buildInfo args) => do
    let argument (a : BuildArgument) : Option Bytes := (a.of? args).bind d.itemText?
    let source ← argument .sourceFile
    guard (!source.isEmpty)
    if Path.isAbsolute source then return source
    match (argument .currentDirectory).filter (!·.isEmpty) with
    | some directory => return Path.join directory source
    | none => return source
  | _ => none

/-- The symbols that tell about a module: those up to the first that opens a scope. -/
def headSymbols (records : List (UInt32 × RawRecord)) : List RawRecord :=
  (records.map (·.2)).takeWhile fun r => !r.symbolKind.startsScope

def compileSymbol? (records : List RawRecord) : Option CompileSymbol :=
  (records.filterMap fun r => match r.symbolKind, r.symbol? with
    | .compile3, some (.compile c) => some c
    | _, _ => none).getLast?

/-- The last of the references to build records. -/
def buildItem? (records : List RawRecord) : Option UInt32 :=
  (records.filterMap fun r => match r.symbolKind, r.symbol? with
    | .buildInfo, some (.buildInfo item) => some item
    | _, _ => none).getLast?

/-- The compile unit of a module, which may have a stream. -/
def unitOf? (d : Database) (module : UInt16) (m : ModuleDescriptor) (stream? : Option ModuleStream) :
    Option CompileUnit := do
  let records ← match stream? with
    | some s => s.records.toOption
    | none => some []
  let head := headSymbols records
  let compile? := compileSymbol? head
  let source? := (buildItem? head).bind d.sourceFile?
  return {
    module, name := m.name
    mainFile := source?.getD (if m.objectFile.isEmpty then m.name else m.objectFile)
    language := (compile?.map fun c => .ofCode c.language).getD .unknown
    isOptimized := (compile?.map (·.isOptimized)).getD false }

def compileUnit? (d : Database) (module : UInt16) : Option CompileUnit := do
  let m ← d.modules[module.toNat]?
  d.unitOf? module m (← (d.moduleStream module.toNat).toOption)

/-- The module of a compile unit. -/
def unitModule? (d : Database) (i : Nat) : Option UInt16 :=
  if i < d.unitCount ∧ i < 2 ^ 16 then some (UInt16.ofNat i) else none

def unitAt? (d : Database) (i : Nat) : Option CompileUnit := (d.unitModule? i).bind d.compileUnit?

end Database
end Pdb
