import Pdb.Numeric
import Pdb.RawRecord
import Pdb.TypeRecord.Layout

/-! # Symbol records

A symbol record names a function, a variable, a constant, or a fact about a whole module. A function
opens a scope, which a later record ends; the records between the two belong to it. `Symbol.parse?`
reads a payload by its kind and ignores the padding behind it; `Symbol.encode` writes one. -/

namespace Pdb
open Decoder

structure SymbolKind where
  code : UInt16
  deriving DecidableEq, Repr, Inhabited

namespace SymbolKind

@[match_pattern] abbrev end_ : SymbolKind := ⟨0x0006⟩
@[match_pattern] abbrev skip : SymbolKind := ⟨0x0007⟩
@[match_pattern] abbrev align : SymbolKind := ⟨0x0402⟩
@[match_pattern] abbrev frameProc : SymbolKind := ⟨0x1012⟩
@[match_pattern] abbrev objectName : SymbolKind := ⟨0x1101⟩
@[match_pattern] abbrev thunk32 : SymbolKind := ⟨0x1102⟩
@[match_pattern] abbrev block32 : SymbolKind := ⟨0x1103⟩
@[match_pattern] abbrev label32 : SymbolKind := ⟨0x1105⟩
@[match_pattern] abbrev register : SymbolKind := ⟨0x1106⟩
@[match_pattern] abbrev constant : SymbolKind := ⟨0x1107⟩
@[match_pattern] abbrev udt : SymbolKind := ⟨0x1108⟩
@[match_pattern] abbrev bpRelative32 : SymbolKind := ⟨0x110b⟩
@[match_pattern] abbrev localData32 : SymbolKind := ⟨0x110c⟩
@[match_pattern] abbrev globalData32 : SymbolKind := ⟨0x110d⟩
@[match_pattern] abbrev public32 : SymbolKind := ⟨0x110e⟩
@[match_pattern] abbrev localProc32 : SymbolKind := ⟨0x110f⟩
@[match_pattern] abbrev globalProc32 : SymbolKind := ⟨0x1110⟩
@[match_pattern] abbrev registerRelative32 : SymbolKind := ⟨0x1111⟩
@[match_pattern] abbrev localThread32 : SymbolKind := ⟨0x1112⟩
@[match_pattern] abbrev globalThread32 : SymbolKind := ⟨0x1113⟩
@[match_pattern] abbrev compile2 : SymbolKind := ⟨0x1116⟩
@[match_pattern] abbrev usingNamespace : SymbolKind := ⟨0x1124⟩
@[match_pattern] abbrev procRef : SymbolKind := ⟨0x1125⟩
@[match_pattern] abbrev dataRef : SymbolKind := ⟨0x1126⟩
@[match_pattern] abbrev localProcRef : SymbolKind := ⟨0x1127⟩
@[match_pattern] abbrev trampoline : SymbolKind := ⟨0x1129⟩
@[match_pattern] abbrev compile3 : SymbolKind := ⟨0x113c⟩
@[match_pattern] abbrev environment : SymbolKind := ⟨0x113d⟩
@[match_pattern] abbrev local_ : SymbolKind := ⟨0x113e⟩
@[match_pattern] abbrev localProc32Id : SymbolKind := ⟨0x1146⟩
@[match_pattern] abbrev globalProc32Id : SymbolKind := ⟨0x1147⟩
@[match_pattern] abbrev buildInfo : SymbolKind := ⟨0x114c⟩
@[match_pattern] abbrev inlineSite : SymbolKind := ⟨0x114d⟩
@[match_pattern] abbrev inlineSiteEnd : SymbolKind := ⟨0x114e⟩
@[match_pattern] abbrev procIdEnd : SymbolKind := ⟨0x114f⟩

def names : List (UInt16 × String) := [
  (0x0006, "S_END"),
  (0x0007, "S_SKIP"),
  (0x0402, "S_ALIGN"),
  (0x1012, "S_FRAMEPROC"),
  (0x1101, "S_OBJNAME"),
  (0x1102, "S_THUNK32"),
  (0x1103, "S_BLOCK32"),
  (0x1105, "S_LABEL32"),
  (0x1106, "S_REGISTER"),
  (0x1107, "S_CONSTANT"),
  (0x1108, "S_UDT"),
  (0x110b, "S_BPREL32"),
  (0x110c, "S_LDATA32"),
  (0x110d, "S_GDATA32"),
  (0x110e, "S_PUB32"),
  (0x110f, "S_LPROC32"),
  (0x1110, "S_GPROC32"),
  (0x1111, "S_REGREL32"),
  (0x1112, "S_LTHREAD32"),
  (0x1113, "S_GTHREAD32"),
  (0x1116, "S_COMPILE2"),
  (0x1124, "S_UNAMESPACE"),
  (0x1125, "S_PROCREF"),
  (0x1126, "S_DATAREF"),
  (0x1127, "S_LPROCREF"),
  (0x1129, "S_TRAMPOLINE"),
  (0x113c, "S_COMPILE3"),
  (0x113d, "S_ENVBLOCK"),
  (0x113e, "S_LOCAL"),
  (0x1146, "S_LPROC32_ID"),
  (0x1147, "S_GPROC32_ID"),
  (0x114c, "S_BUILDINFO"),
  (0x114d, "S_INLINESITE"),
  (0x114e, "S_INLINESITE_END"),
  (0x114f, "S_PROC_ID_END")]

/-- The name of a kind, or its code in hexadecimal. -/
def name (k : SymbolKind) : String :=
  (names.lookup k.code).getD s!"S_??(0x{Text.hex 4 k.code.toNat})"

def isProc : SymbolKind → Bool
  | .globalProc32 | .localProc32 | .globalProc32Id | .localProc32Id => true
  | _ => false

def startsScope : SymbolKind → Bool
  | .block32 | .thunk32 | .inlineSite => true
  | k => k.isProc

def endsScope : SymbolKind → Bool
  | .end_ | .procIdEnd | .inlineSiteEnd => true
  | _ => false

end SymbolKind

/-- A place in the image: a section, counted from 1, and an offset in it. -/
structure SectionOffset where
  offset : UInt32
  segment : UInt16
  deriving DecidableEq, Repr, Inhabited

namespace SectionOffset

def decode : Decoder SectionOffset := do
  let offset ← u32
  let segment ← u16
  return { offset, segment }

def encode (a : SectionOffset) : Bytes := Bytes.ofU32 a.offset ++ Bytes.ofU16 a.segment

def text (a : SectionOffset) : String :=
  s!"[{Text.hex 4 a.segment.toNat}:{Text.hex 8 a.offset.toNat}]"

instance sectionOffsetLocal : Local decode := by unfold decode; infer_instance

end SectionOffset

structure ToolVersion where
  major : UInt16
  minor : UInt16
  build : UInt16
  qfe : UInt16
  deriving DecidableEq, Repr, Inhabited

namespace ToolVersion

def decode : Decoder ToolVersion := do
  let major ← u16
  let minor ← u16
  let build ← u16
  let qfe ← u16
  return { major, minor, build, qfe }

def encode (v : ToolVersion) : Bytes :=
  Bytes.ofU16 v.major ++ Bytes.ofU16 v.minor ++ Bytes.ofU16 v.build ++ Bytes.ofU16 v.qfe

instance toolVersionLocal : Local decode := by unfold decode; infer_instance

end ToolVersion

/-- What compiled a module, and how. The low byte of the flags is the source language. -/
structure CompileSymbol where
  flags : UInt32
  machine : UInt16
  frontend : ToolVersion
  version : ToolVersion
  name : Bytes
  deriving DecidableEq, Repr, Inhabited

namespace CompileSymbol

/-- The flags by name, with their positions. -/
def flagNames : List (String × Nat) :=
  [("ec", 8), ("no_dbg_info", 9), ("ltcg", 10), ("no_data_align", 11), ("managed_present", 12),
    ("security_checks", 13), ("hot_patch", 14), ("cvtcil", 15), ("msil_module", 16), ("sdl", 17),
    ("pgo", 18), ("exp", 19)]

def language (c : CompileSymbol) : Nat := c.flags.toNat % 256

/-- The names of the flags that are set. -/
def setFlags (c : CompileSymbol) : List String :=
  (flagNames.filter fun f => c.flags.toNat.testBit f.2).map (·.1)

/-- Built with link-time or profile-guided optimisation. -/
def isOptimized (c : CompileSymbol) : Bool :=
  c.flags.toNat.testBit 10 || c.flags.toNat.testBit 18

end CompileSymbol

/-- A function. Its parent, its end and its successor are offsets of symbol records. -/
structure ProcSymbol where
  parent : UInt32
  end_ : UInt32
  next : UInt32
  length : UInt32
  debugStart : UInt32
  debugEnd : UInt32
  type : TypeIndex
  address : SectionOffset
  flags : UInt8
  name : Bytes
  deriving DecidableEq, Repr, Inhabited

namespace ProcSymbol

/-- The names of the flag bits, lowest first. -/
def flagNames : List String :=
  ["NOFPO", "INT", "FAR", "NEVER", "NOTREACHED", "CUST_CALL", "NOINLINE", "OPTDBGINFO"]

/-- The names of the flags that are set. -/
def setFlags (p : ProcSymbol) : List String :=
  (flagNames.zipIdx.filter fun f => p.flags.toNat.testBit f.2).map (·.1)

end ProcSymbol

inductive Symbol
  | unknown
  | objectName (signature : UInt32) (name : Bytes)
  | compile (c : CompileSymbol)
  | proc (p : ProcSymbol)
  | udt (type : TypeIndex) (name : Bytes)
  | constant (type : TypeIndex) (value : Numeric) (name : Bytes)
  /-- A reference to a symbol of a module; modules are counted from 1. -/
  | reference (checksum : UInt32) (offset : UInt32) (module : UInt16) (name : Bytes)
  | data (type : TypeIndex) (address : SectionOffset) (name : Bytes)
  | threadData (type : TypeIndex) (address : SectionOffset) (name : Bytes)
  | public_ (flags : UInt32) (address : SectionOffset) (name : Bytes)
  | buildInfo (item : UInt32)
  | end_
  deriving DecidableEq, Repr, Inhabited

namespace Symbol

def decodeObjectName : Decoder Symbol := do
  let signature ← u32
  let name ← text
  return .objectName signature name

def decodeCompile : Decoder Symbol := do
  let flags ← u32
  let machine ← u16
  let frontend ← ToolVersion.decode
  let version ← ToolVersion.decode
  let name ← text
  return .compile { flags, machine, frontend, version, name }

def decodeProc : Decoder Symbol := do
  let parent ← u32
  let end_ ← u32
  let next ← u32
  let length ← u32
  let debugStart ← u32
  let debugEnd ← u32
  let type ← TypeIndex.decode
  let address ← SectionOffset.decode
  let flags ← u8
  let name ← text
  return .proc { parent, end_, next, length, debugStart, debugEnd, type, address, flags, name }

def decodeUdt : Decoder Symbol := do
  let type ← TypeIndex.decode
  let name ← text
  return .udt type name

def decodeConstant : Decoder Symbol := do
  let type ← TypeIndex.decode
  let value ← Numeric.decode
  let name ← text
  return .constant type value name

def decodeReference : Decoder Symbol := do
  let checksum ← u32
  let offset ← u32
  let module ← u16
  let name ← text
  return .reference checksum offset module name

def decodeVariable (make : TypeIndex → SectionOffset → Bytes → Symbol) : Decoder Symbol := do
  let type ← TypeIndex.decode
  let address ← SectionOffset.decode
  let name ← text
  return make type address name

def decodePublic : Decoder Symbol := do
  let flags ← u32
  let address ← SectionOffset.decode
  let name ← text
  return .public_ flags address name

/-- Reads the payload of a symbol of kind `kind`. A kind without a layout reads nothing. -/
def decode (kind : SymbolKind) : Decoder Symbol :=
  match kind with
  | .objectName => decodeObjectName
  | .globalProc32 | .localProc32 | .globalProc32Id | .localProc32Id => decodeProc
  | .compile3 => decodeCompile
  | .udt => decodeUdt
  | .constant => decodeConstant
  | .public32 => decodePublic
  | .procRef | .localProcRef | .dataRef => decodeReference
  | .localData32 | .globalData32 => decodeVariable .data
  | .localThread32 | .globalThread32 => decodeVariable .threadData
  | .buildInfo => .buildInfo <$> u32
  | .end_ | .procIdEnd => pure .end_
  | _ => pure .unknown

/-- The symbol in a payload, if it is well-formed. -/
def parse? (kind : SymbolKind) (payload : Bytes) : Option Symbol := (decode kind payload).map (·.1)

def encode : Symbol → Bytes
  | .unknown => []
  | .objectName signature name => Bytes.ofU32 signature ++ Bytes.ofText name
  | .compile c =>
    Bytes.ofU32 c.flags ++ Bytes.ofU16 c.machine ++ c.frontend.encode ++ c.version.encode
      ++ Bytes.ofText c.name
  | .proc p =>
    Bytes.ofU32 p.parent ++ Bytes.ofU32 p.end_ ++ Bytes.ofU32 p.next ++ Bytes.ofU32 p.length
      ++ Bytes.ofU32 p.debugStart ++ Bytes.ofU32 p.debugEnd ++ p.type.encode ++ p.address.encode
      ++ [p.flags] ++ Bytes.ofText p.name
  | .udt type name => type.encode ++ Bytes.ofText name
  | .constant type value name => type.encode ++ value.encode ++ Bytes.ofText name
  | .reference checksum offset module name =>
    Bytes.ofU32 checksum ++ Bytes.ofU32 offset ++ Bytes.ofU16 module ++ Bytes.ofText name
  | .data type address name => type.encode ++ address.encode ++ Bytes.ofText name
  | .threadData type address name => type.encode ++ address.encode ++ Bytes.ofText name
  | .public_ flags address name => Bytes.ofU32 flags ++ address.encode ++ Bytes.ofText name
  | .buildInfo item => Bytes.ofU32 item
  | .end_ => []

/-- The name of what the symbol stands for. -/
def name? : Symbol → Option Bytes
  | .proc p => some p.name
  | .udt _ name => some name
  | .constant _ _ name => some name
  | .reference _ _ _ name => some name
  | .data _ _ name => some name
  | .threadData _ _ name => some name
  | .public_ _ _ name => some name
  | _ => none

/-- The text of a variable: its place, its type and its name. -/
def variableText (type : TypeIndex) (address : SectionOffset) (name : Bytes) : String :=
  s!"Data: {address.text} {type.text} {Text.lossy name}"

end Symbol

namespace RawRecord

def symbolKind (r : RawRecord) : SymbolKind := ⟨r.kind⟩

def symbol? (r : RawRecord) : Option Symbol := Symbol.parse? r.symbolKind r.data

end RawRecord
end Pdb
