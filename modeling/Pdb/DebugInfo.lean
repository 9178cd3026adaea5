import Pdb.DebugInfo.Module
import Pdb.DebugInfo.Section

/-! # The debug information stream

The stream begins with a header and holds seven substreams one after another, among them the list of
modules, the section contributions and the optional debug header. The header has their lengths. -/

namespace Pdb
open Decoder

/-- The header of the debug information stream. -/
structure DebugInfoHeader where
  signature : Int32
  version : UInt32
  age : UInt32
  globalIndex : StreamIndex
  buildNumber : UInt16
  publicIndex : StreamIndex
  toolVersion : UInt16
  /-- The stream of the global symbols. -/
  globals : StreamIndex
  toolBuild : UInt16
  modulesLength : Int32
  contributionsLength : Int32
  sectionMapLength : Int32
  sourcesLength : Int32
  typeServersLength : Int32
  typeServer : UInt32
  optionalLength : Int32
  editLength : Int32
  flags : UInt16
  machine : UInt16
  deriving DecidableEq, Repr

namespace DebugInfoHeader

def decode : Decoder DebugInfoHeader := do
  let signature ← i32
  let version ← u32
  let age ← u32
  let globalIndex ← StreamIndex.decode
  let buildNumber ← u16
  let publicIndex ← StreamIndex.decode
  let toolVersion ← u16
  let globals ← StreamIndex.decode
  let toolBuild ← u16
  let modulesLength ← i32
  let contributionsLength ← i32
  let sectionMapLength ← i32
  let sourcesLength ← i32
  let typeServersLength ← i32
  let typeServer ← u32
  let optionalLength ← i32
  let editLength ← i32
  let flags ← u16
  let machine ← u16
  skip 4
  return {
    signature, version, age, globalIndex, buildNumber, publicIndex, toolVersion, globals, toolBuild,
    modulesLength, contributionsLength, sectionMapLength, sourcesLength, typeServersLength,
    typeServer, optionalLength, editLength, flags, machine }

def encode (h : DebugInfoHeader) : Bytes :=
  let len (n : Int32) : Bytes := Bytes.ofU32 n.toUInt32
  len h.signature ++ Bytes.ofU32 h.version ++ Bytes.ofU32 h.age ++ h.globalIndex.encode
    ++ Bytes.ofU16 h.buildNumber ++ h.publicIndex.encode ++ Bytes.ofU16 h.toolVersion
    ++ h.globals.encode ++ Bytes.ofU16 h.toolBuild ++ len h.modulesLength
    ++ len h.contributionsLength ++ len h.sectionMapLength ++ len h.sourcesLength
    ++ len h.typeServersLength ++ Bytes.ofU32 h.typeServer ++ len h.optionalLength
    ++ len h.editLength ++ Bytes.ofU16 h.flags ++ Bytes.ofU16 h.machine ++ Bytes.zeros 4

end DebugInfoHeader

/-- The contents of the debug information stream. All is empty in a database without one. -/
structure DebugInfo where
  header? : Option DebugInfoHeader
  modules : Bytes
  contributions : Bytes
  sectionMap : Bytes
  sources : Bytes
  typeServers : Bytes
  edit : Bytes
  optional : Bytes
  deriving DecidableEq, Repr

namespace DebugInfo

def empty : DebugInfo := ⟨none, [], [], [], [], [], [], []⟩

/-- Splits off the next substream; the field is where the header has its length. -/
def substream (field : String) (length : Int32) (bs : Bytes) : Except Fault (Bytes × Bytes) :=
  if length < 0 then throw (.substreamNegative field)
  else match take length.toInt.toNat bs with
    | none => throw (.substreamTooLong field)
    | some r => return r

def parse (bs : Bytes) : Except Fault DebugInfo := do
  if bs.isEmpty then return empty
  let (h, bs) ← Fault.orMalformed (DebugInfoHeader.decode bs)
  let (modules, bs) ← substream "mod_info_size" h.modulesLength bs
  let (contributions, bs) ← substream "section_contribution_size" h.contributionsLength bs
  let (sectionMap, bs) ← substream "section_map_size" h.sectionMapLength bs
  let (sources, bs) ← substream "source_info_size" h.sourcesLength bs
  let (typeServers, bs) ← substream "type_server_map_size" h.typeServersLength bs
  let (edit, bs) ← substream "edit_and_continue_size" h.editLength bs
  let (optional, _) ← substream "optional_dbg_header_size" h.optionalLength bs
  return {
    header? := h, modules, contributions, sectionMap, sources, typeServers, edit, optional }

def age (d : DebugInfo) : Nat := (d.header?.map (·.age.toNat)).getD 0

/-- The number of the stream of the global symbols. -/
def globals? (d : DebugInfo) : Option Nat := d.header?.bind (·.globals.get?)

end DebugInfo
end Pdb
