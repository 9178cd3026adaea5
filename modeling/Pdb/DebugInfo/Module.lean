import Pdb.DebugInfo.Contribution
import Pdb.StreamIndex

/-! # Modules

A module is what one object file has brought into the executable. Its symbols and its line numbers
are in a stream of its own, if there are any. -/

namespace Pdb
open Decoder

structure ModuleEntry where
  contribution : Contribution
  flags : UInt16
  stream : StreamIndex
  /-- The length of the symbols in the module's stream, with the signature in front of them. -/
  symbolBytes : UInt32
  /-- The length of line numbers in an old form, which are passed over. -/
  oldLineBytes : UInt32
  lineBytes : UInt32
  fileCount : UInt16
  name : Bytes
  objectFile : Bytes
  deriving DecidableEq, Repr

namespace ModuleEntry

/-- Reads an entry without the padding behind it. -/
def decodeBody : Decoder ModuleEntry := do
  skip 4
  let contribution ← Contribution.decode
  let flags ← u16
  let stream ← StreamIndex.decode
  let symbolBytes ← u32
  let oldLineBytes ← u32
  let lineBytes ← u32
  let fileCount ← u16
  skip 14
  let name ← text
  let objectFile ← text
  return {
    contribution, flags, stream, symbolBytes, oldLineBytes, lineBytes, fileCount, name, objectFile }

/-- Reads an entry and the padding up to a multiple of four, which may be missing at the end. -/
def decode : Decoder ModuleEntry := fun bs => do
  let (m, r) ← decodeBody bs
  return (m, r.drop (Bytes.padTo4 (bs.length - r.length)))

theorem decodeBody_progress : Progress decodeBody :=
  (skip_progress (by decide)).bind fun _ => inferInstance

theorem decode_progress : Progress decode := by
  intro bs m r h
  obtain ⟨⟨x, s⟩, h₁, h₂⟩ := Option.bind_eq_some_iff.mp h
  cases h₂
  exact Nat.lt_of_le_of_lt (List.drop_sublist _ _).length_le (decodeBody_progress _ _ _ h₁)

/-- The list of modules, and the bytes behind the last whole entry. -/
def listWithRest (bs : Bytes) : List ModuleEntry × Bytes := many decode decode_progress bs

/-- The name of the module that the linker makes for its own symbols. -/
def linkerName : Bytes := Text.utf8 "* Linker *"

def isLinker (m : ModuleEntry) : Bool := m.name = linkerName

/-- The bytes of an entry, with its padding. -/
def encode (m : ModuleEntry) : Bytes :=
  let body := Bytes.zeros 4 ++ m.contribution.encode ++ Bytes.ofU16 m.flags ++ m.stream.encode
    ++ Bytes.ofU32 m.symbolBytes ++ Bytes.ofU32 m.oldLineBytes ++ Bytes.ofU32 m.lineBytes
    ++ Bytes.ofU16 m.fileCount ++ Bytes.zeros 14 ++ Bytes.ofText m.name
    ++ Bytes.ofText m.objectFile
  body ++ Bytes.zeros (Bytes.padTo4 body.length)

end ModuleEntry
end Pdb
