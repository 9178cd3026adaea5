import Pdb.Fault
import Pdb.LineData

/-! # File checksums

The checksums subsection has a record for each source file of a module. Lines refer to a file by the
offset of its record. -/

namespace Pdb
open Decoder

/-- The checksum of a source file. Its name is an offset in the names stream. -/
structure FileChecksum where
  name : UInt32
  kind : UInt8
  checksum : Bytes
  deriving DecidableEq, Repr

namespace FileChecksum

def kindNames : List String := ["NONE", "MD5", "SHA_1", "SHA_256"]

/-- The name of the way in which the checksum is made. -/
def kindName (c : FileChecksum) : String := kindNames.getD c.kind.toNat s!"??({c.kind})"

def decodeBody : Decoder FileChecksum := do
  let name ← u32
  let size ← u8
  let kind ← u8
  let checksum ← take size.toNat
  return { name, kind, checksum }

/-- Reads a record and the padding up to a multiple of four. -/
def decode : Decoder FileChecksum :=
  decodeBody >>= fun c => padding (Bytes.padTo4 (6 + c.checksum.length)) >>= fun _ => pure c

theorem decode_progress : Progress decode :=
  Progress.bindPadding (u32_progress.bind fun _ => inferInstance) _

def list (bs : Bytes) : List FileChecksum := (many decode decode_progress bs).1

/-- The record at an offset of a subsection. -/
def at_ (bs : Bytes) (offset : Nat) : Except Fault FileChecksum :=
  if offset ≤ bs.length then
    match decode (bs.drop offset) with
    | some (c, _) => return c
    | none => throw .checksumUndecodable
  else throw .fileOutOfRange

def encode (c : FileChecksum) : Bytes :=
  Bytes.ofU32 c.name ++ [UInt8.ofNat c.checksum.length, c.kind] ++ c.checksum
    ++ Bytes.zeros (Bytes.padTo4 (6 + c.checksum.length))

end FileChecksum
end Pdb
