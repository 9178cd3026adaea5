import Pdb.Fault

/-! # Section contributions

Each section of the executable is put together from pieces, and each piece comes from one module.
The table of the pieces leads from an address to the module that has defined it. -/

namespace Pdb
open Decoder

/-- A piece of a section. Sections are counted from 1, and modules from 0. -/
structure Contribution where
  section_ : UInt16
  offset : Int32
  size : Int32
  characteristics : UInt32
  module : UInt16
  dataCrc : UInt32
  relocationCrc : UInt32
  deriving DecidableEq, Repr

namespace Contribution

def decode : Decoder Contribution := do
  let section_ ← u16
  skip 2
  let offset ← i32
  let size ← i32
  let characteristics ← u32
  let module ← u16
  skip 2
  let dataCrc ← u32
  let relocationCrc ← u32
  return { section_, offset, size, characteristics, module, dataCrc, relocationCrc }

def encode (c : Contribution) : Bytes :=
  Bytes.ofU16 c.section_ ++ [0, 0] ++ Bytes.ofU32 c.offset.toUInt32 ++ Bytes.ofU32 c.size.toUInt32
    ++ Bytes.ofU32 c.characteristics ++ Bytes.ofU16 c.module ++ [0, 0] ++ Bytes.ofU32 c.dataCrc
    ++ Bytes.ofU32 c.relocationCrc

/-- The offset lies in the piece. A distance that is no signed word is a panic. -/
def containsOffset? (c : Contribution) (offset : Int32) : Option Bool :=
  if offset < c.offset then some false
  else
    let overshoot := offset.toInt - c.offset.toInt
    if overshoot < 2 ^ 31 then some (overshoot < c.size.toInt) else none

instance contributionLocal : Local decode := by unfold decode; infer_instance

theorem decode_progress : Progress decode := u16_progress.bind fun _ => inferInstance

/-- A piece with the number of its section in the object file. -/
def decodeWithObjectSection : Decoder Contribution := do
  let c ← decode
  skip 4
  return c

theorem decodeWithObjectSection_progress : Progress decodeWithObjectSection :=
  decode_progress.bind fun _ => inferInstance

def plainVersion : Nat := 0xeffe0000 + 19970605
def objectSectionVersion : Nat := 0xeffe0000 + 20140516

/-- Reads the table of the pieces, which may be missing. -/
def parseTable (bs : Bytes) : Except Fault (List Contribution) := do
  if bs.isEmpty then return []
  let (version, entries) ← Fault.orMalformed (u32 bs)
  let (cs, left) ←
    if version.toNat = plainVersion then pure (many decode decode_progress entries)
    else if version.toNat = objectSectionVersion then
      pure (many decodeWithObjectSection decodeWithObjectSection_progress entries)
    else throw (.contributionVersion version.toNat)
  if left.isEmpty then return cs else throw (.contributionSize bs.length)

end Contribution
end Pdb
