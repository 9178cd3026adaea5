import Pdb.Fault
import Pdb.StreamIndex

/-! # Sections of the executable

The optional debug header lists streams by purpose. One of them has the headers of the sections of
the executable, which say where each section is loaded. -/

namespace Pdb
open Decoder

structure Section where
  rawName : Bytes
  virtualSize : UInt32
  virtualAddress : UInt32
  rawDataSize : UInt32
  rawDataStart : UInt32
  relocationsStart : UInt32
  lineNumbersStart : UInt32
  relocationCount : UInt16
  lineNumberCount : UInt16
  characteristics : UInt32
  deriving DecidableEq, Repr

namespace Section

def decode : Decoder Section := do
  let rawName ← take 8
  let virtualSize ← u32
  let virtualAddress ← u32
  let rawDataSize ← u32
  let rawDataStart ← u32
  let relocationsStart ← u32
  let lineNumbersStart ← u32
  let relocationCount ← u16
  let lineNumberCount ← u16
  let characteristics ← u32
  return {
    rawName, virtualSize, virtualAddress, rawDataSize, rawDataStart, relocationsStart,
    lineNumbersStart, relocationCount, lineNumberCount, characteristics }

def encode (s : Section) : Bytes :=
  s.rawName ++ Bytes.ofU32 s.virtualSize ++ Bytes.ofU32 s.virtualAddress
    ++ Bytes.ofU32 s.rawDataSize ++ Bytes.ofU32 s.rawDataStart ++ Bytes.ofU32 s.relocationsStart
    ++ Bytes.ofU32 s.lineNumbersStart ++ Bytes.ofU16 s.relocationCount
    ++ Bytes.ofU16 s.lineNumberCount ++ Bytes.ofU32 s.characteristics

def name (s : Section) : Bytes := s.rawName.takeWhile (· != 0)

theorem decode_progress : Progress decode :=
  (take_progress (by decide)).bind fun _ => inferInstance

/-- Reads the section headers of an executable. -/
def parseTable (bs : Bytes) : Except Fault (List Section) :=
  let (sections, left) := many decode decode_progress bs
  if left.isEmpty then return sections else throw (.sectionHeaderSize bs.length)

end Section

/-! ### The optional debug header -/

/-- The streams that the optional debug header lists, by position. -/
abbrev OptionalStreams := List StreamIndex

namespace OptionalStreams

/-- The position of the stream of section headers. -/
def sectionHeaders : Nat := 5

theorem streamIndex_progress : Progress StreamIndex.decode := u16_progress.map _

def parse (bs : Bytes) : Except Fault OptionalStreams :=
  let (streams, left) := many StreamIndex.decode streamIndex_progress bs
  if left.isEmpty then return streams else throw (.optionalHeaderSize bs.length)

def at? (s : OptionalStreams) (i : Nat) : Option Nat := s[i]?.bind StreamIndex.get?

end OptionalStreams
end Pdb
