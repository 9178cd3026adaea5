import Pdb.Fault
import Pdb.Guid

/-! # The info stream

The first stream of a database has the identifier and the age that tie the database to its
executable, and a table of the streams that are found by name. The names lie one after another in a
buffer, and the table has the offset of each in it. -/

namespace Pdb
open Decoder

structure Info where
  version : UInt32
  signature : UInt32
  age : UInt32
  /-- Missing in databases of old versions. -/
  guid? : Option Guid
  /-- The streams with names, in the order of the table, each name once. -/
  named : List (String × UInt32)
  deriving Repr

namespace Info

/-- The last version without an identifier. -/
def lastWithoutGuid : UInt32 := 19990604

/-- The version of the databases that this library writes. -/
def currentVersion : UInt32 := 20000404

def bitCount (bs : Bytes) : Nat :=
  (bs.flatMap fun b => (List.range 8).filter b.toNat.testBit).length

/-- The name at an offset of the buffer. -/
def nameAt (buffer : Bytes) (offset : Nat) : Option String :=
  ((skip offset >>= fun _ => text) buffer).map fun r => Text.lossy r.1

/-- Adds a stream unless its name is taken. -/
def addNamed (named : List (String × UInt32)) (entry : String × UInt32) : List (String × UInt32) :=
  if named.any (·.1 == entry.1) then named else named ++ [entry]

/-- The parts of the table of named streams: the buffer, the number of names, and the number of
slots that the bit vector marks as used. -/
def decodeTableHead : Decoder (Bytes × Nat × Nat) := do
  let size ← u32
  let buffer ← take size.toNat
  let count ← u32
  skip 4
  let words ← u32
  let present ← take (words.toNat * 4)
  let words ← u32
  skip (words.toNat * 4)
  return (buffer, count.toNat, bitCount present)

def decodeNamed (bs : Bytes) : Except Fault (List (String × UInt32)) := do
  let ((buffer, count, present), bs) ← Fault.orMalformed (decodeTableHead bs)
  if present ≠ count then throw (.namedStreamCount count present)
  let (slots, bs) ← Fault.orMalformed (u32s (2 * count) bs)
  let named ← Fault.orMalformed (addSlots buffer [] slots)
  let _ ← Fault.orMalformed (u32 bs)
  return named
where
  addSlots (buffer : Bytes) (named : List (String × UInt32)) :
      List UInt32 → Option (List (String × UInt32))
    | offset :: stream :: slots => do
      addSlots buffer (addNamed named (← nameAt buffer offset.toNat, stream)) slots
    | _ => some named

def decodeHeader : Decoder (UInt32 × UInt32 × UInt32 × Option Guid) := do
  let version ← u32
  let signature ← u32
  let age ← u32
  let guid? ← if lastWithoutGuid < version then some <$> Guid.decode else pure none
  return (version, signature, age, guid?)

def parse (bs : Bytes) : Except Fault Info := do
  let ((version, signature, age, guid?), bs) ← Fault.orMalformed (decodeHeader bs)
  let named ← decodeNamed bs
  return { version, signature, age, guid?, named }

def guid (i : Info) : Guid := i.guid?.getD .nil

def find? (i : Info) (name : String) : Option Nat := (i.named.lookup name).map (·.toNat)

/-- The named streams in the order of the bytes of their names. -/
def sorted (i : Info) : List (String × UInt32) := i.named.mergeSort fun a b => a.1 ≤ b.1

end Info
end Pdb
