import Pdb.Fault

/-! # The names stream

File names and other texts stand one after another in a buffer and are referred to by their offset
in it. A hash table follows, which is not needed to find a name by its offset. -/

namespace Pdb
open Decoder

structure Names where
  texts : Bytes
  hashCount : Nat
  nameCount : Nat
  deriving DecidableEq, Repr, Inhabited

namespace Names

def signature : Nat := 0xeffeeffe
def version : Nat := 1

/-- The names of a database that has none: the empty text at offset 0. -/
def empty : Names := { texts := [0, 0, 0, 0], hashCount := 1, nameCount := 0 }

def decodeHeader : Decoder (Nat × Nat × Nat) := do
  let signature ← u32
  let version ← u32
  let size ← u32
  return (signature.toNat, version.toNat, size.toNat)

def decodeBody (size : Nat) : Decoder Names := do
  let texts ← take size
  let hashCount ← u32
  skip (4 * hashCount.toNat)
  let nameCount ← u32
  return { texts, hashCount := hashCount.toNat, nameCount := nameCount.toNat }

def parse (bs : Bytes) : Except Fault Names := do
  let ((sig, ver, size), bs) ← Fault.orMalformed (decodeHeader bs)
  if sig ≠ signature then throw (.namesSignature sig)
  if ver ≠ version then throw (.namesVersion ver)
  let (names, _) ← Fault.orMalformed (decodeBody size bs)
  return names

def get (n : Names) (offset : Nat) : Except Fault Bytes :=
  if offset ≤ n.texts.length then
    (Fault.orMalformed (text (n.texts.drop offset))).map (·.1)
  else throw (.nameOffset offset)

end Names
end Pdb
