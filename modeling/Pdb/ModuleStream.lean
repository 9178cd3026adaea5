import Pdb.DebugInfo.Module
import Pdb.Symbol

/-! # Module streams

The stream of a module begins with a signature and its symbols. Line data in an old form may follow,
and then the line data. The list of modules has the lengths of the three parts. Symbols are referred
to by their offset in the stream. -/

namespace Pdb

/-- What the list of modules says about a module. -/
structure ModuleDescriptor where
  index : Nat
  name : Bytes
  objectFile : Bytes
  stream? : Option Nat
  symbolBytes : Nat
  oldLineBytes : Nat
  lineBytes : Nat
  deriving DecidableEq, Repr, Inhabited

/-- The description of the module at a position of the list. -/
def ModuleDescriptor.ofEntry (index : Nat) (m : ModuleEntry) : ModuleDescriptor where
  index := index
  name := m.name
  objectFile := m.objectFile
  stream? := m.stream.get?
  symbolBytes := m.symbolBytes.toNat
  oldLineBytes := m.oldLineBytes.toNat
  lineBytes := m.lineBytes.toNat

/-- The stream of a module, with the lengths of its parts. -/
structure ModuleStream where
  stream : PagedStream
  symbolBytes : Nat
  oldLineBytes : Nat
  lineBytes : Nat
  fits : symbolBytes + oldLineBytes + lineBytes ≤ stream.length

namespace ModuleStream

/-- The length of the signature. -/
def signatureLength : Nat := 4

/-- The stream of a module, which has to be long enough for its parts. -/
def new (m : ModuleDescriptor) (stream : PagedStream) : Except Fault ModuleStream := do
  if h : m.symbolBytes + m.oldLineBytes + m.lineBytes ≤ stream.length then
    if signatureLength ≤ m.symbolBytes then
      let _ ← (stream.copy 0 signatureLength).mapError Fault.stream
    return ⟨stream, m.symbolBytes, m.oldLineBytes, m.lineBytes, h⟩
  else
    throw (.moduleSizes m.index (m.symbolBytes + m.oldLineBytes + m.lineBytes) stream.length)

def symbolData (m : ModuleStream) : Except Fault Bytes :=
  if m.symbolBytes < signatureLength then return []
  else (m.stream.read signatureLength (m.symbolBytes - signatureLength)).mapError .stream

/-- The symbol records with their offsets. -/
def records (m : ModuleStream) : Except Fault (List (UInt32 × RawRecord)) := do
  return RawRecord.withOffsets 4 (RawRecord.walk (← m.symbolData)).1

def recordAt (m : ModuleStream) (offset : Nat) : Except Fault RawRecord := do
  let bytes ← m.symbolData
  if offset < signatureLength ∨ bytes.length < offset - signatureLength then
    throw (.symbolOutOfRange offset)
  match RawRecord.first? (bytes.drop (offset - signatureLength)) with
  | some r => return r
  | none => throw (.symbolUndecodable offset)

def lineData (m : ModuleStream) : Except Fault Bytes :=
  (m.stream.read (m.symbolBytes + m.oldLineBytes) m.lineBytes).mapError .stream

end ModuleStream
end Pdb
