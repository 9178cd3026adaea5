import Pdb.Fault
import Pdb.RawRecord
import Pdb.TypeRecord.Member

/-! # Type streams

A type stream has a header and framed records. Records are addressed by type index: the header has
the index of the first one, and each of the others has the next index. Records do not have their
indexes in them, so the offsets of all records are found by a scan that reads the length of each. This
happens when one of them is asked for: an `UnscannedTypes` is what the header tells. Offsets are words,
and a scan that comes to a sum which is not is given up. -/

namespace Pdb
open Decoder

/-- The header of a type stream. What follows these fields describes hash tables. -/
structure TypeStreamHeader where
  version : UInt32
  headerBytes : UInt32
  first : TypeIndex
  last : TypeIndex
  recordBytes : UInt32
  deriving DecidableEq, Repr

namespace TypeStreamHeader

def length : Nat := 56

def currentVersion : UInt32 := 20040203

def decode : Decoder TypeStreamHeader := do
  let version ← u32
  let headerBytes ← u32
  let first ← TypeIndex.decode
  let last ← TypeIndex.decode
  let recordBytes ← u32
  return { version, headerBytes, first, last, recordBytes }

def encode (h : TypeStreamHeader) : Bytes :=
  Bytes.ofU32 h.version ++ Bytes.ofU32 h.headerBytes ++ h.first.encode ++ h.last.encode
    ++ Bytes.ofU32 h.recordBytes

end TypeStreamHeader

/-! ### Records by position -/

/-- The length in the frame of the record at an offset. -/
def PagedStream.frameLength (s : PagedStream) (offset : Nat) : Except StreamFault Nat :=
  Bytes.leNat <$> s.copy offset 2

/-- The offsets of at most `limit` records between `pos` and `stop`, and the offset behind them. There
are none if a sum of offsets does not fit into a word. -/
def PagedStream.scanFrames (s : PagedStream) (stop : Nat) : (limit pos : Nat) → Option (List Nat × Nat)
  | 0, pos => some ([], pos)
  | limit + 1, pos =>
    if 2 ^ 32 ≤ pos + 4 then none
    else if stop < pos + 4 then some ([], pos)
    else match s.frameLength pos with
      | .error _ => some ([], pos)
      | .ok len =>
        if len < 2 then some ([], pos)
        else if 2 ^ 32 ≤ pos + 2 + len then none
        else if stop < pos + 2 + len then some ([], pos)
        else (s.scanFrames stop limit (pos + 2 + len)).map fun (starts, behind) =>
          (pos :: starts, behind)

/-- The record at an offset, or `none` if the bytes there are no record. -/
def PagedStream.recordAt? (s : PagedStream) (offset : Nat) :
    Except StreamFault (Option RawRecord) := do
  let len ← s.frameLength offset
  let bytes ← s.read offset (len + 2)
  return RawRecord.first? bytes

/-- The records of a type stream: where each one starts, and what it is. -/
structure RecordList where
  stream : PagedStream
  start : Nat
  stop : Nat
  limit : Nat
  starts : Array Nat
  /-- The offset at which the scan has ended. -/
  behind : Nat
  scanFrames_eq : stream.scanFrames stop limit start = some (starts.toList, behind)
  records : Array (Except StreamFault (Option RawRecord))
  records_eq : records = starts.map stream.recordAt?

/-- The records of a stream between two offsets. -/
def RecordList.scan? (stream : PagedStream) (start stop limit : Nat) : Option RecordList :=
  match h : stream.scanFrames stop limit start with
  | none => none
  | some (starts, behind) => some {
      stream, start, stop, limit, starts := starts.toArray, behind, scanFrames_eq := h
      records := starts.toArray.map stream.recordAt?, records_eq := rfl }

/-! ### Type streams -/

/-- A type stream by its header. It may be missing, or empty, and then has no range of records. -/
structure UnscannedTypes where
  kind : TypeStreamKind
  /-- The index of the first record. -/
  first : TypeIndex
  /-- The index behind that of the last record. -/
  last : TypeIndex
  /-- The stream, and where the records start and end in it. -/
  range? : Option (PagedStream × Nat × Nat)
  /-- Records have no indexes of built-in types. -/
  first_isSimple : first.isSimple = false

/-- A type stream. It may be missing, or empty, and then has no list of records. -/
structure TypeStream where
  kind : TypeStreamKind
  /-- The index of the first record. -/
  first : TypeIndex
  /-- The index behind that of the last record, by the header. -/
  last : TypeIndex
  list? : Option RecordList
  /-- Records have no indexes of built-in types. -/
  first_isSimple : first.isSimple = false

namespace UnscannedTypes

def empty (kind : TypeStreamKind) : UnscannedTypes := ⟨kind, .minBegin, .minBegin, none, rfl⟩

/-- Reads the header of a type stream. -/
def parse (kind : TypeStreamKind) (stream : PagedStream) : Except Fault UnscannedTypes := do
  if stream.length = 0 then return empty kind
  let bytes ← (stream.read 0 TypeStreamHeader.length).mapError (.typeHeader kind)
  let (h, _) ← Fault.orMalformed (TypeStreamHeader.decode bytes)
  if h.last.val < h.first.val then throw (.typeRangeReversed kind)
  if hsimple : h.first.isSimple then throw (.typeRangeTooLow h.first)
  else
    let start := h.headerBytes.toNat
    if start < TypeStreamHeader.length then throw (.typeHeaderSize kind)
    let stop := start + h.recordBytes.toNat
    if 2 ^ 32 ≤ stop then throw (.typeRecordBytes kind)
    if stream.length < stop then throw (.typeRecordsTooLong kind)
    return {
      kind, first := h.first, last := h.last, range? := some (stream, start, stop)
      first_isSimple := Bool.eq_false_iff.2 hsimple }

/-- The number of records by the header. -/
def count (u : UnscannedTypes) : Nat := u.last.toNat - u.first.toNat

/-- The stream with a list of its records, if it has any. -/
def withList (u : UnscannedTypes) (list? : Option RecordList) : TypeStream where
  kind := u.kind
  first := u.first
  last := u.last
  list? := list?
  first_isSimple := u.first_isSimple

/-- Finds the records. -/
def scan (u : UnscannedTypes) : Except Fault TypeStream :=
  match u.range? with
  | none => return u.withList none
  | some (stream, start, stop) =>
    match RecordList.scan? stream start stop u.count with
    | none => throw .overflow
    | some list => return u.withList list

end UnscannedTypes

namespace TypeStream

def empty (kind : TypeStreamKind) : TypeStream := ⟨kind, .minBegin, .minBegin, none, rfl⟩

/-- Reads the header of a type stream and finds its records. -/
def parse (kind : TypeStreamKind) (stream : PagedStream) : Except Fault TypeStream := do
  (← UnscannedTypes.parse kind stream).scan

/-- The number of records by the header. -/
def count (s : TypeStream) : Nat := s.last.toNat - s.first.toNat

/-- The index is below those of the records. -/
def isPrimitive (s : TypeStream) (ti : TypeIndex) : Bool := ti.val < s.first.val

def first? (s : TypeStream) : Option TypeIndex :=
  if s.first.val < s.last.val then some s.first else none

def next? (s : TypeStream) (ti : TypeIndex) : Option TypeIndex :=
  let n := ti.toNat + 1
  if s.first.toNat ≤ n ∧ n < s.last.toNat then some (.ofNat n) else none

def starts (s : TypeStream) : List Nat := (s.list?.map (·.starts.toList)).getD []

/-- The number of records that are there. -/
def size (s : TypeStream) : Nat := (s.list?.map (·.starts.size)).getD 0

/-- The indexes of the records that are there. -/
def indexes (s : TypeStream) : List TypeIndex :=
  (List.range s.size).map fun i => .ofNat (s.first.toNat + i)

def record (s : TypeStream) (ti : TypeIndex) : Except Fault RawRecord :=
  if s.isPrimitive ti then throw .primitiveType
  else match s.list? with
    | none => throw (.noTypeStream s.kind ti)
    | some list =>
      match list.records[ti.toNat - s.first.toNat]? with
      | none => throw (.typeOutOfBounds ti)
      | some (.error e) => throw (.stream e)
      | some (.ok none) => throw (.typeUndecodable ti)
      | some (.ok (some r)) => return r

def type (s : TypeStream) (ti : TypeIndex) : Except Fault TypeRecord := do
  let r ← s.record ti
  match r.type? with
  | some t => return t
  | none => throw (.typeMalformed r.leaf ti)

/-- The decoded record with an index, if it can be read. -/
def type? (s : TypeStream) (ti : TypeIndex) : Option TypeRecord := (s.type ti).toOption

/-- The kind of the record with an index. -/
def leaf? (s : TypeStream) (ti : TypeIndex) : Option Leaf := (s.record ti).toOption.map (·.leaf)

end TypeStream
end Pdb
