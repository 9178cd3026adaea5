import Pdb.Fault

/-! # Framed records

Type records and symbol records are framed alike: a 16-bit length, which counts the kind and the
payload, a 16-bit kind, and the payload. `walk` reads records one after another until it meets bytes
that do not start with a whole record. A `RecordCursor` takes them off one by one, each with its offset,
and panics where the offset is no word. -/

namespace Pdb
open Decoder

/-- A record whose payload has not been decoded. -/
structure RawRecord where
  kind : UInt16
  data : Bytes
  deriving DecidableEq, Repr, Inhabited

namespace RawRecord

/-- What follows the length of a record. -/
def body (len : Nat) : Decoder RawRecord :=
  if len < 2 then fail else do
    let kind ← u16
    let data ← take (len - 2)
    return { kind, data }

def decode : Decoder RawRecord := u16 >>= fun len => body len.toNat

instance bodyLocal (len : Nat) : Local (body len) := iteLocal _ _ _

theorem decode_progress : Progress decode := u16_progress.bind fun _ => inferInstance

instance rawRecordLocal : Local decode := bindLocal _ _

/-- The records at the front of a buffer, and the bytes behind the last whole one. -/
def walk (bs : Bytes) : List RawRecord × Bytes := many decode decode_progress bs

/-- The record at the front of a buffer. -/
def first? (bs : Bytes) : Option RawRecord := (decode bs).map (·.1)

/-- The length of a record with its frame. -/
def size (r : RawRecord) : Nat := r.data.length + 4

/-- The records of a list with their offsets, the first being at `base`. This is for records of a stream,
in which all offsets are words. -/
def withOffsets (base : UInt32) : List RawRecord → List (UInt32 × RawRecord)
  | [] => []
  | r :: rs => (base, r) :: withOffsets (base + UInt32.ofNat r.size) rs

def encode (r : RawRecord) : Bytes :=
  Bytes.ofU16 (UInt16.ofNat (r.data.length + 2)) ++ Bytes.ofU16 r.kind ++ r.data

/-- Takes the record at the front off. Where there is none, all bytes are left. -/
def next (bs : Bytes) : Option RawRecord × Bytes :=
  match decode bs with
  | none => (none, bs)
  | some (r, rest) => (some r, rest)

end RawRecord

/-- An iteration over a buffer of `length` bytes, whose first record has the offset `base`; `rest` is
what has not been taken yet. -/
structure RecordCursor where
  base : UInt32
  length : Nat
  rest : Bytes

namespace RecordCursor

def start (base : UInt32) (bs : Bytes) : RecordCursor := ⟨base, bs.length, bs⟩

/-- The number of bytes that have been taken is cut off to a word before the base is added. -/
def offset (c : RecordCursor) : Except Fault UInt32 :=
  let taken := c.length - c.rest.length
  if c.base.toNat + taken % 2 ^ 32 < 2 ^ 32 then .ok (c.base + UInt32.ofNat taken) else .error .overflow

/-- One call, with its answer. The offset is added up before a record is looked for. -/
def next (c : RecordCursor) : Except Fault (Option (UInt32 × RawRecord)) × RecordCursor :=
  match c.offset with
  | .error e => (.error e, c)
  | .ok offset =>
    let (r?, rest) := RawRecord.next c.rest
    (.ok (r?.map (offset, ·)), { c with rest })

/-- What calls answer until there are no more records. -/
def all (c : RecordCursor) : Except Fault (List (UInt32 × RawRecord)) :=
  match c.offset with
  | .error e => .error e
  | .ok offset =>
    match _h : RawRecord.decode c.rest with
    | none => .ok []
    | some (r, rest) => (all { c with rest }).map ((offset, r) :: ·)
termination_by c.rest.length
decreasing_by exact RawRecord.decode_progress _ _ _ ‹_›

end RecordCursor
end Pdb
