import Pdb.Decoder
import Pdb.Text

/-! # Line data

The line data of a module is a sequence of subsections. A lines subsection maps the instructions of
one contribution to lines of source files, in blocks of one file each; the checksums subsection
lists the files. -/

namespace Pdb
open Decoder

namespace Decoder

/-- Passes over padding of `n` bytes if all of it is there. -/
def padding (n : Nat) : Decoder Unit := fun bs =>
  some ((), if (bs.take n).length = n then bs.drop n else bs)

/-- A decoder with padding behind what it reads. -/
theorem Progress.bindPadding {α : Type} {d : Decoder α} (hd : Progress d) (f : α → Nat) :
    Progress (d >>= fun x => padding (f x) >>= fun _ => pure x) := by
  intro bs y r h
  obtain ⟨⟨x, m⟩, h₁, h₂⟩ := Option.bind_eq_some_iff.mp h
  cases h₂
  have := hd _ _ _ h₁
  split
  · exact Nat.lt_of_le_of_lt (List.drop_sublist _ _).length_le this
  · exact this

end Decoder

structure SubsectionKind where
  code : UInt32
  deriving DecidableEq, Repr, Inhabited

namespace SubsectionKind

@[match_pattern] abbrev lines : SubsectionKind := ⟨0xf2⟩
@[match_pattern] abbrev checksums : SubsectionKind := ⟨0xf4⟩

/-- The names of the known kinds, from `0xf1` on. -/
def names : List String :=
  ["SYMBOLS", "LINES", "STRING_TABLE", "FILE_CHECKSUMS", "FRAMEDATA", "INLINEELINES",
    "CROSSSCOPEIMPORTS", "CROSSSCOPEEXPORTS"]

def name (k : SubsectionKind) : String :=
  if k.code.toNat < 0xf1 then s!"??(0x{Text.hex 1 k.code.toNat})"
  else names.getD (k.code.toNat - 0xf1) s!"??(0x{Text.hex 1 k.code.toNat})"

end SubsectionKind

structure Subsection where
  kind : SubsectionKind
  data : Bytes
  deriving DecidableEq, Repr

namespace Subsection

/-- Reads a subsection without the padding behind it. -/
def decodeBody : Decoder Subsection := do
  let kind ← u32
  let size ← u32
  let data ← take size.toNat
  return { kind := ⟨kind⟩, data }

/-- Reads a subsection and the padding up to a multiple of four. -/
def decode : Decoder Subsection :=
  decodeBody >>= fun s => padding (Bytes.padTo4 s.data.length) >>= fun _ => pure s

theorem decode_progress : Progress decode :=
  Progress.bindPadding (u32_progress.bind fun _ => inferInstance) _

/-- The subsections of line data, and the bytes behind the last whole one. -/
def listWithRest (bs : Bytes) : List Subsection × Bytes := many decode decode_progress bs

def list (bs : Bytes) : List Subsection := (listWithRest bs).1

def encode (s : Subsection) : Bytes :=
  Bytes.ofU32 s.kind.code ++ Bytes.ofU32 (UInt32.ofNat s.data.length) ++ s.data
    ++ Bytes.zeros (Bytes.padTo4 s.data.length)

end Subsection

/-! ### Lines -/

/-- A line of a source file, and the first instruction that belongs to it. -/
structure LineRecord where
  offset : UInt32
  bits : UInt32
  deriving DecidableEq, Repr

namespace LineRecord

def decode : Decoder LineRecord := do
  let offset ← u32
  let bits ← u32
  return { offset, bits }

def encode (l : LineRecord) : Bytes := Bytes.ofU32 l.offset ++ Bytes.ofU32 l.bits

/-- The number of the line, counted from 1. -/
def line (l : LineRecord) : Nat := l.bits.toNat % 2 ^ 24
/-- How many lines follow that belong to it. -/
def delta (l : LineRecord) : Nat := l.bits.toNat / 2 ^ 24 % 2 ^ 7
def isStatement (l : LineRecord) : Bool := l.bits.toNat.testBit 31

/-- The record is for code that is not to be stepped into, or that has no source. -/
def isHidden (l : LineRecord) : Bool := l.line = 0xf00f00 ∨ l.line = 0xfeefee

def text (l : LineRecord) : String :=
  s!"+{l.offset} L{l.line}" ++ (if l.delta = 0 then "" else s!"..+{l.delta}")
    ++ (if l.isStatement then " S" else "")

end LineRecord

/-- The lines of a contribution that are in one file. The file is an offset in the checksums. -/
structure LineBlock where
  file : UInt32
  count : UInt32
  data : Bytes
  deriving DecidableEq, Repr

namespace LineBlock

/-- The length of what stands in front of the lines. -/
def headerLength : Nat := 12

def decode : Decoder LineBlock := do
  let file ← u32
  let count ← u32
  let size ← u32
  if size.toNat < headerLength then fail else do
    let data ← take (size.toNat - headerLength)
    return { file, count, data }

theorem decode_progress : Progress decode := u32_progress.bind fun _ => inferInstance

def list (bs : Bytes) : List LineBlock := (many decode decode_progress bs).1

def firstLines : Nat → Decoder (List LineRecord)
  | 0 => pure []
  | n + 1 => do
    let l ← LineRecord.decode
    let ls ← firstLines n
    return l :: ls

/-- The lines of a block; there are none if the block is too short for them. -/
def lines (b : LineBlock) : List LineRecord :=
  if b.data.length < 8 * b.count.toNat then []
  else ((firstLines b.count.toNat b.data).map (·.1)).getD []

def encode (b : LineBlock) : Bytes :=
  Bytes.ofU32 b.file ++ Bytes.ofU32 b.count
    ++ Bytes.ofU32 (UInt32.ofNat (headerLength + b.data.length)) ++ b.data

end LineBlock

/-- What a lines subsection says about one contribution. -/
structure LineContribution where
  offset : UInt32
  segment : UInt16
  flags : UInt16
  size : UInt32
  blocks : Bytes
  deriving DecidableEq, Repr

namespace LineContribution

def decode : Decoder LineContribution := do
  let offset ← u32
  let segment ← u16
  let flags ← u16
  let size ← u32
  let blocks ← rest
  return { offset, segment, flags, size, blocks }

/-- Reads the data of a lines subsection. -/
def parse? (bs : Bytes) : Option LineContribution := (decode bs).map (·.1)

/-- The blocks have column numbers behind their lines. -/
def hasColumns (c : LineContribution) : Bool := c.flags.toNat.testBit 0

def encode (c : LineContribution) : Bytes :=
  Bytes.ofU32 c.offset ++ Bytes.ofU16 c.segment ++ Bytes.ofU16 c.flags ++ Bytes.ofU32 c.size
    ++ c.blocks

end LineContribution
end Pdb
