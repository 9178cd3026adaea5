import Pdb.LineData.Checksum
import Pdb.Names

/-! # Line tables

The line table of a compile unit has the lines of all its contributions in the order of their
addresses. Behind the lines of each contribution stands a terminal entry, which marks the end of
what is known there. -/

namespace Pdb

structure LineEntry where
  address : UInt64
  line : Nat
  /-- The position of the file in the table's list. -/
  file : Nat
  isStatement : Bool
  isTerminal : Bool
  deriving DecidableEq, Repr

structure LineTable where
  files : List Bytes
  entries : List LineEntry
  deriving DecidableEq, Repr

namespace LineTable

/-- What has been entered so far: the table, and the positions of the files by their offsets in the
checksums. -/
structure Progress where
  table : LineTable
  known : List (Nat × Nat)

/-- The position of a file in the table's list, at the end of which a new name is put. -/
def position (files : List Bytes) (name : Bytes) : List Bytes × Nat :=
  match files.idxOf? name with
  | some i => (files, i)
  | none => (files ++ [name], files.length)

/-- The position of the file of a block. -/
def fileOf (checksums : Bytes) (names : Names) (p : Progress) (offset : Nat) :
    Except Fault (Progress × Nat) :=
  match p.known.lookup offset with
  | some i => return (p, i)
  | none => do
    let file ← FileChecksum.at_ checksums offset
    let name ← names.get file.name.toNat
    let (files, i) := position p.table.files name
    return ({ table := { p.table with files }, known := p.known ++ [(offset, i)] }, i)

def entryOf (base : UInt64) (file : Nat) (l : LineRecord) : LineEntry where
  address := base + l.offset.toUInt64
  line := l.line
  file := file
  isStatement := l.isStatement
  isTerminal := false

/-- The entries of a block, without those of hidden lines. -/
def blockEntries (base : UInt64) (file : Nat) (b : LineBlock) : List LineEntry :=
  (b.lines.filter fun l => !l.isHidden).map (entryOf base file)

def addBlocks (checksums : Bytes) (names : Names) (base : UInt64) :
    Progress → List LineBlock → Except Fault (Progress × List LineEntry)
  | p, [] => return (p, [])
  | p, b :: bs => do
    let (p, file) ← fileOf checksums names p b.file.toNat
    let (p, entries) ← addBlocks checksums names base p bs
    return (p, blockEntries base file b ++ entries)

/-- The entry behind the last line of a contribution. -/
def terminal (base : UInt64) (size : UInt32) (entries : List LineEntry) : List LineEntry :=
  match entries.getLast? with
  | none => []
  | some e =>
    [{ address := base + size.toUInt64, line := e.line, file := e.file,
       isStatement := false, isTerminal := true }]

/-- Enters the lines of a contribution. One that has no address is left out. -/
def addContribution (checksums : Bytes) (names : Names) (address : UInt16 → UInt32 → Option UInt64)
    (p : Progress) (c : LineContribution) : Except Fault Progress :=
  match address c.segment c.offset with
  | none => return p
  | some base => do
    let (p, entries) ← addBlocks checksums names base p (LineBlock.list c.blocks)
    return { p with table := { p.table with
      entries := p.table.entries ++ entries ++ terminal base c.size entries } }

/-- The data of the first checksums subsection. -/
def checksums? (subsections : List Subsection) : Option Bytes :=
  (subsections.find? (·.kind = .checksums)).map (·.data)

/-- Entries in order of their addresses; at one address, terminal entries come first. -/
def sort (entries : List LineEntry) : List LineEntry :=
  entries.mergeSort fun a b =>
    a.address < b.address ∨ a.address = b.address ∧ (a.isTerminal ∨ !b.isTerminal)

def addAll (checksums : Option Bytes) (names : Names) (address : UInt16 → UInt32 → Option UInt64) :
    Progress → List Subsection → Except Fault Progress
  | p, [] => return p
  | p, s :: ss => do
    match checksums with
    | none => throw .noChecksums
    | some checksums =>
      let c ← Fault.orMalformed (LineContribution.parse? s.data)
      addAll checksums names address (← addContribution checksums names address p c) ss

/-- The line table of a module. The function gives the address of a place. -/
def build (lineData : Bytes) (names : Names) (address : UInt16 → UInt32 → Option UInt64) :
    Except Fault LineTable := do
  let subsections := Subsection.list lineData
  let p ← addAll (checksums? subsections) names address ⟨⟨[], []⟩, []⟩
    (subsections.filter (·.kind = .lines))
  return { p.table with entries := sort p.table.entries }

def fileName? (t : LineTable) (e : LineEntry) : Option Bytes := t.files[e.file]?

/-- The entry that covers an address: the last one at or below it, unless it is terminal. -/
def find? (t : LineTable) (address : UInt64) : Option LineEntry :=
  ((t.entries.takeWhile (·.address ≤ address)).getLast?).filter (!·.isTerminal)

/-- The source files of a module, each once, in the order of their checksums. -/
def supportFiles (lineData : Bytes) (names : Names) : Except Fault (List Bytes) := do
  let files := ((Subsection.list lineData).filter (·.kind = .checksums)).flatMap fun s =>
    FileChecksum.list s.data
  add [] files
where
  add (found : List Bytes) : List FileChecksum → Except Fault (List Bytes)
    | [] => return found
    | c :: cs => do
      let name ← names.get c.name.toNat
      add (position found name).1 cs

end LineTable
end Pdb
