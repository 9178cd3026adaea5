import Pdb.LineData.Checksum

/-! # Writing line data

A `LineList` has the source files and the lines of a module that are to be written. Files come first
and are referred to by the offset of their checksum. -/

namespace Pdb

/-- The lines of a file: offsets of instructions, each with its line. -/
structure FileLines where
  file : UInt32
  lines : List (UInt32 × UInt32)
  deriving DecidableEq, Repr

namespace FileLines

/-- A line whose instruction starts a statement. -/
def record (l : UInt32 × UInt32) : LineRecord := ⟨l.1, l.2 ||| 0x80000000⟩

def block (f : FileLines) : LineBlock :=
  ⟨f.file, UInt32.ofNat f.lines.length, f.lines.flatMap fun l => (record l).encode⟩

end FileLines

/-- The files and the lines of a module. -/
structure LineList where
  checksums : List FileChecksum := []
  contributions : List LineContribution := []
  deriving Repr

namespace LineList

def checksumBytes (l : LineList) : Bytes := l.checksums.flatMap FileChecksum.encode

/-- Adds a file without a checksum. Its name is an offset in the names stream. -/
def addFile (l : LineList) (name : UInt32) : Nat × LineList :=
  (l.checksumBytes.length, { l with checksums := l.checksums ++ [⟨name, 0, []⟩] })

def addLines (l : LineList) (segment : UInt16) (offset size : UInt32) (files : List FileLines) :
    LineList :=
  let blocks := files.flatMap fun f => f.block.encode
  { l with contributions := l.contributions ++ [{ offset, segment, flags := 0, size, blocks }] }

/-- The subsections: the files, if there are any, and the lines of each contribution. -/
def subsections (l : LineList) : List Subsection :=
  (if l.checksums.isEmpty then [] else [⟨.checksums, l.checksumBytes⟩])
    ++ l.contributions.map fun c => ⟨.lines, c.encode⟩

def encode (l : LineList) : Bytes := l.subsections.flatMap Subsection.encode

end LineList
end Pdb
