import Pdb.Database
import Pdb.Writer.Image
import Pdb.Writer.Lines
import Pdb.Writer.Symbols
import Pdb.Writer.Types

/-! # Writing databases

A `DatabasePlan` has all that goes into a database: types and items, names, global symbols,
sections, modules with their symbols and lines, and contributions. The streams get the numbers that
are usual, and a module of the linker, without a stream, comes behind the others. -/

namespace Pdb

/-! ### The info stream -/

structure InfoPlan where
  guid : Guid
  age : UInt32
  named : List (Bytes × UInt32) := []
  deriving Repr

namespace InfoPlan

/-- What goes into the field for the time of creation. -/
def signature : UInt32 := 0x5eed5eed

/-- The offsets of names that stand one after another. -/
def nameOffsets : (offset : Nat) → List Bytes → List Nat
  | _, [] => []
  | offset, n :: ns => offset :: nameOffsets (offset + n.length + 1) ns

/-- A bit vector of words with the first `n` bits set. -/
def presentBits (n : Nat) : Bytes :=
  (List.range ((n + 31) / 32)).flatMap fun w => Bytes.leBytes 4 (2 ^ min (n - 32 * w) 32 - 1)

/-- The table of the named streams: the buffer with the names, the sizes, the two bit vectors, and a
name and a stream for each entry. The entries are counted in a word before the bits are made, so all
entries are written even where their count does not fit. -/
def table (named : List (Bytes × UInt32)) : Bytes :=
  let buffer := named.flatMap fun e => Bytes.ofText e.1
  let n := named.length % 2 ^ 32
  let slots := ((nameOffsets 0 (named.map (·.1))).zip named).flatMap fun (offset, e) =>
    Bytes.leBytes 4 offset ++ Bytes.ofU32 e.2
  Bytes.leBytes 4 buffer.length ++ buffer ++ Bytes.leBytes 4 n ++ Bytes.leBytes 4 (max n 1)
    ++ Bytes.leBytes 4 ((n + 31) / 32) ++ presentBits n ++ Bytes.leBytes 4 0 ++ slots

def encode (p : InfoPlan) : Bytes :=
  Bytes.ofU32 Info.currentVersion ++ Bytes.ofU32 signature ++ Bytes.ofU32 p.age ++ p.guid.encode
    ++ table p.named ++ Bytes.leBytes 4 0

end InfoPlan

/-! ### The names stream -/

structure NameList where
  names : List Bytes := []
  deriving Repr

namespace NameList

/-- The buffer: an empty name, and the names behind it. -/
def texts (l : NameList) : Bytes := 0 :: l.names.flatMap Bytes.ofText

def add (l : NameList) (name : Bytes) : Nat × NameList := (l.texts.length, ⟨l.names ++ [name]⟩)

/-- The bytes of the stream. Its hash table has one empty slot. -/
def encode (l : NameList) : Bytes :=
  Bytes.leBytes 4 Names.signature ++ Bytes.leBytes 4 Names.version
    ++ Bytes.leBytes 4 l.texts.length ++ l.texts ++ Bytes.leBytes 4 1 ++ Bytes.leBytes 4 0
    ++ Bytes.leBytes 4 l.names.length

end NameList

/-! ### Databases -/

/-- A module with its symbols and its lines. -/
structure PlannedModule where
  name : Bytes
  symbols : Bytes
  lines : Bytes
  deriving DecidableEq, Repr

structure DatabasePlan where
  guid : Guid
  age : UInt32 := 1
  types : TypeList := {}
  items : TypeList := {}
  names : NameList := {}
  globals : SymbolList := .globals
  sections : List Section := []
  modules : List PlannedModule := []
  contributions : List Contribution := []

namespace DatabasePlan

/-- The identifier of a database for which none is given. -/
def defaultGuid : Guid := .ofNat 0x6b3f0b8c5a1e4d2f9c770123456789ab

def new : DatabasePlan := { guid := defaultGuid }

def namesStream : Nat := 5
def globalsStream : Nat := 6
def sectionsStream : Nat := 7
def firstModuleStream : Nat := 8

/-- A section with a name of at most eight bytes. -/
def section_ (name : Bytes) (address size : UInt32) : Section where
  rawName := name.take 8 ++ Bytes.zeros (8 - name.length)
  virtualSize := size
  virtualAddress := address
  rawDataSize := 0
  rawDataStart := 0
  relocationsStart := 0
  lineNumbersStart := 0
  relocationCount := 0
  lineNumberCount := 0
  characteristics := 0

/-- A contribution of code that can be read and run. -/
def contribution (section_ : UInt16) (offset size : Int32) (module : UInt16) : Contribution where
  section_ := section_
  offset := offset
  size := size
  characteristics := 0x60000020
  module := module
  dataCrc := 0
  relocationCrc := 0

def moduleEntry (name objectFile : Bytes) (stream? : Option Nat) (symbolBytes lineBytes : Nat) :
    ModuleEntry where
  contribution := contribution 0 0 0 0
  flags := 0
  stream := .ofOption stream?
  symbolBytes := UInt32.ofNat symbolBytes
  oldLineBytes := 0
  lineBytes := UInt32.ofNat lineBytes
  fileCount := 0
  name := name
  objectFile := objectFile

def moduleEntries (p : DatabasePlan) : List ModuleEntry :=
  p.modules.zipIdx.map (fun (m, i) =>
    moduleEntry m.name m.name (some (firstModuleStream + i)) m.symbols.length m.lines.length)
  ++ [moduleEntry ModuleEntry.linkerName [] none 0 0]

/-- The streams that the optional debug header lists. -/
def optionalStreams : OptionalStreams :=
  (List.replicate 11 StreamIndex.nil).set OptionalStreams.sectionHeaders
    (.ofOption (some sectionsStream))

/-- The bytes of the debug information stream. -/
def encodeDebugInfo (p : DatabasePlan) : Bytes :=
  let modules := p.moduleEntries.flatMap ModuleEntry.encode
  let contributions := Bytes.leBytes 4 Contribution.plainVersion
    ++ p.contributions.flatMap Contribution.encode
  let optional := optionalStreams.flatMap StreamIndex.encode
  let length (bs : Bytes) : Int32 := Int32.ofNat bs.length
  let header : DebugInfoHeader := {
    signature := -1, version := 19990903, age := 1, globalIndex := .nil, buildNumber := 0
    publicIndex := .nil, toolVersion := 0, globals := .ofOption (some globalsStream), toolBuild := 0
    modulesLength := length modules, contributionsLength := length contributions
    sectionMapLength := 0, sourcesLength := 0, typeServersLength := 0, typeServer := 0
    optionalLength := length optional, editLength := 0, flags := 0, machine := 0x8664 }
  header.encode ++ modules ++ contributions ++ optional

/-- The streams from number 1 on. Only the items are scattered. -/
def streams (p : DatabasePlan) : List PlannedStream :=
  let stream (bs : Bytes) : PlannedStream := { contents? := some bs }
  let info : InfoPlan := {
    guid := p.guid, age := p.age
    named := [(Text.utf8 Database.namesStream, UInt32.ofNat namesStream)] }
  [stream info.encode, stream p.types.encode, stream p.encodeDebugInfo,
    { stream p.items.encode with isScattered := true }, stream p.names.encode,
    stream p.globals.encode, stream (p.sections.flatMap Section.encode)]
  ++ p.modules.map fun m => stream (m.symbols ++ m.lines)

def image (p : DatabasePlan) : ImagePlan :=
  p.streams.foldl ImagePlan.add (.new PageSize.smallest)

/-- The bytes of the database. There are none if it has too many pages. -/
def encode (p : DatabasePlan) : Option Bytes := p.image.encode

end DatabasePlan
end Pdb
