import Pdb.DebugInfo
import Pdb.Dump.Symbol
import Pdb.Info
import Pdb.LineData.Table
import Pdb.TypeStream.Access
import Pdb.Uid

/-! # Dumps of streams

What the streams of a database hold. A fault is shown in place of what it keeps from being read. -/

namespace Pdb
open Dump

def Fault.Kind.name : Fault.Kind → String
  | .malformed => "ParserError"
  | .tooShort => "InsufficientBuffer"
  | .missingPage => "InvalidPage"
  | .other => "Error"

/-- A failure of a kind, with its message. -/
def Dump.failure (kind message : String) : Dump := .record [("error", kind), ("message", message)]

def Fault.dump (f : Fault) : Dump :=
  if f = .overflow then .record [("error", "panic")] else failure f.kind.name f.message

def Dump.orFault {α : Type} (f : α → Dump) : Except Fault α → Dump
  | .ok x => f x
  | .error e => e.dump

def Entity.dump : Entity → Dump
  | .unit m => .list ["Compiland", u16 m]
  | .unitSymbol m o => .list ["CompilandSym", u16 m, u32 o]
  | .globalSymbol o p => .list ["GlobalSym", u32 o, p]
  | .type t i => .list ["Type", index t, i]

def NamePart.dump (p : NamePart) : Dump := .list [.text p.text, p.isTemplate]

def UniqueName.dump (u : UniqueName) : Dump :=
  .record [("tag", u.tag.name), ("components", each NamePart.dump u.parts),
    ("identifier", text u.identifier.text), ("num_scopes", num u.scopes.length),
    ("any_scope_args", u.anyScopeIsTemplate), ("qualified", text u.qualified)]

/-! ### Tables of streams -/

/-- The info stream, and the streams with the given names. -/
def Info.dump (i : Info) (names : List String) : Dump :=
  .record [("version", u32 i.version), ("signature", u32 i.signature), ("age", u32 i.age),
    ("guid", i.guid.text), ("has_guid", i.guid?.isSome),
    ("streams", each (fun e => .list [shown e.1, u32 e.2]) i.sorted),
    ("get", each (fun n => orAbsent num (i.find? n)) names)]

/-- The names stream, and the names at the given offsets. -/
def Names.dump (n : Names) (offsets : List Nat) : Dump :=
  .record [("strings_size", num n.texts.length), ("num_hashes", num n.hashCount),
    ("num_strings", num n.nameCount), ("strings", bytes n.texts),
    ("get", each (fun i => orFault text (n.get i)) offsets)]

def Contribution.dump (c : Contribution) : Dump :=
  .list [u16 c.section_, i32 c.offset, i32 c.size, u32 c.characteristics, u16 c.module,
    u32 c.dataCrc, u32 c.relocationCrc]

def Section.dump (s : Section) : Dump :=
  .list [text s.name, u32 s.virtualSize, u32 s.virtualAddress, u32 s.rawDataSize,
    u32 s.rawDataStart, u16 s.relocationCount, u32 s.characteristics]

def StreamIndex.dump (i : StreamIndex) : Dump :=
  match i.get? with
  | some n => num n
  | none => failure "StreamIndexIsNil" nilMessage

def ModuleEntry.dump (m : ModuleEntry) : Dump :=
  .record [("name", text m.name), ("obj", text m.objectFile),
    ("stream", orAbsent num m.stream.get?), ("sym", u32 m.symbolBytes),
    ("c11", u32 m.oldLineBytes), ("c13", u32 m.lineBytes), ("files", u16 m.fileCount),
    ("linker", m.isLinker), ("contrib", m.contribution.dump)]

def DebugInfoHeader.dump (h : DebugInfoHeader) : Dump :=
  .record [("signature", i32 h.signature), ("version", u32 h.version), ("age", u32 h.age),
    ("gsi", orAbsent num h.globalIndex.get?), ("psi", orAbsent num h.publicIndex.get?),
    ("build", u16 h.buildNumber), ("flags", u16 h.flags), ("machine", u16 h.machine),
    ("sym_record_stream", h.globals.dump)]

/-- The streams of an optional debug header, and one position behind them. -/
def OptionalStreams.dump (s : OptionalStreams) : Dump :=
  each (fun i => orAbsent num (s.at? i)) (List.range (s.length + 1))

def DebugInfo.dump (d : DebugInfo) : Dump :=
  let (modules, left) := ModuleEntry.listWithRest d.modules
  .record [("header", orAbsent DebugInfoHeader.dump d.header?), ("age", num d.age),
    ("global_symbols", orAbsent num d.globals?), ("modules", each ModuleEntry.dump modules),
    ("modules_left", num left.length),
    ("sizes", each (fun bs : Bytes => num bs.length) [d.modules, d.contributions, d.sectionMap,
      d.sources, d.typeServers, d.edit, d.optional]),
    ("source_info", bytes d.sources),
    ("contributions", orFault (each Contribution.dump) (Contribution.parseTable d.contributions)),
    ("optional", orFault OptionalStreams.dump (OptionalStreams.parse d.optional))]

def TypeStream.dump (s : TypeStream) : Dump :=
  .record [("kind", s.kind.name), ("begin", index s.first), ("end", index s.last),
    ("num", num s.count), ("first", orAbsent index s.first?)]

/-- The pairs of a table of nested records, in order of the nested ones. -/
def Nesting.dump (n : Nesting) : Dump :=
  each (fun e => .list [index e.1, index e.2]) (n.entries.mergeSort fun a b => a.1.val ≤ b.1.val)

/-! ### Line data -/

def FileChecksum.dump (c : FileChecksum) : Dump :=
  .list [u32 c.name, c.kindName, bytes c.checksum]

def LineRecord.dump (l : LineRecord) : Dump :=
  .list [u32 l.offset, num l.line, num l.delta, l.isStatement, l.text]

/-- The lines of a contribution, block by block. -/
def LineContribution.dump (c : LineContribution) : Dump :=
  let block (b : LineBlock) : Dump :=
    .record [("file", u32 b.file), ("num_lines", u32 b.count), ("columns", c.hasColumns),
      ("data_len", num b.data.length), ("lines", each LineRecord.dump b.lines)]
  .record [("offset", u32 c.offset), ("segment", u16 c.segment), ("size", u32 c.size),
    ("columns", c.hasColumns), ("blocks", each block (LineBlock.list c.blocks))]

def Subsection.dump (s : Subsection) : Dump :=
  .list [s.kind.name, num s.data.length, match s.kind with
    | .lines => decoded LineContribution.dump (LineContribution.parse? s.data)
    | .checksums => each FileChecksum.dump (FileChecksum.list s.data)
    | _ => bytes s.data]

def LineEntry.dump (e : LineEntry) : Dump :=
  .list [u64 e.address, num e.line, num e.file, e.isStatement, e.isTerminal]

def LineTable.dump (t : LineTable) : Dump :=
  .record [("files", each text t.files), ("entries", each LineEntry.dump t.entries),
    ("empty", t.entries.isEmpty)]

end Pdb
