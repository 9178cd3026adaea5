import Pdb.Dump.TypeRecord
import Pdb.Symbol

/-! # Dumps of symbols

Places are shown as texts, and flags by their names. -/

namespace Pdb
open Dump

def ToolVersion.dump (v : ToolVersion) : Dump :=
  .list [u16 v.major, u16 v.minor, u16 v.build, u16 v.qfe]

def Symbol.dumpVariable (s : String) (t : TypeIndex) (a : SectionOffset) (n : Bytes) : Dump :=
  .record [("s", s), ("type", index t), ("offset", u32 a.offset), ("segment", u16 a.segment),
    ("name", text n), ("debug", shown (Symbol.variableText t a n))]

def Symbol.dump : Symbol → Dump
  | .unknown => .record [("s", "Unknown")]
  | .end_ => .record [("s", "End")]
  | .objectName g n => .record [("s", "ObjName"), ("signature", u32 g), ("name", text n)]
  | .compile c => .record [("s", "Compile3"), ("language", num c.language),
      ("flags", labels c.setFlags), ("optimized", c.isOptimized), ("machine", u16 c.machine),
      ("frontend", c.frontend.dump), ("ver", c.version.dump), ("name", text c.name)]
  | .proc p => .record [("s", "Proc"), ("parent", u32 p.parent), ("end", u32 p.end_),
      ("next", u32 p.next), ("len", u32 p.length), ("debug_start", u32 p.debugStart),
      ("debug_end", u32 p.debugEnd), ("type", index p.type), ("addr", p.address.text),
      ("flags", labels p.setFlags), ("name", text p.name)]
  | .udt t n => .record [("s", "Udt"), ("type", index t), ("name", text n)]
  | .constant t v n => .record [("s", "Constant"), ("type", index t), ("value", number v),
      ("name", text n)]
  | .reference c o m n => .record [("s", "RefSym2"), ("checksum", u32 c), ("offset", u32 o),
      ("module", u16 m), ("name", text n)]
  | .data t a n => Symbol.dumpVariable "Data" t a n
  | .threadData t a n => Symbol.dumpVariable "ThreadData" t a n
  | .public_ f a n => .record [("s", "Pub"), ("flags", u32 f), ("addr", a.text), ("name", text n)]
  | .buildInfo i => .record [("s", "BuildInfo"), ("item", u32 i)]

/-- The kind and the length of a record. -/
def RawRecord.dumpHead (r : RawRecord) : List Dump := [r.symbolKind.name, num r.data.length]

def RawRecord.dumpSymbol (r : RawRecord) : Dump :=
  .list (r.dumpHead ++ [decoded Symbol.dump r.symbol?])

def RawRecord.dumpSymbolAt (r : UInt32 × RawRecord) : Dump :=
  .list (u32 r.1 :: r.2.dumpHead ++ [decoded Symbol.dump r.2.symbol?])

/-- The offsets and the kinds of symbol records. -/
def RawRecord.dumpKinds (rs : List (UInt32 × RawRecord)) : Dump :=
  each (fun r => .list [u32 r.1, r.2.symbolKind.name]) rs

end Pdb
