import Pdb.DebugInfo
import Pdb.Globals
import Pdb.Info
import Pdb.ModuleStream
import Pdb.Names
import Pdb.TypeStream

/-! # Program databases

`Database.parse` opens the streams of a program database: the info stream, the debug information,
the two type streams, the names, the global symbols and the section headers. Only the info stream
has to be there. The records of the type streams are found at the end, and there is no database if that
overflows. The streams of the modules are opened when they are asked for. -/

namespace Pdb

structure OpenOptions where
  /-- Where the image is loaded. -/
  loadAddress : UInt64 := 0
  /-- The number of bytes of an address. -/
  addressSize : UInt8 := 8
  deriving DecidableEq, Repr, Inhabited

def Container.contents (c : Container) (stream : Nat) : Except Fault Bytes := do
  let s ← (c.openStream stream).mapError .container
  (s.copy 0 s.length).mapError .stream

structure Database where
  container : Container
  options : OpenOptions
  info : Info
  debugInfo : DebugInfo
  types : TypeStream
  items : TypeStream
  names : Names
  globals : Globals
  sections : List Section
  modules : List ModuleDescriptor

namespace Database

def namesStream : String := "/names"

def openDebugInfo (c : Container) : Except Fault DebugInfo := do
  if c.isValid StreamIndex.debugInfo then
    DebugInfo.parse (← c.contents StreamIndex.debugInfo)
  else return .empty

def openTypes (c : Container) (kind : TypeStreamKind) (stream : Nat) :
    Except Fault UnscannedTypes := do
  match ← (c.openOptional stream).mapError Fault.container with
  | some s => UnscannedTypes.parse kind s
  | none => return .empty kind

def openNames (c : Container) (info : Info) : Except Fault Names := do
  match info.find? namesStream with
  | some stream => Names.parse (← c.contents stream)
  | none => return .empty

def openGlobals (c : Container) (d : DebugInfo) : Except Fault Globals := do
  match d.globals? with
  | some stream => return ⟨← (c.openOptional stream).mapError Fault.container⟩
  | none => return .empty

def openSections (c : Container) (d : DebugInfo) : Except Fault (List Section) := do
  let streams ← OptionalStreams.parse d.optional
  match (streams.at? OptionalStreams.sectionHeaders).filter c.isValid with
  | some stream => Section.parseTable (← c.contents stream)
  | none => return []

/-- The modules of the list, which are numbered with 16 bits. -/
def listModules (d : DebugInfo) : Except Fault (List ModuleDescriptor) :=
  let entries := (ModuleEntry.listWithRest d.modules).1
  if 2 ^ 16 < entries.length then throw .tooManyModules
  else return entries.zipIdx.map fun (m, i) => .ofEntry i m

def parse (image : Array UInt8) (options : OpenOptions) : Except Fault Database := do
  let container ← (Container.parse image).mapError Fault.container
  let info ← Info.parse (← container.contents StreamIndex.info)
  let debugInfo ← openDebugInfo container
  let types ← openTypes container .types StreamIndex.types
  let items ← openTypes container .items StreamIndex.items
  let names ← openNames container info
  let globals ← openGlobals container debugInfo
  let sections ← openSections container debugInfo
  let modules ← listModules debugInfo
  return {
    container, options, info, debugInfo, types := ← types.scan, items := ← items.scan, names, globals
    sections, modules }

/-- The stream of a module, if it has one. -/
def moduleStream (d : Database) (module : Nat) : Except Fault (Option ModuleStream) := do
  match d.modules[module]? with
  | none => throw (.noSuchModule module)
  | some m =>
    match m.stream? with
    | none => return none
    | some stream =>
      let s ← (d.container.openStream stream).mapError Fault.container
      some <$> ModuleStream.new m s

end Database
end Pdb
