import Pdb.Dump.TypeSystem
import Pdb.SymbolFile
import Pdb.Text.Quoted

/-! # Dumps of symbol files

The answers of a symbol file: types, compile units, functions, variables and contexts. -/

namespace Pdb
open Dump

def TypeObject.dump (t : TypeObject) : Dump :=
  .record [("uid", u64 t.uid), ("name", shown t.name), ("size", wideNum t.size),
    ("encoding", orAbsent (fun ti : TypeIndex => u64 ti.uid) t.element?), ("state", t.state.name),
    ("ct", num t.handle)]

def TypeObject.text (t : TypeObject) : String :=
  let fields := [s!"uid: {(Entity.type t.index false).text}", s!"name: {Text.quoted t.name}",
    s!"byte_size: {t.size}", s!"resolve_state: {t.state.name}", s!"compiler_type: {t.handle}"]
  "Type \x7b " ++ Text.join ", " fields ++ " \x7d"

def CompileUnit.dump (u : CompileUnit) : Dump :=
  .record [("uid", u64 u.uid), ("modi", u16 u.module), ("name", text u.name),
    ("main_file", text u.mainFile), ("language", u.language.name), ("optimized", u.isOptimized)]

/-- A function. The type of its signature is never given. -/
def Function.dump (f : Function) : Dump :=
  .record [("uid", u64 f.uid), ("name", text f.name), ("compile_unit", u64 f.unitUid),
    ("start", u64 f.start), ("end", u64 f.stop), ("signature", u64 TypeIndex.none.uid),
    ("proc_type", index f.type)]

/-- A location; its bytes are shown in full by the given function. -/
def VariableLocation.dump (full : Bytes → Dump) : VariableLocation → Dump
  | .expression code => .list ["expression", full code]
  | .constant value => .list ["constant", full value]

def Variable.dump (full : Bytes → Dump) (v : Variable) : Dump :=
  .record [("uid", u64 v.uid), ("name", text v.name), ("qualified", shown v.qualifiedName),
    ("type", u64 v.type.uid), ("scope", v.scope.name), ("external", v.isExternal),
    ("compile_unit", orAbsent (fun m => u64 (Entity.unit m).uid) v.module?),
    ("location", v.location.dump full), ("is_constant", v.location.isConstant)]

def SymbolContext.dump (c : SymbolContext) : Dump :=
  .record [("compile_unit", orAbsent CompileUnit.dump c.compileUnit?),
    ("function", orAbsent Function.dump c.function?), ("line", orAbsent LineEntry.dump c.line?),
    ("file", orAbsent text c.file?)]

def ModuleDescriptor.dump (m : ModuleDescriptor) : Dump :=
  .list [num m.index, text m.name, text m.objectFile, orAbsent num m.stream?]

/-- The parts of a database, in numbers. -/
def Database.dump (d : Database) : Dump :=
  .record [("guid", d.info.guid.text), ("age", u32 d.info.age), ("units", num d.unitCount),
    ("modules", each ModuleDescriptor.dump d.modules), ("sections", num d.sections.length),
    ("types", num d.types.count), ("items", num d.items.count),
    ("names", num d.names.nameCount), ("dbi_age", num d.debugInfo.age)]

end Pdb
