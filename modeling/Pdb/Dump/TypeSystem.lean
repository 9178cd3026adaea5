import Pdb.Dump.Streams
import Pdb.TypeSystem.Model
import Pdb.TypeSystem.Recorder

/-! # Dumps of type systems

The calls that a type system has recorded, and the contents of a model. -/

namespace Pdb
open Dump

def DeclContext.label : DeclContext → String
  | .translationUnit => "tu"
  | .namespace_ n => s!"ns{n}"
  | .tag d => s!"tag{d}"

def MethodTraits.dump (t : MethodTraits) : Dump :=
  .list [t.isVirtual, t.isStatic, t.isPure, t.isArtificial]

/-- Fields with their bit offsets, and bases with their byte offsets. -/
def RecordLayout.dump (l : RecordLayout) : List Dump :=
  [wideNum l.size, each (fun f => .list [shown f.1, wideNum f.2]) l.fields,
    each (fun b => .list [u64 b.1, wideNum b.2]) l.bases]

/-- A type that is made from others; the calls have the handle of the new type behind it. -/
def DerivedType.dump : DerivedType → List Dump
  | .pointer pointee kind => ["pointer", num pointee, kind.name]
  | .qualified type q => ["qualifiers", num type, num q.bits]
  | .memberPointer class_ pointee => ["member_pointer", num class_, num pointee]
  | .array element count => ["array", num element, wideNum count]
  | .function result args isVariadic convention =>
    ["function", num result, each num args, isVariadic, convention.name]

def Declaration.dump : Declaration → List Dump
  | .record context access name kind uid inheritance =>
    ["record", context.label, access.name, shown name, kind.name, u64 uid, inheritance.name]
  | .enum context name underlying isScoped =>
    ["enum", context.label, shown name, num underlying, isScoped]

def TagChange.dump (type : TypeHandle) : TagChange → List Dump
  | .start => ["start", num type]
  | .external b => ["external", num type, b]
  | .field name member access bitWidth =>
    ["field", num type, shown name, num member, access.name, orAbsent num bitWidth]
  | .base class_ access isVirtual => ["base", num type, num class_, access.name, isVirtual]
  | .staticMember name member access =>
    ["static", num type, shown name, num member, access.name]
  | .method name function access traits =>
    ["method", num type, shown name, num function, access.name, traits.dump]
  | .enumerator name value => ["enumerator", num type, shown name, .wide value]
  | .nested name member => ["nested", num type, shown name, num member]
  | .complete layout => (.label "complete") :: num type :: layout.dump

def TypeCall.dump : TypeCall → Dump
  | .namespace_ name parent result =>
    .list ["namespace", shown name, parent.label, result.label]
  | .basic type result => .list ["basic", type.name, orAbsent num result]
  | .derived type result => .list (type.dump ++ [num result])
  | .declared decl result tag =>
    .list (decl.dump ++ [num result, (DeclContext.tag tag).label])
  | .changed type change => .list (change.dump type)

/-! ### The model -/

def ModelType.dump : ModelType → Dump
  | .basic type => .list ["basic", type.name]
  | .derived (.qualified type q) => .list ["qualified", num type, num q.bits]
  | .derived type => .list type.dump
  | .tag d => .list ["tag", num d]

def ModelField.dump (f : ModelField) : Dump :=
  .list [shown f.name, num f.type, f.access.name, orAbsent num f.bitWidth]

def ModelBase.dump (b : ModelBase) : Dump := .list [num b.type, b.access.name, b.isVirtual]

def ModelMethod.dump (m : ModelMethod) : Dump :=
  .list [shown m.name, num m.type, m.access.name, m.traits.dump]

/-- How a tag type was declared. An enumeration counts as public. -/
def Declaration.dumpFields (context : String) : Declaration → List (String × Dump)
  | .record _ access name kind _ inheritance =>
    [("name", shown name), ("context", shown context), ("kind", kind.name), ("access", access.name),
      ("inheritance", inheritance.name), ("underlying", absent), ("scoped", false)]
  | .enum _ name underlying isScoped =>
    [("name", shown name), ("context", shown context), ("kind", absent),
      ("access", Visibility.public_.name), ("inheritance", absent), ("underlying", num underlying),
      ("scoped", isScoped)]

namespace TypeModel

def dumpTag (m : TypeModel) (t : ModelTag) : Dump :=
  let members : List (String × Dump) :=
    [("started", t.started), ("external", t.isExternal), ("completed", num t.completions),
      ("fields", each ModelField.dump t.fields), ("statics", each ModelField.dump t.statics),
      ("bases", each ModelBase.dump t.bases), ("methods", each ModelMethod.dump t.methods),
      ("enumerators", each (fun e => .list [shown e.1, .wide e.2]) t.enumerators),
      ("nested", each (fun n => .list [shown n.1, num n.2]) t.nested),
      ("layout", orAbsent (fun l : RecordLayout => .list l.dump) t.layout)]
  .record (t.decl.dumpFields (m.contextPath t.decl.context) ++ members)

def dump (m : TypeModel) : Dump :=
  .record [("types", each ModelType.dump m.types.toList), ("tags", each m.dumpTag m.tags.toList),
    ("namespaces",
      each (fun n => .list [shown n.1, shown (m.contextPath n.2)]) m.namespaces.toList)]

end TypeModel
end Pdb
