import Pdb.Dump
import Pdb.TypeRecord.Member

/-! # Dumps of type records

Type indexes are shown as numbers, and the numbers of records as texts. Members and functions of
overload sets are lists, which begin with the kind of what they show. -/

namespace Pdb
open Dump

def Dump.index (t : TypeIndex) : Dump := .num t.toNat

def Dump.number (n : Numeric) : Dump := .label n.text

def MemberAttributes.dump (a : MemberAttributes) : Dump :=
  .list [u16 a.bits, a.access.name, a.methodKind.name, a.isArtificial]

def Member.dump : Member → Dump
  | .baseClass a t o => .list ["BaseClass", MemberAttributes.dump a, index t, number o]
  | .virtualBase i a b v p o =>
    .list ["VirtualBaseClass", i, MemberAttributes.dump a, index b, index v, number p, number o]
  | .enumerator a v n => .list ["Enumerate", MemberAttributes.dump a, number v, text n]
  | .friendFunction t n => .list ["FriendFn", index t, text n]
  | .continuation t => .list ["Index", index t]
  | .data a t o n => .list ["Member", MemberAttributes.dump a, index t, number o, text n]
  | .static a t n => .list ["StaticMember", MemberAttributes.dump a, index t, text n]
  | .overloads c l n => .list ["Method", u16 c, index l, text n]
  | .nested t n => .list ["NestedType", MemberAttributes.dump ⟨0⟩, index t, text n]
  | .nestedEx a t n => .list ["NestedTypeEx", MemberAttributes.dump a, index t, text n]
  | .vtablePointer t => .list ["VFuncTable", index t]
  | .friendClass t => .list ["FriendClass", index t]
  | .method a t v n => .list ["OneMethod", MemberAttributes.dump a, index t, orAbsent u32 v, text n]
  | .vtableOffset t o => .list ["VFuncOffset", index t, u32 o]

def Member.dumpList (bs : Bytes) : Dump :=
  let (members, left) := Member.listWithRest bs
  .record [("items", .list (members.map Member.dump)), ("left", num left.length)]

def Member.enumeratorText? : Member → Option String
  | .enumerator _ value name => some s!"{Text.lossy name} = {value.text}"
  | _ => none

/-- The enumerators of a list, one below the other. -/
def Member.outline (ms : List Member) : String :=
  let indented (s : String) : String := s.replace "\n" "\n        "
  match ms.filterMap enumeratorText? with
  | [] => "[]"
  | texts =>
    let items := texts.map fun s => s!"    Enumerate(\n        {indented s},\n    ),\n"
    "[\n" ++ Text.join "" items ++ "]"

def MethodEntry.listText (bs : Bytes) : String := s!"MethodList({bs.length} bytes)"

def MethodEntry.dumpList (bs : Bytes) : Dump :=
  let (entries, left) := MethodEntry.listWithRest bs
  let items := entries.map fun m =>
    .list [u16 m.attr.bits, index m.type, orAbsent u32 m.vtableOffset]
  let fault := if left.isEmpty then [] else [malformed]
  .record [("items", .list (items ++ fault)), ("left", num left.length)]

def Properties.dump (p : Properties) : Dump :=
  .record [("flags", labels p.setFlags), ("hfa", num p.hfa), ("mocom", num p.mocom)]

def TypeRecord.dump : TypeRecord → Dump
  | .array r => .record [("t", "Array"), ("element", index r.element), ("index", index r.index),
      ("len", number r.length), ("name", text r.name)]
  | .class_ r => .record [("t", "Struct"), ("count", u16 r.count),
      ("property", Properties.dump r.properties), ("fields", index r.fieldList),
      ("derived", index r.derived), ("vshape", index r.vtableShape), ("length", number r.length),
      ("name", text r.name), ("unique", orAbsent text r.uniqueName)]
  | .union r => .record [("t", "Union"), ("count", u16 r.count),
      ("property", Properties.dump r.properties), ("fields", index r.fieldList),
      ("length", number r.length), ("name", text r.name), ("unique", orAbsent text r.uniqueName)]
  | .enum r => .record [("t", "Enum"), ("count", u16 r.count),
      ("property", Properties.dump r.properties), ("fields", index r.fieldList),
      ("underlying", index r.underlying), ("name", text r.name),
      ("unique", orAbsent text r.uniqueName)]
  | .procedure r => .record [("t", "Proc"), ("ret", index r.result), ("call", u8 r.call),
      ("reserved", u8 r.reserved), ("num_params", u16 r.paramCount), ("args", index r.args)]
  | .memberFunction r => .record [("t", "MemberFunc"), ("ret", index r.result),
      ("class", index r.class_), ("this", index r.this), ("call", u8 r.call),
      ("reserved", u8 r.reserved), ("num_params", u16 r.paramCount), ("args", index r.args),
      ("adjust", u32 r.thisAdjust)]
  | .pointer p => .record [("t", "Pointer"), ("ty", index p.pointee), ("debug", shown p.text),
      ("kind", num p.kind), ("mode", orAbsent (fun m => label m.name) p.mode?),
      ("flat32", p.flat32), ("volatile", p.isVolatile), ("const", p.isConst),
      ("unaligned", p.isUnaligned),
      ("restrict", p.isRestrict), ("size", num p.size), ("mocom", p.isMocom),
      ("lref", p.isLeftReference), ("rref", p.isRightReference), ("to_member", p.toMember),
      ("class", decoded (orAbsent index) p.containingClass?), ("variant", bytes p.variant)]
  | .modifier m => .record [("t", "Modifier"), ("ty", index m.modified), ("const", m.isConst),
      ("volatile", m.isVolatile), ("unaligned", m.isUnaligned)]
  | .fieldList bs => .record [("t", "FieldList"), ("list", Member.dumpList bs)]
  | .methodList bs => .record [("t", "MethodList"), ("list", MethodEntry.dumpList bs)]
  | .argList args => .record [("t", "ArgList"), ("args", .list (args.map index))]
  | .bitField b => .record [("t", "BitField"), ("ty", index b.underlying), ("length", u8 b.length),
      ("position", u8 b.position)]
  | .alias_ t n => .record [("t", "Alias"), ("ty", index t), ("name", text n)]
  | .functionId s t n =>
    .record [("t", "FuncId"), ("scope", u32 s), ("ty", index t), ("name", text n)]
  | .stringId i n => .record [("t", "StringId"), ("id", u32 i), ("name", text n)]
  | .buildInfo args => .record [("t", "BuildInfo"), ("count", num args.length),
      ("args", .list (BuildArgument.all.map fun a => orAbsent u32 (a.of? args)))]
  | .unknown => .record [("t", "Unknown")]

/-- A record with its length, and what it says. -/
def RawRecord.dumpType (r : RawRecord) : Dump :=
  .list [r.leaf.name, num r.data.length, decoded TypeRecord.dump r.type?]

def TypeRecord.dumpViews (t : TypeRecord) : Dump :=
  .record [("data", t.dump), ("name", orAbsent text t.name?),
    ("udt_name", orAbsent text t.tagName?), ("udt_unique_name", orAbsent text t.uniqueName?),
    ("udt_properties", orAbsent Properties.dump t.properties?),
    ("udt_field_list", orAbsent index t.members?), ("forward", t.isForwardRef)]

def Numeric.Bits.dump (b : Numeric.Bits) : Dump :=
  .record [("bits", wideNum b.bits), ("width", num b.width), ("signed", b.signed),
    ("sext", wideNum (b.extended true)), ("zext", wideNum (b.extended false))]

/-- A number that takes `consumed` bytes and has `left` bytes behind it. -/
def Numeric.dump (n : Numeric) (consumed left : Nat) : Dump :=
  .record [("consumed", num consumed), ("left", num left), ("leaf", n.leaf.name),
    ("text", number n), ("bits", orAbsent Bits.dump n.bits?), ("i128", orAbsent wide n.int128?),
    ("i32", orAbsent wide n.int32?), ("i64", orAbsent wide n.int64?),
    ("u32", orAbsent wide n.uint32?), ("u64", orAbsent wide n.uint64?)]

def SimpleType.dump : SimpleType → Dump
  | .nullPtr => "NullPtr"
  | .pointer p s => .list ["Pointer", index p, num s]
  | .basic b s n => .list ["Basic", b.name, num s, n]

/-- A type index as that of a built-in type. -/
def TypeIndex.dump (t : TypeIndex) : Dump :=
  let k := t.simpleKind
  .record [("debug", t.text), ("simple", t.isSimple), ("kind", k.label),
    ("mode", t.simpleMode.name), ("direct_mode", decide (t.simpleMode = .direct)),
    ("pointer_size", orAbsent num t.simpleMode.pointerSize?),
    ("direct", index t.direct), ("decoded", orAbsent SimpleType.dump t.simpleType?),
    ("basic", orAbsent (fun b => label b.name) k.basic?), ("signed", k.signed),
    ("size", num k.size), ("name", k.spelling)]

end Pdb
