import Pdb.Table
import Pdb.TypeStream.FieldChain
import Pdb.TypeStream.Lookup
import Pdb.UniqueName

/-! # Which record is defined in which

Type records do not say where they are defined. A class lists the types that are defined in it, but
also other names of types that are defined elsewhere; unique names tell the two apart. `nesting?`
is the table from each nested record to the record that it is defined in; there is none if a chain
of members that has to be read does not end. -/

namespace Pdb

/-- From nested records to the records that they are defined in. -/
abbrev Nesting := Table TypeIndex TypeIndex

namespace Member

/-- The type and the name of a nested type. -/
def nested? : Member → Option (TypeIndex × Bytes)
  | .nested type name => some (type, name)
  | .nestedEx _ type name => some (type, name)
  | _ => none

end Member

namespace TypeStream

/-- The unique name and the members of a definition that has nested types. -/
def nester? (s : TypeStream) (ti : TypeIndex) : Option (Bytes × TypeIndex) := do
  let t ← s.type? ti
  let p ← t.properties?
  guard (!p.forwardRef && p.containsNested)
  let list ← t.members?
  let unique ← t.uniqueName?
  return (unique, list)

/-- The record that a member leads to, if it is a tag record that is defined in a record with the
unique name `parent`. -/
def nestedIn? (s : TypeStream) (parent : Bytes) (m : Member) : Option (TypeIndex × TypeRecord) := do
  let (ti, name) ← m.nested?
  guard (!ti.isSimple)
  let t ← s.type? ti
  guard t.isTag
  let unique ← t.uniqueName?
  guard (UniqueName.nests parent unique name)
  return (ti, t)

/-- Enters a nested record, and if it is a forward reference also its definition. -/
def enterNested (s : TypeStream) (parent : TypeIndex) (n : Nesting) (ti : TypeIndex)
    (t : TypeRecord) : Nesting :=
  let n := n.insert ti parent
  if t.isForwardRef then
    let full := s.definition ti
    if full = ti then n else n.insert full parent
  else n

/-- Enters all that is defined in a record. -/
def enterAll? (s : TypeStream) (n : Nesting) (ti : TypeIndex) : Option Nesting :=
  match s.nester? ti with
  | none => some n
  | some (unique, list) => (s.fields? list).map fun ms =>
    (ms.filterMap (s.nestedIn? unique)).foldl (fun n c => s.enterNested ti n c.1 c.2) n

/-- The table of nested records. Where two records list the same one, the later counts. -/
def nesting? (s : TypeStream) : Option Nesting := s.indexes.foldlM s.enterAll? .empty

end TypeStream
end Pdb
