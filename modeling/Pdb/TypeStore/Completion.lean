import Pdb.TypeStore.Creation

/-! # Completing tag types

A tag type gets its members when a debugger asks for them. Each member of the record goes to the
type system in order; a member whose type cannot be made is left out. A completed type stays as it
is. Completing halts at a data member whose place, in bits, does not fit into a word; the members in
front of it have been added by then, and the type stays marked as being completed. -/

namespace Pdb

/-- The access to a member that is declared with it. -/
def MemberAttributes.accessOr (a : MemberAttributes) (default : Visibility) : Visibility :=
  match a.access with
  | .unstated => default
  | .private_ => .private_
  | .protected_ => .protected_
  | .public_ => .public_

/-- What the attributes say of a member function. -/
def MemberAttributes.traits (a : MemberAttributes) : MethodTraits where
  isVirtual := a.methodKind ∈ [.virtual, .introducingVirtual, .pureVirtual, .pureIntroducingVirtual]
  isStatic := a.methodKind = .static
  isPure := a.methodKind ∈ [.pureVirtual, .pureIntroducingVirtual]
  isArtificial := a.isArtificial

/-- The integer with the low `size` bytes of `value`. Sizes of zero, and of 16 or more, stand for
16. -/
def truncated (value size : Nat) (signed : Bool) : Int :=
  if size = 0 ∨ 16 ≤ size then Numeric.signedValue 128 (value % 2 ^ 128)
  else if signed then Numeric.signedValue (8 * size) (value % 2 ^ (8 * size))
  else (value % 2 ^ (8 * size) : Nat)

/-- What completing a tag type needs to know of its record. -/
structure TagShape where
  index : TypeIndex
  handle : TypeHandle
  fieldList : TypeIndex
  size : Nat
  defaultAccess : Visibility
  uniqueName? : Option Bytes
  /-- The size and the signedness of enumerators. -/
  integers? : Option (Nat × Bool)

/-- Why a type cannot even be tried to be completed. -/
inductive CompletionFault
  /-- The tag type was declared by someone else. -/
  | foreign (tag : TagDecl)
  deriving DecidableEq, Repr

def CompletionFault.message : CompletionFault → String
  | .foreign _ =>
    "completion requested for a tag declaration that this symbol file did not create"

namespace TypeGraph
open Creation
variable {σ : Type} [TypeSystem σ]

/-- The shape of a tag record that is a definition. -/
def shape? (g : TypeGraph) (ti : TypeIndex) (handle : TypeHandle) : Option TagShape := do
  let record ← (g.stream.record ti).toOption
  let t ← record.type?
  if t.isForwardRef then none
  let shape (fieldList : TypeIndex) (size : Nat) : TagShape :=
    { index := ti, handle, fieldList, size, defaultAccess := .public_,
      uniqueName? := t.uniqueName?, integers? := none }
  match t with
  | .class_ r => some { shape r.fieldList (r.length.size?.getD 0) with
      defaultAccess := (RecordKind.ofLeaf record.leaf).defaultAccess }
  | .union r => some (shape r.fieldList (r.length.size?.getD 0))
  | .enum r => some { shape r.fieldList 0 with
      integers? := (g.stream.integral? r.underlying).getD (4, true) }
  | _ => none

/-- A nested type of a record is its own definition, which is declared in the record, and not
another name for a type from elsewhere. -/
def definesNested (g : TypeGraph) (t : TagShape) (type : TypeIndex) (name : Bytes) : Bool :=
  !type.isSimple
    && (g.nesting.find? type = some t.index
      || g.nesting.find? (g.stream.definition type) = some t.index)
    && match t.uniqueName?, (g.stream.type? type) with
      | some parent, some child =>
        (child.uniqueName?.map (UniqueName.nests parent · name)).getD true
      | _, _ => true

def addMethod (t : TagShape) (attr : MemberAttributes) (type : TypeIndex) (name : String)
    (want : TypeIndex → Creation σ TypeObject) : Creation σ Unit := do
  let function ← want type
  change t.handle (.method name function.handle (attr.accessOr t.defaultAccess) attr.traits)

/-- The type and the place of a data member that may be a bit field: its type, its width in bits,
and its first bit. -/
def dataPlace (g : TypeGraph) (type : TypeIndex) : TypeIndex × Option Nat × Nat :=
  match g.stream.type? type with
  | some (.bitField b) => (b.underlying, some b.length.toNat, b.position.toNat)
  | _ => (type, none, 0)

/-- Adds a member to a tag type, and its place to the layout. -/
def addMember (g : TypeGraph) (want : TypeIndex → Creation σ TypeObject) (t : TagShape)
    (layout : RecordLayout) (m : Member) : Creation σ RecordLayout := do
  match m with
  | .data attr type offset name =>
    let name := Text.lossy name
    let offset ← ofOption offset.size?
    let (type, width?, position) := g.dataPlace type
    let type ← want type
    let place ← word64 (8 * offset + position)
    change t.handle (.field name type.handle (attr.accessOr t.defaultAccess) width?)
    return { layout with fields := layout.fields ++ [(name, place)] }
  | .baseClass attr type offset =>
    let base ← want type
    change t.handle (.base base.handle (attr.accessOr t.defaultAccess) false)
    return { layout with bases := layout.bases ++ [(base.uid, offset.size?.getD 0)] }
  | .virtualBase _ attr type _ _ _ =>
    let base ← want type
    change t.handle (.base base.handle (attr.accessOr t.defaultAccess) true)
    return layout
  | .nested type name | .nestedEx _ type name =>
    if g.definesNested t type name then return layout
    let nested ← want type
    change t.handle (.nested (Text.lossy name) nested.handle)
    return layout
  | .static attr type name =>
    let type ← want type
    change t.handle (.staticMember (Text.lossy name) type.handle (attr.accessOr t.defaultAccess))
    return layout
  | .method attr type _ name =>
    addMethod t attr type (Text.lossy name) want
    return layout
  | .overloads _ list name =>
    let .methodList entries ← ofOption (g.stream.type? list) | failure
    (MethodEntry.list entries).forM fun e =>
      discard (attempt (addMethod t e.attr e.type (Text.lossy name) want))
    return layout
  | .enumerator _ value name =>
    let (size, signed) ← ofOption t.integers?
    let bits ← ofOption value.bits?
    let value := truncated (bits.extended bits.signed) size signed
    change t.handle (.enumerator (Text.lossy name) value)
    return layout
  | _ => return layout

/-- Adds members one after another. A member that cannot be added is passed over. -/
def addMembers (g : TypeGraph) (want : TypeIndex → Creation σ TypeObject) (t : TagShape) :
    RecordLayout → List Member → Creation σ RecordLayout
  | layout, [] => pure layout
  | layout, m :: ms => do
    addMembers g want t ((← attempt (g.addMember want t layout m)).getD layout) ms

/-- The members of a tag record are there, or it has none. -/
def hasMembers (g : TypeGraph) (t : TagShape) : Bool :=
  t.fieldList = .none || g.stream.leaf? t.fieldList = some .fieldList

/-- Gives a tag type the members of its record. -/
def completeTag (g : TypeGraph) (want : TypeIndex → Creation σ TypeObject) (ti : TypeIndex)
    (handle : TypeHandle) : Creation σ Unit := do
  let t ← ofOption (g.shape? ti handle)
  if !g.hasMembers t then failure
  let members ← atEnd (g.stream.fields? t.fieldList)
  let layout ← g.addMembers want t ⟨t.size, [], []⟩ members
  change handle (.complete layout)

/-- Completes a tag type while it is marked as being completed. -/
def completeDeclared (g : TypeGraph) (tag : TagDecl) (ti : TypeIndex) (handle : TypeHandle) :
    Creation σ Bool := do
  update fun s => { s with completing := ti :: s.completing }
  change handle (.external false)
  let result ← attempt (g.completeTag g.want ti handle)
  update fun s => { s with completing := s.completing.erase ti }
  match result with
  | some () =>
    update fun s => s.resolve tag ti
    return true
  | none => return false

/-- Completes a type. It is true if the type is complete afterwards. -/
def complete (g : TypeGraph) (handle : TypeHandle) : Creation σ (Except CompletionFault Bool) := do
  match ← attempt (tagOf handle) with
  | none => return .ok false
  | some tag =>
    match ← look fun s => s.declarations.find? tag with
    | none => return .error (.foreign tag)
    | some status =>
      if status.state = .full then return .ok true
      if ← look fun s => decide (status.index ∈ s.completing) then return .ok false
      return .ok (← g.completeDeclared tag status.index handle)

end TypeGraph
end Pdb
