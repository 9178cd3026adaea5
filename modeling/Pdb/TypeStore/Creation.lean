import Pdb.TypeStore.Declaration
import Pdb.TypeStream.Spelling

/-! # Making types

`TypeGraph.get` makes the type of a record, after the types that it is made from. A record whose
type is being made already has none for the time being, so records that refer to each other in a
circle have no types unless the circle runs through the members of a tag type. -/

namespace Pdb

def PointerRecord.pointerKind (p : PointerRecord) : PointerKind :=
  match p.mode? with
  | some .lvalueReference => .lvalueReference
  | some .rvalueReference => .rvalueReference
  | _ => .pointer

def PointerRecord.qualifiers (p : PointerRecord) : Qualifiers :=
  ⟨p.isConst, p.isVolatile, p.isRestrict⟩

def ModifierRecord.qualifiers (m : ModifierRecord) : Qualifiers := ⟨m.isConst, m.isVolatile, false⟩

/-- The keyword for the leaf of a class record. -/
def RecordKind.ofLeaf : Leaf → RecordKind
  | .class_ => .class_
  | .interface => .interface
  | _ => .struct

/-- The access to members that state none. -/
def RecordKind.defaultAccess : RecordKind → Visibility
  | .class_ => .private_
  | _ => .public_

namespace InheritanceModel

/-- Counts the base classes up to the first virtual one, which leaves no count. -/
def countBase (bases : Option Nat) : Member → ForInStep (Option Nat)
  | .virtualBase .. => .done none
  | .baseClass .. => .yield (bases.map (· + 1))
  | _ => .yield bases

/-- The inheritance model by the number of base classes. -/
def ofCount : Option Nat → InheritanceModel
  | none => .virtual
  | some n => if 1 < n then .multiple else .single

end InheritanceModel

/-- The inheritance model of a record by its members. -/
def TypeStream.inheritance? (s : TypeStream) (list : TypeIndex) : Option InheritanceModel :=
  ((FieldWalk.start list).run s InheritanceModel.countBase (some 0)).map InheritanceModel.ofCount

namespace TypeGraph
open Creation
variable {σ : Type} [TypeSystem σ]

/-- A type that is complete as it is. -/
def finished (ti : TypeIndex) (name : String) (size : Nat) (handle : TypeHandle) : TypeObject :=
  { index := ti, name, size, element? := none, state := .full, handle }

/-- A type with qualifiers, if there are any. -/
def qualify (type : TypeHandle) (q : Qualifiers) : Creation σ TypeHandle :=
  if q.isEmpty then pure type else derive (.qualified type q)

/-- Makes a built-in type, or a pointer to one. -/
def createSimple (want : TypeIndex → Creation σ TypeObject) (ti : TypeIndex) :
    Creation σ TypeObject := do
  match ← ofOption ti.simpleType? with
  | .nullPtr => return finished ti "std::nullptr_t" 0 (← basic .nullPtr)
  | .pointer pointee size =>
    let pointee ← want pointee
    return finished ti "" size (← derive (.pointer pointee.handle .pointer))
  | .basic type size spelling => return finished ti spelling size (← basic type)

def createModifier (g : TypeGraph) (want : TypeIndex → Creation σ TypeObject) (ti : TypeIndex)
    (m : ModifierRecord) : Creation σ TypeObject := do
  let t ← want m.modified
  return finished ti (g.stream.spelling m.modified) t.size (← qualify t.handle m.qualifiers)

def createPointer (want : TypeIndex → Creation σ TypeObject) (ti : TypeIndex) (p : PointerRecord) :
    Creation σ TypeObject := do
  let pointee ← want p.pointee
  match ← ofOption p.containingClass? with
  | some class_ =>
    let class_ ← want class_
    return finished ti "" p.size (← derive (.memberPointer class_.handle pointee.handle))
  | none =>
    let pointer ← derive (.pointer pointee.handle p.pointerKind)
    return finished ti "" p.size (← qualify pointer p.qualifiers)

/-- Makes an array. Its length has to be a multiple of that of its element. -/
def createArray (want : TypeIndex → Creation σ TypeObject) (ti : TypeIndex) (a : ArrayRecord) :
    Creation σ TypeObject := do
  let element ← want a.element
  let size ← ofOption a.length.size?
  if element.size = 0 ∨ size % element.size ≠ 0 then failure
  let handle ← derive (.array element.handle (size / element.size))
  return { finished ti "" size handle with element? := element.index }

/-- The parameters of an argument list. A missing type at the end stands for any further arguments.
-/
def parameters (args : List TypeIndex) : List TypeIndex × Bool :=
  if args.getLast? = some .none then (args.dropLast, true) else (args, false)

/-- Makes a function type: first the parameters, then the result. -/
def createFunction (g : TypeGraph) (want : TypeIndex → Creation σ TypeObject)
    (ti result args : TypeIndex) (call : UInt8) : Creation σ TypeObject := do
  let .argList args ← ofOption (g.stream.type? args) | failure
  let (params, isVariadic) := parameters args
  let params ← params.mapM want
  let result ← want result
  let convention ← ofOption (CallingConvention.ofCode? call)
  let handle ← derive (.function result.handle (params.map (·.handle)) isVariadic convention)
  return finished ti "" 0 handle

/-- Declares a tag type, whose members are left for later. -/
def declareTag (ti : TypeIndex) (size : Nat) (d : Declaration) (name : String) :
    Creation σ TypeObject := do
  let handle ← declare d
  change handle .start
  change handle (.external true)
  return { finished ti name size handle with state := .forward }

def createRecord (g : TypeGraph) (want : TypeIndex → Creation σ TypeObject) (ti : TypeIndex)
    (name : Bytes) (unique? : Option Bytes) (size : Nat) (kind : RecordKind)
    (inheritance : InheritanceModel) : Creation σ TypeObject := do
  let (context, name) ← g.declaration want ti name unique?
  declareTag ti size (.record context kind.defaultAccess name kind ti.uid inheritance) name

/-- Makes an enumeration, which has the size of its underlying type. -/
def createEnum (g : TypeGraph) (want : TypeIndex → Creation σ TypeObject) (ti : TypeIndex)
    (e : EnumRecord) : Creation σ TypeObject := do
  let (context, name) ← g.declaration want ti e.name e.uniqueName
  let underlying ← want e.underlying
  declareTag ti underlying.size (.enum context name underlying.handle e.properties.isScoped) name

/-- Makes the type of a record from the types that it refers to. -/
def create (g : TypeGraph) (want : TypeIndex → Creation σ TypeObject) (ti : TypeIndex) :
    Creation σ TypeObject := do
  if ti.isSimple then createSimple want ti
  else
    let record ← ofOption (g.stream.record ti).toOption
    match ← ofOption record.type? with
    | .modifier m => g.createModifier want ti m
    | .pointer p => createPointer want ti p
    | .class_ r =>
      -- a record without a size is refused before its members are looked at
      let size ← ofOption r.length.size?
      let inheritance ← atEnd (g.stream.inheritance? r.fieldList)
      g.createRecord want ti r.name r.uniqueName size (.ofLeaf record.leaf) inheritance
    | .union r =>
      let size ← ofOption r.length.size?
      g.createRecord want ti r.name r.uniqueName size .union .single
    | .enum r => g.createEnum want ti r
    | .array r => createArray want ti r
    | .procedure r => g.createFunction want ti r.result r.args r.call
    | .memberFunction r => g.createFunction want ti r.result r.args r.call
    | _ => failure

/-- Runs a computation while a record is under way. It finds no type if the record is under way
already. -/
def guarded {α : Type} (ti : TypeIndex) (c : Creation σ α) : Creation σ α := do
  if ← look fun s => decide (ti ∈ s.underway) then failure
  update fun s => { s with underway := ti :: s.underway }
  let result ← attempt c
  update fun s => { s with underway := s.underway.erase ti }
  ofOption result

/-- The record that the type of a record is made from. -/
def target (g : TypeGraph) (ti : TypeIndex) : TypeIndex :=
  if ti.isSimple then ti else g.stream.definition ti

/-- Keeps a type that has been made, and notes the declaration of a tag type. -/
def store (t : TypeObject) : Creation σ TypeId := do
  let id ← look fun s => s.objects.size
  update fun s => s.add t
  if t.state = .forward then
    match ← attempt (tagOf t.handle) with
    | some tag => update fun s =>
      { s with declarations := s.declarations.insert tag ⟨t.index, .forward⟩ }
    | none => pure ()
  return id

/-- Makes and keeps the type of a record. -/
def createAndStore (g : TypeGraph) (want : TypeIndex → Creation σ TypeObject) (ti : TypeIndex) :
    Creation σ TypeId := do
  let best := g.target ti
  if best = ti then
    store (← g.create want ti)
  else
    let id ← match ← look fun s => s.cached? best with
      | some id => pure id
      | none => do store (← guarded best (g.create want best))
    update fun s => s.redirect ti id
    return id

/-- The type of a record, which is made if there is none yet. Each type that is made on the way
takes one unit of fuel. -/
def getFueled (g : TypeGraph) : (fuel : Nat) → TypeIndex → Creation σ TypeId
  | 0, _ => halt .endless
  | fuel + 1, ti => do
    match ← look fun s => s.cached? ti with
    | some id => return id
    | none =>
      if ti = .none then failure
      guarded ti (g.createAndStore (fun t => do object (← getFueled g fuel t)) ti)

/-- Enough fuel for any type: nothing but the records, a built-in type and a pointer to it can be
under way at the same time. -/
def fuel (g : TypeGraph) : Nat := g.stream.size + 3

/-- The type of a record, which is made if there is none yet. -/
def get (g : TypeGraph) (ti : TypeIndex) : Creation σ TypeId := g.getFueled g.fuel ti

def want (g : TypeGraph) (ti : TypeIndex) : Creation σ TypeObject := do object (← g.get ti)

end TypeGraph
end Pdb
