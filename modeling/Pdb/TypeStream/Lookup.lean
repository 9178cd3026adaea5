import Pdb.TypeStream

/-! # Looking up type records

Tag records are found by their display name. A forward reference leads to the first definition with
its name; where the compiler has given it a unique name, that has to agree. -/

namespace Pdb.TypeStream

/-- The record at `ti` is a tag record with a display name. -/
def displayName? (s : TypeStream) (ti : TypeIndex) : Option Bytes := do
  let r ← (s.record ti).toOption
  if r.leaf.isUserDefined then r.type?.bind TypeRecord.tagName? else none

/-- The records in front of the first one that cannot be read. -/
def readable (s : TypeStream) : List TypeIndex :=
  s.indexes.takeWhile fun ti => (s.record ti).isOk

/-- The tag records with a display name, in order. -/
def find (s : TypeStream) (name : Bytes) : List TypeIndex :=
  s.readable.filter fun ti => s.displayName? ti = some name

/-- The definition `t` is what the forward reference `f` refers to. -/
def matches_ (f t : TypeRecord) : Bool :=
  match f.uniqueName? with
  | some u => t.uniqueName? = some u
  | none => t.tagName? = f.tagName?

/-- The forward reference at `ti`, with its leaf and its name. -/
def forwardRef? (s : TypeStream) (ti : TypeIndex) : Option (Leaf × TypeRecord × Bytes) := do
  let r ← (s.record ti).toOption
  let t ← r.type?
  guard t.isForwardRef
  let name ← t.tagName?
  let _ ← Text.strict? name
  return (r.leaf, t, name)

/-- The record at `c` defines what the forward reference `f` refers to. -/
def defines (s : TypeStream) (leaf : Leaf) (f : TypeRecord) (c : TypeIndex) : Bool :=
  match s.record c with
  | .error _ => false
  | .ok r =>
    r.leaf = leaf && match r.type? with
      | none => false
      | some t => !t.isForwardRef && matches_ f t

/-- The definition that a forward reference refers to: the first one in the stream. Any other record
stands for itself. -/
def definition (s : TypeStream) (ti : TypeIndex) : TypeIndex :=
  match s.forwardRef? ti with
  | none => ti
  | some (leaf, f, name) =>
    ((s.find name).find? fun c => c ≠ ti && s.defines leaf f c).getD ti

/-! ### Integral types -/

/-- How many modifiers and enumerations are looked through. -/
def maxIntegralDepth : Nat := 16

/-- The size in bytes and the signedness of a simple type, or of what a modifier or an enumeration
is made from, through at most `depth` of them. -/
def integralAt (s : TypeStream) : (depth : Nat) → TypeIndex → Option (Nat × Bool)
  | 0, _ => none
  | depth + 1, ti =>
    if ti.isSimple then
      if ti.simpleMode = .direct then some (ti.simpleKind.size, ti.simpleKind.signed)
      else ti.simpleMode.pointerSize?.map fun n => (n, false)
    else match s.type? ti with
      | some (.modifier m) => integralAt s depth m.modified
      | some (.enum e) => integralAt s depth e.underlying
      | some (.pointer p) => some (p.size, false)
      | _ => none

/-- The size in bytes and the signedness of the integers of a type. -/
def integral? (s : TypeStream) (ti : TypeIndex) : Option (Nat × Bool) :=
  s.integralAt (maxIntegralDepth + 1) ti

end Pdb.TypeStream
