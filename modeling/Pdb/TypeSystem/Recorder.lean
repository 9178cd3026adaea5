import Pdb.TypeSystem

/-! # A type system that records what it is asked

`Recorder` gives out handles in order and keeps a list of all calls. It can be told to do without
some built-in types, or to know no declarations. -/

namespace Pdb

inductive TypeCall
  | namespace_ (name : String) (parent result : DeclContext)
  | basic (type : BasicType) (result : Option TypeHandle)
  | derived (type : DerivedType) (result : TypeHandle)
  | declared (decl : Declaration) (result : TypeHandle) (tag : TagDecl)
  | changed (type : TypeHandle) (change : TagChange)
  deriving DecidableEq, Repr

/-- The state of a recording type system. -/
structure Recorder where
  /-- The built-in types that it does not have. -/
  unsupported : List String
  /-- No type is known to be a tag type. -/
  hidesTags : Bool
  handleCount : Nat
  tagCount : Nat
  /-- The tags of records and enumerations, and of qualified versions of them. -/
  tags : List (TypeHandle × TagDecl)
  namespaces : List (String × DeclContext)
  /-- The calls since the last look at them, the latest in front. -/
  calls : List TypeCall

namespace Recorder

def new (unsupported : List String) (hidesTags : Bool) : Recorder :=
  { unsupported, hidesTags, handleCount := 0, tagCount := 0, tags := [], namespaces := [],
    calls := [] }

/-- The calls in order, and a state without them. -/
def take (r : Recorder) : List TypeCall × Recorder := (r.calls.reverse, { r with calls := [] })

def log (r : Recorder) (c : TypeCall) : Recorder := { r with calls := c :: r.calls }

def tagOf? (r : Recorder) (type : TypeHandle) : Option TagDecl :=
  if r.hidesTags then none else r.tags.lookup type

def namespaceIn (r : Recorder) (name : String) (parent : DeclContext) : DeclContext × Recorder :=
  match r.namespaces.findIdx? (· = (name, parent)) with
  | some i => (.namespace_ i, r.log (.namespace_ name parent (.namespace_ i)))
  | none =>
    let result := .namespace_ r.namespaces.length
    let r := { r with namespaces := r.namespaces ++ [(name, parent)] }
    (result, r.log (.namespace_ name parent result))

def basic? (r : Recorder) (type : BasicType) : Option TypeHandle × Recorder :=
  if type.name ∈ r.unsupported then (none, r.log (.basic type none))
  else
    (some r.handleCount,
      { r with handleCount := r.handleCount + 1 }.log (.basic type (some r.handleCount)))

def derive (r : Recorder) (type : DerivedType) : TypeHandle × Recorder :=
  let handle := r.handleCount
  let tags := match type with
    | .qualified inner _ => ((r.tags.lookup inner).map (handle, ·)).toList
    | _ => []
  (handle, { r with handleCount := handle + 1, tags := tags ++ r.tags }.log (.derived type handle))

def declare (r : Recorder) (decl : Declaration) : TypeHandle × Recorder :=
  let handle := r.handleCount
  let tag := r.tagCount
  (handle,
    { r with handleCount := handle + 1, tagCount := tag + 1, tags := (handle, tag) :: r.tags }.log
      (.declared decl handle tag))

instance : TypeSystem Recorder where
  namespaceIn := namespaceIn
  basic? := basic?
  derive := derive
  declare := declare
  change r type change := r.log (.changed type change)
  tagOf? := tagOf?

end Recorder
end Pdb
