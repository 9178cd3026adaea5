import Pdb.Nesting
import Pdb.TypeSystem

/-! # Types that have been made

A type is made from its record when it is asked for, and kept. A forward reference and its
definition lead to one type. Tag types are made without their members, and are completed later.
`TypeStore` is what has been made so far, together with the type system in which it was made;
`Creation` is a computation that makes types. -/

namespace Pdb

/-- A type stream together with the table of its nested records, and with a demangler for its names. -/
structure TypeGraph where
  demangler : Demangler
  stream : TypeStream
  nesting : Nesting
  nesting_eq : stream.nesting? = some nesting

/-- Whether the type system knows the members of a type. -/
inductive ResolveState
  | forward | full
  deriving DecidableEq, Repr, Inhabited

def ResolveState.name : ResolveState → String
  | .forward => "Forward"
  | .full => "Full"

/-- A type. Its state changes when it is completed, for everyone who has the type. -/
structure TypeObject where
  /-- The record that the type is made from; never a forward reference that has a definition. -/
  index : TypeIndex
  /-- Pointers, arrays and functions have an empty name. -/
  name : String
  /-- In bytes. -/
  size : Nat
  /-- What an array is made of. -/
  element? : Option TypeIndex
  state : ResolveState
  handle : TypeHandle
  deriving DecidableEq, Repr, Inhabited

def TypeIndex.uid (ti : TypeIndex) : Uid := (Entity.type ti false).uid
def TypeObject.uid (t : TypeObject) : Uid := t.index.uid

/-- What is known of a declaration: the record that it was made from, and its state. -/
structure DeclStatus where
  index : TypeIndex
  state : ResolveState
  deriving DecidableEq, Repr

/-- A place in the list of types. -/
abbrev TypeId := Nat

/-- The types that have been made in a type system. -/
structure TypeStore (σ : Type) where
  system : σ
  objects : Array TypeObject := #[]
  /-- The types of the records, also of forward references. -/
  ids : Table TypeIndex TypeId := .empty
  declarations : Table TagDecl DeclStatus := .empty
  /-- The records whose types are being made. -/
  underway : List TypeIndex := []
  /-- The records whose types are being completed. -/
  completing : List TypeIndex := []

namespace TypeStore
variable {σ : Type}

/-- The type of a record, if it has been made. -/
def cached? (s : TypeStore σ) (ti : TypeIndex) : Option TypeId := s.ids.find? ti

def object? (s : TypeStore σ) (id : TypeId) : Option TypeObject := s.objects[id]?

/-- Adds a type under the index of its record. -/
def add (s : TypeStore σ) (t : TypeObject) : TypeStore σ :=
  { s with objects := s.objects.push t, ids := s.ids.insert t.index s.objects.size }

/-- Lets a forward reference lead to a type. -/
def redirect (s : TypeStore σ) (ti : TypeIndex) (id : TypeId) : TypeStore σ :=
  { s with ids := s.ids.insert ti id }

/-- Notes that a type is complete. -/
def resolve (s : TypeStore σ) (tag : TagDecl) (ti : TypeIndex) : TypeStore σ :=
  { s with
    declarations := s.declarations.insert tag ⟨ti, .full⟩
    objects := match s.ids.find? ti with
      | some id => s.objects.modify id fun t => { t with state := .full }
      | none => s.objects }

end TypeStore

/-! ### Computations that make types -/

/-- Why a computation has no result. -/
inductive Halt
  /-- It has come to a chain of members that does not end, or has no fuel left. -/
  | endless
  /-- A number does not fit into a word. -/
  | overflow
  deriving DecidableEq, Repr

/-- A computation that makes types. It may find that there is no type to be had, and keeps what it
has made until then; it may also halt, and then has no result at all. -/
abbrev Creation (σ α : Type) := OptionT (StateT (TypeStore σ) (Except (Halt × TypeStore σ))) α

namespace Creation
variable {σ α : Type} [TypeSystem σ]

/-- The result and what has been made, or why there is no result and what had been made until then.
-/
def runOn (c : Creation σ α) (s : TypeStore σ) :
    Except (Halt × TypeStore σ) (Option α × TypeStore σ) := c s

def halt (h : Halt) : Creation σ α := OptionT.mk fun s => .error (h, s)

/-- A value that is not there before the end of a chain of members. -/
def atEnd : Option α → Creation σ α
  | some a => pure a
  | none => halt .endless

/-- A number that has to fit into a 64-bit word. -/
def word64 (n : Nat) : Creation σ Nat := if n < 2 ^ 64 then pure n else halt .overflow

/-- A value that may be missing. -/
def ofOption (x : Option α) : Creation σ α := OptionT.mk fun s => .ok (x, s)

def look (f : TypeStore σ → α) : Creation σ α := OptionT.mk fun s => .ok (some (f s), s)

def update (f : TypeStore σ → TypeStore σ) : Creation σ Unit :=
  OptionT.mk fun s => .ok (some (), f s)

/-- A question to the type system that may change it. -/
def ask (f : σ → α × σ) : Creation σ α :=
  OptionT.mk fun s => .ok (some (f s.system).1, { s with system := (f s.system).2 })

/-- The outcome of a computation that does not halt. -/
def attempt (c : Creation σ α) : Creation σ (Option α) :=
  OptionT.mk fun s => (c.runOn s).map fun r => (some r.1, r.2)

def derive (t : DerivedType) : Creation σ TypeHandle := ask fun σ => TypeSystem.derive σ t
def declare (d : Declaration) : Creation σ TypeHandle := ask fun σ => TypeSystem.declare σ d

def basic (b : BasicType) : Creation σ TypeHandle := do
  ofOption (← ask fun σ => TypeSystem.basic? σ b)

def change (type : TypeHandle) (c : TagChange) : Creation σ Unit :=
  ask fun σ => ((), TypeSystem.change σ type c)

def tagOf (type : TypeHandle) : Creation σ TagDecl := do
  ofOption (← look fun s => TypeSystem.tagOf? s.system type)

/-- The innermost of namespaces, each in the one before it. -/
def namespaces : DeclContext → List String → Creation σ DeclContext
  | c, [] => pure c
  | c, name :: names => do
    namespaces (← ask fun σ => TypeSystem.namespaceIn σ name c) names

def object (id : TypeId) : Creation σ TypeObject := do
  ofOption (← look fun s => s.object? id)

end Creation
end Pdb
