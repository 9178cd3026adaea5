import Pdb.TypeSystem

/-! # A type system that can be looked at

`TypeModel` keeps types, tag declarations and namespaces in lists; a handle is a place in the list
of types. `contextPath` is the qualified name of a context. -/

namespace Pdb

inductive ModelType
  | basic (type : BasicType)
  | derived (type : DerivedType)
  | tag (d : TagDecl)
  deriving DecidableEq, Repr

structure ModelField where
  name : String
  type : TypeHandle
  access : Visibility
  bitWidth : Option Nat
  deriving DecidableEq, Repr

structure ModelBase where
  type : TypeHandle
  access : Visibility
  isVirtual : Bool
  deriving DecidableEq, Repr

structure ModelMethod where
  name : String
  type : TypeHandle
  access : Visibility
  traits : MethodTraits
  deriving DecidableEq, Repr

/-- A tag type: how it was declared, and what was added since. -/
structure ModelTag where
  decl : Declaration
  started : Bool := false
  isExternal : Bool := false
  completions : Nat := 0
  fields : List ModelField := []
  bases : List ModelBase := []
  statics : List ModelField := []
  methods : List ModelMethod := []
  enumerators : List (String × Int) := []
  nested : List (String × TypeHandle) := []
  layout : Option RecordLayout := none
  deriving DecidableEq, Repr

namespace Declaration

def context : Declaration → DeclContext
  | .record context .. => context
  | .enum context .. => context

def name : Declaration → String
  | .record _ _ name .. => name
  | .enum _ name .. => name

end Declaration

def ModelTag.apply (t : ModelTag) : TagChange → ModelTag
  | .start => { t with started := true }
  | .external b => { t with isExternal := b }
  | .field name type access bitWidth =>
    { t with fields := t.fields ++ [{ name, type, access, bitWidth }] }
  | .base type access isVirtual => { t with bases := t.bases ++ [{ type, access, isVirtual }] }
  | .staticMember name type access =>
    { t with statics := t.statics ++ [{ name, type, access, bitWidth := none }] }
  | .method name type access traits =>
    { t with methods := t.methods ++ [{ name, type, access, traits }] }
  | .enumerator name value => { t with enumerators := t.enumerators ++ [(name, value)] }
  | .nested name type => { t with nested := t.nested ++ [(name, type)] }
  | .complete layout => { t with completions := t.completions + 1, layout := some layout }

structure TypeModel where
  types : Array ModelType := #[]
  tags : Array ModelTag := #[]
  namespaces : Array (String × DeclContext) := #[]
  deriving Inhabited

namespace TypeModel

def add (m : TypeModel) (t : ModelType) : TypeHandle × TypeModel :=
  (m.types.size, { m with types := m.types.push t })

/-- The declaration of a type, looking through at most `depth` qualified types. -/
def tagAt? (m : TypeModel) : (depth : Nat) → TypeHandle → Option TagDecl
  | 0, _ => none
  | depth + 1, type =>
    match m.types[type]? with
    | some (.tag d) => some d
    | some (.derived (.qualified inner _)) => tagAt? m depth inner
    | _ => none

/-- The declaration of a type. A qualified type comes after the type that it qualifies. -/
def tagOf? (m : TypeModel) (type : TypeHandle) : Option TagDecl := m.tagAt? (type + 1) type

def namespaceIn (m : TypeModel) (name : String) (parent : DeclContext) : DeclContext × TypeModel :=
  match m.namespaces.findIdx? (· = (name, parent)) with
  | some i => (.namespace_ i, m)
  | none =>
    (.namespace_ m.namespaces.size, { m with namespaces := m.namespaces.push (name, parent) })

def declare (m : TypeModel) (decl : Declaration) : TypeHandle × TypeModel :=
  { m with tags := m.tags.push { decl } }.add (.tag m.tags.size)

/-- Changes a tag type; any other type has nothing to change. -/
def change (m : TypeModel) (type : TypeHandle) (change : TagChange) : TypeModel :=
  match m.tagOf? type with
  | some d => { m with tags := m.tags.modify d (·.apply change) }
  | none => m

instance : TypeSystem TypeModel where
  namespaceIn := namespaceIn
  basic? m type := let (handle, m) := m.add (.basic type); (some handle, m)
  derive m type := m.add (.derived type)
  declare := declare
  change := change
  tagOf? := tagOf?

def tag? (m : TypeModel) (type : TypeHandle) : Option ModelTag := (m.tagOf? type).bind (m.tags[·]?)

/-- The names of a context and of those around it, at most `depth` of them, innermost first. -/
def contextNames (m : TypeModel) : (depth : Nat) → DeclContext → List String
  | 0, _ => []
  | _ + 1, .translationUnit => []
  | depth + 1, .namespace_ n =>
    match m.namespaces[n]? with
    | some (name, parent) => name :: contextNames m depth parent
    | none => []
  | depth + 1, .tag d =>
    match m.tags[d]? with
    | some t => t.decl.name :: contextNames m depth t.decl.context
    | none => []

/-- The qualified name of a context. A context is made before what is declared in it. -/
def contextPath (m : TypeModel) (c : DeclContext) : String :=
  Text.join "::" (m.contextNames (m.namespaces.size + m.tags.size + 1) c).reverse

end TypeModel
end Pdb
