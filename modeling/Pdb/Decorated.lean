import Pdb.Bytes

/-! # Decorated names

A compiler writes the whole type of an entity into its linker name. This module has the syntax trees
of such names: names with their scopes, and the types that occur in template arguments. Not all of a
tree is ever written out, but two names or types are the same only if their whole trees are. -/

namespace Pdb.Decorated

/-- What stands in front of a type or behind it. Only `const` and `volatile` are ever printed. -/
structure Qualifiers where
  isConst : Bool := false
  isVolatile : Bool := false
  isFar : Bool := false
  is64 : Bool := false
  deriving DecidableEq, Repr, Inhabited

/-- What stands behind the parameters of a member function. -/
structure FunctionQualifiers where
  object : Qualifiers := {}
  isRestrict : Bool := false
  isUnaligned : Bool := false
  isLeft : Bool := false
  isRight : Bool := false
  deriving DecidableEq, Repr, Inhabited

inductive Access
  | private_ | protected_ | public_ | global
  deriving DecidableEq, Repr

structure FunctionClass where
  access : Access
  isStatic : Bool := false
  isVirtual : Bool := false
  /-- The function adjusts the pointer to its object. -/
  isThunk : Bool := false
  isFar : Bool := false
  deriving DecidableEq, Repr

inductive VariableClass
  | private_ | protected_ | public_ | global | local_
  deriving DecidableEq, Repr

inductive Convention
  | cdecl | pascal | thiscall | stdcall | fastcall
  deriving DecidableEq, Repr

def Convention.text : Convention → String
  | .cdecl => "__cdecl "
  | .pascal => "__pascal "
  | .thiscall => "__thiscall "
  | .stdcall => "__stdcall "
  | .fastcall => "__fastcall "

inductive TagForm
  | union | struct | class_ | enum | alias_
  deriving DecidableEq, Repr

inductive PointerForm
  | pointer | left | right
  deriving DecidableEq, Repr

def PointerForm.text : PointerForm → String
  | .pointer => "*"
  | .left => "&"
  | .right => "&&"

mutual

inductive Name where
  | plain (text : Bytes)
  | interface (text : Bytes)
  | template (name : Name) (args : Types)
  /-- A namespace without a name; a number may tell it from others. -/
  | anonymous (id : Option Bytes)
  | discriminator (n : Int)
  /-- The scope of a function or of another symbol. -/
  | nested (name : Name) (scope : Scope) (form : SymbolForm)
  | digest (text : Bytes)
  | operator (text : String)
  | constructor
  | destructor
  deriving DecidableEq, Repr

/-- The scopes of a name, innermost first. -/
inductive Scope where
  | nil
  | cons (name : Name) (outer : Scope)
  deriving DecidableEq, Repr

inductive Ty where
  /-- The missing result of a constructor. -/
  | missing
  | variadic
  | emptyPack
  | nullptr
  | constant (n : Int)
  | parameter (n : Int)
  | primitive (text : String) (q : Qualifiers)
  | tag (form : TagForm) (name : Name) (scope : Scope) (q : Qualifiers)
  | pointer (form : PointerForm) (target : Ty) (q : Qualifiers)
  | array (length : Int) (element : Ty) (q : Qualifiers)
  | function (q : FunctionQualifiers) (convention : Convention) (args : Types) (result : Ty)
  | memberFunction (name : Name) (scope : Scope) (class_ : Option FunctionClass) (q : Qualifiers)
      (convention : Convention) (args : Types) (result : Ty)
  deriving DecidableEq, Repr

inductive Types where
  | nil
  | cons (type : Ty) (others : Types)
  deriving DecidableEq, Repr

/-- What a symbol is the name of. None of it is written where a symbol is a scope. -/
inductive SymbolForm where
  /-- Nothing is said of it: a template, a digest, a function of which only the name is known, or a
  name that ends the text. -/
  | unknown
  | variable (class_ : VariableClass) (type : Ty) (q : Qualifiers)
  | virtualFunctions (q : Qualifiers) (scope : Scope)
  | virtualBases (q : Qualifiers) (scope : Scope)
  | typeDescriptor
  | function (convention : Convention) (args : Types) (result : Ty)
  | memberFunction (class_ : FunctionClass) (q : FunctionQualifiers) (convention : Convention)
      (args : Types) (result : Ty)
  deriving DecidableEq, Repr

end

instance : Inhabited Name := ⟨.constructor⟩
instance : Inhabited Ty := ⟨.missing⟩

def Types.ofList : List Ty → Types
  | [] => .nil
  | t :: ts => .cons t (ofList ts)

def Scope.ofList : List Name → Scope
  | [] => .nil
  | n :: ns => .cons n (ofList ns)

def Scope.toList : Scope → List Name
  | .nil => []
  | .cons n ns => n :: ns.toList

end Pdb.Decorated
