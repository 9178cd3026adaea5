import Pdb.QualifiedName
import Pdb.TypeStore
import Pdb.UniqueName

/-! # Where types are declared

A record does not say where it is declared. A nested record is declared in the tag type of the
record around it. For any other record the scopes in its name are taken for namespaces, unless one
of them has template arguments: such a scope may be a class, so the record is then declared outside
of everything under its whole name. -/

namespace Pdb.TypeGraph
open Creation
variable {σ : Type} [TypeSystem σ]

/-- The context of the tag type of a record. -/
def tagContext (want : TypeIndex → Creation σ TypeObject) (ti : TypeIndex) :
    Creation σ DeclContext := do
  let t ← want ti
  return .tag (← tagOf t.handle)

/-- The context for a name in namespaces. -/
def namespaceContext (scopes : List String) (isTemplate : Bool) (name whole : String) :
    Creation σ (DeclContext × String) := do
  if isTemplate then return (.translationUnit, whole)
  return (← namespaces .translationUnit scopes, name)

/-- The context and the name of a record that has nothing but a display name. -/
def plainDeclaration (g : TypeGraph) (want : TypeIndex → Creation σ TypeObject) (ti : TypeIndex)
    (name : String) : Creation σ (DeclContext × String) := do
  let scopes := (QualifiedName.scopes name.toList).map String.ofList
  let identifier := String.ofList (QualifiedName.identifier name.toList)
  let parent? ← attempt do tagContext want (← ofOption (g.nesting.find? ti))
  match parent? with
  | some parent => return (parent, identifier)
  | none => namespaceContext scopes (scopes.any (·.contains '<')) identifier name

/-- The context and the name of a record with a unique name. -/
def decoratedDeclaration (g : TypeGraph) (want : TypeIndex → Creation σ TypeObject) (ti : TypeIndex)
    (u : UniqueName) (name : String) : Creation σ (DeclContext × String) := do
  let identifier := Text.lossy u.identifier.text
  match g.nesting.find? ti with
  | some parent => return ((← attempt (tagContext want parent)).getD .translationUnit, identifier)
  | none =>
    namespaceContext (u.scopes.map fun p => Text.lossy p.text) u.anyScopeIsTemplate identifier name

/-- The context and the name with which a record is declared. -/
def declaration (g : TypeGraph) (want : TypeIndex → Creation σ TypeObject) (ti : TypeIndex)
    (name : Bytes) (unique? : Option Bytes) : Creation σ (DeclContext × String) :=
  match unique?.bind (UniqueName.parse? g.demangler) with
  | some u => g.decoratedDeclaration want ti u (Text.lossy name)
  | none => g.plainDeclaration want ti (Text.lossy name)

end Pdb.TypeGraph
