import Pdb.Database.Context
import Pdb.Database.Variable
import Pdb.TypeStore.Completion

/-! # Symbol files

A symbol file is an open database together with the types that have been made from it. What is asked
of the database alone has the same answer at any time; questions about types make the types that
they need, once. A question that comes to a chain of members without an end has no answer, and a
database in which the nested records cannot be found for such a chain is never open. There is no
answer to the request to complete a type either if that halts at an overflow. -/

namespace Pdb

/-- An open database, and the types made so far in a type system with states `σ`. -/
structure SymbolFile (σ : Type) where
  database : Database
  graph : TypeGraph
  store : TypeStore σ
  graph_eq : graph.stream = database.types

namespace SymbolFile
variable {σ : Type} [TypeSystem σ]

/-- The symbol file of a database, with no types as yet. -/
def ofDatabase? (demangler : Demangler) (database : Database) (system : σ) : Option (SymbolFile σ) :=
  match h : database.types.nesting? with
  | none => none
  | some nesting => some {
      database, graph := ⟨demangler, database.types, nesting, h⟩, store := { system }, graph_eq := rfl }

def parse (demangler : Demangler) (image : Array UInt8) (system : σ) (options : OpenOptions) :
    Option (Except Fault (SymbolFile σ)) :=
  match Database.parse image options with
  | .error e => some (.error e)
  | .ok database => (ofDatabase? demangler database system).map .ok

/-- Runs a computation that makes types. -/
def run {α : Type} (f : SymbolFile σ) (c : Creation σ α) : Option (Option α × SymbolFile σ) :=
  (c.runOn f.store).toOption.map fun r => (r.1, { f with store := r.2 })

/-- What a computation leaves behind that halts at an overflow. -/
def overflown? {α : Type} (f : SymbolFile σ) (c : Creation σ α) : Option (SymbolFile σ) :=
  match c.runOn f.store with
  | .error (.overflow, s) => some { f with store := s }
  | _ => none

def object? (f : SymbolFile σ) (id : TypeId) : Option TypeObject := f.store.object? id

/-- The type of a record, which is made if there is none yet. Items are no types. -/
def typeOf (f : SymbolFile σ) (ti : TypeIndex) (isItem : Bool) :
    Option (Option TypeId × SymbolFile σ) :=
  if isItem then some (none, f) else f.run (f.graph.get ti)

def typeOfUid (f : SymbolFile σ) (u : Uid) :
    Except UidFault (Option (Option TypeId × SymbolFile σ)) := do
  match ← Uid.unpackAs .type u with
  | .type ti isItem => return f.typeOf ti isItem
  | _ => return some (none, f)

/-- A type that has been made, by its number. -/
def cached? (f : SymbolFile σ) (u : Uid) : Option TypeObject :=
  match Uid.unpackAs .type u with
  | .ok (.type ti false) => (f.store.cached? ti).bind f.object?
  | _ => none

def complete (f : SymbolFile σ) (type : TypeHandle) :
    Option (Except CompletionFault Bool × SymbolFile σ) :=
  (f.run (f.graph.complete type)).map fun r => (r.1.getD (.ok false), r.2)

/-- The types of some records one after another, each once, until there are `limit` of them unless
that is zero. -/
def gather (g : TypeGraph) (limit : Nat) : List TypeId → List TypeIndex → Creation σ (List TypeId)
  | found, [] => pure found
  | found, ti :: tis => do
    if limit ≠ 0 ∧ limit ≤ found.length then return found
    let id? ← Creation.attempt (g.get ti)
    gather g limit (found ++ (id?.filter (!found.contains ·)).toList) tis

/-- The types with a name, at most `limit` of them unless that is zero. -/
def typesNamed (f : SymbolFile σ) (name : Bytes) (limit : Nat) :
    Option (List TypeId × SymbolFile σ) :=
  (f.run (gather f.graph limit [] (f.database.types.find name))).map fun r => (r.1.getD [], r.2)

def typeOfVariable (f : SymbolFile σ) (v : Variable) : Option (Option TypeId × SymbolFile σ) :=
  f.typeOf v.type false

end SymbolFile
end Pdb
