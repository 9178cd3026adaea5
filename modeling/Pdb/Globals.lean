import Pdb.Fault
import Pdb.Symbol

/-! # Global symbols

The global symbols are records one after another in a stream without a header. They are referred to
by offset, and some kinds of them are found by name. -/

namespace Pdb

/-- The global symbols of a database, which may have none. -/
structure Globals where
  stream? : Option PagedStream

namespace Globals

/-- The symbols of a database without global symbols. -/
def empty : Globals := ⟨none⟩

def recordAt (g : Globals) (offset : Nat) : Except Fault RawRecord :=
  match g.stream? with
  | none => throw (.noGlobals offset)
  | some s => do
    let len ← (s.copy offset 2).mapError .stream
    let bytes ← (s.read offset (Bytes.leNat len + 2)).mapError .stream
    match RawRecord.first? bytes with
    | some r => return r
    | none => throw (.globalUndecodable offset)

/-- All symbol records with their offsets. -/
def records (g : Globals) : Except Fault (List (UInt32 × RawRecord)) :=
  match g.stream? with
  | none => return []
  | some s => do
    let bytes ← (s.readToEnd 0).mapError .stream
    return RawRecord.withOffsets 0 (RawRecord.walk bytes).1

/-- Symbols of these kinds are found by name. -/
def isNamed : SymbolKind → Bool
  | .globalData32 | .localData32 | .globalThread32 | .localThread32 => true
  | .constant | .procRef | .localProcRef => true
  | _ => false

/-- The name by which a symbol is found. -/
def nameOf? (r : RawRecord) : Option Bytes :=
  if isNamed r.symbolKind then r.symbol?.bind Symbol.name? else none

/-- The offsets of the symbols with a name. -/
def find (g : Globals) (name : Bytes) : List UInt32 :=
  match g.records with
  | .error _ => []
  | .ok rs => (rs.filter fun r => nameOf? r.2 = some name).map (·.1)

end Globals
end Pdb
