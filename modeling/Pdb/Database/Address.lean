import Pdb.Database

/-! # Addresses

A place in a section has an address: that of the section's header above the load address. The
contributions of the modules to the sections are ranges of addresses, by which an address leads to
its module, and the functions of the module to the function. Addresses are computed modulo
`2 ^ 64`. The ranges are sorted by a sort that does not keep elements with the same key in order. -/

namespace Pdb

/-- A sort by words. It may leave elements with the same key in any order; all that it knows of the
elements is how their keys compare. -/
class UnstableSort where
  sortByKey {α : Type} : (key : α → UInt64) → List α → List α
  perm {α : Type} (key : α → UInt64) (xs : List α) : (sortByKey key xs).Perm xs
  ascending {α : Type} (key : α → UInt64) (xs : List α) :
    (sortByKey key xs).Pairwise fun a b => key a ≤ key b
  /-- Elements with other keys which compare alike are moved alike. -/
  map {α : Type} (key : α → UInt64) (f : α → α) (xs : List α) :
    (∀ a ∈ xs, ∀ b ∈ xs, key (f a) ≤ key (f b) ↔ key a ≤ key b) →
      sortByKey key (xs.map f) = (sortByKey key xs).map f

/-- One that keeps them in order. -/
@[reducible] def UnstableSort.stable : UnstableSort where
  sortByKey key xs := xs.mergeSort fun a b => key a ≤ key b
  perm key xs := List.mergeSort_perm xs _
  ascending key xs := by
    have htrans (a b c : _) : decide (key a ≤ key b) → decide (key b ≤ key c) →
        decide (key a ≤ key c) := by
      simp only [decide_eq_true_eq]
      exact UInt64.le_trans
    have htotal (a b : _) : decide (key a ≤ key b) || decide (key b ≤ key a) := by
      simp only [Bool.or_eq_true, decide_eq_true_eq]
      exact UInt64.le_total _ _
    exact (List.pairwise_mergeSort htrans htotal xs).imp of_decide_eq_true
  map key f xs h :=
    (List.map_mergeSort fun a ha b hb => decide_eq_decide.2 (h a ha b hb).symm).symm

/-- The addresses that a module has contributed. -/
structure AddressRange where
  start : UInt64
  size : Nat
  module : UInt16
  deriving DecidableEq, Repr

namespace AddressRange

/-- The address behind the range. -/
def stop (r : AddressRange) : Nat := r.start.toNat + r.size

def contains (r : AddressRange) (address : UInt64) : Bool :=
  r.start ≤ address ∧ address.toNat < r.stop

/-- The module at an address: that of the last range which starts at or below it, if the range
reaches so far. -/
def moduleIn? (ranges : List AddressRange) (address : UInt64) : Option UInt16 :=
  (((ranges.takeWhile (·.start ≤ address)).getLast?).filter (·.contains address)).map (·.module)

end AddressRange

namespace Database
variable [UnstableSort]

/-- The address of a place in a section. -/
def addressOf? (d : Database) (segment : UInt16) (offset : UInt32) : Option UInt64 := do
  guard (segment ≠ 0)
  let section_ ← d.sections[segment.toNat - 1]?
  return d.options.loadAddress + section_.virtualAddress.toUInt64 + offset.toUInt64

/-- The addresses of a contribution. One that is empty, or that goes beyond the last address, has
none. -/
def rangeOf? (d : Database) (c : Contribution) : Option AddressRange := do
  guard (0 < c.size ∧ 0 ≤ c.offset)
  let start ← d.addressOf? c.section_ c.offset.toUInt32
  let range : AddressRange := ⟨start, c.size.toInt.toNat, c.module⟩
  guard (range.stop < 2 ^ 64)
  return range

def contributions (d : Database) : List Contribution :=
  match Contribution.parseTable d.debugInfo.contributions with
  | .ok cs => cs
  | .error _ => []

/-- The contributed ranges in order of their first addresses. -/
def ranges (d : Database) : List AddressRange :=
  UnstableSort.sortByKey (·.start) (d.contributions.filterMap d.rangeOf?)

def moduleAt? (d : Database) (address : UInt64) : Option UInt16 :=
  AddressRange.moduleIn? d.ranges address

def procOf? (r : RawRecord) : Option ProcSymbol :=
  if r.symbolKind.isProc then
    match r.symbol? with
    | some (.proc p) => some p
    | _ => none
  else none

/-- The code of a function begins at or below an address and reaches beyond it. -/
def covers (d : Database) (address : UInt64) (p : ProcSymbol) : Bool :=
  (d.addressOf? p.address.segment p.address.offset).any fun start =>
    address - start < p.length.toUInt64

/-- The symbol of the innermost function at an address, if the module has a stream. A nested function
comes after the one around it, so this is the last one that matches. -/
def procedureIn? (d : Database) (address : UInt64) :
    Option ModuleStream → Except Fault (Option UInt32)
  | none => return none
  | some m => do
    let found := (← m.records).filter fun r => (procOf? r.2).any (d.covers address)
    return found.getLast?.map (·.1)

def procedureAt? (d : Database) (module : Nat) (address : UInt64) :
    Except Fault (Option UInt32) := do d.procedureIn? address (← d.moduleStream module)

end Database
end Pdb
