import Pdb.Symbol

/-! # Writing symbols

A `SymbolList` has the symbols of a stream that is to be written. A symbol is referred to by its
offset. A function stays open until the end record that belongs to it, and the two refer to each
other; functions in between are inside it. -/

namespace Pdb

/-- Padding behind `n` bytes up to a multiple of four. -/
def symbolPadding (n : Nat) : Bytes := [0xf1, 0xf2, 0xf3].take (Bytes.padTo4 n)

structure PlannedSymbol where
  offset : Nat
  kind : SymbolKind
  symbol : Symbol
  deriving DecidableEq, Repr

namespace PlannedSymbol

def record (s : PlannedSymbol) : RawRecord :=
  ⟨s.kind.code, s.symbol.encode ++ symbolPadding s.symbol.encode.length⟩

/-- The symbol with the end of its scope. -/
def close (s : PlannedSymbol) (stop : Nat) : PlannedSymbol :=
  match s.symbol with
  | .proc p => { s with symbol := .proc { p with end_ := UInt32.ofNat stop } }
  | _ => s

end PlannedSymbol

structure SymbolList where
  /-- The bytes in front of the first symbol. -/
  header : Bytes
  symbols : List PlannedSymbol := []
  /-- The offsets of the functions that are open, innermost first. -/
  open_ : List Nat := []
  deriving Repr

namespace SymbolList

def globals : SymbolList := { header := [] }

def ofModule : SymbolList := { header := Bytes.ofU32 4 }

def next (l : SymbolList) : Nat := l.symbols.foldl (fun n s => n + s.record.size) l.header.length

def add (l : SymbolList) (kind : SymbolKind) (symbol : Symbol) : Nat × SymbolList :=
  (l.next, { l with symbols := l.symbols ++ [⟨l.next, kind, symbol⟩] })

/-- Opens a function inside the one that is open. -/
def openProc (l : SymbolList) (kind : SymbolKind) (type : TypeIndex) (address : SectionOffset)
    (length : UInt32) (name : Bytes) : Nat × SymbolList :=
  let (offset, l') := l.add kind <| .proc {
    parent := UInt32.ofNat (l.open_.head?.getD 0), end_ := 0, next := 0, length
    debugStart := 0, debugEnd := length, type, address, flags := 0, name }
  (offset, { l' with open_ := offset :: l.open_ })

/-- Ends the innermost function that is open. -/
def closeProc (l : SymbolList) : Nat × SymbolList :=
  let (stop, l') := l.add .end_ .end_
  match l.open_ with
  | [] => (stop, l')
  | start :: outer =>
    let close (s : PlannedSymbol) := if s.offset = start then s.close stop else s
    (stop, { l' with symbols := l'.symbols.map close, open_ := outer })

/-- The symbol of a compiler for 64-bit machines. -/
def compile (flags : UInt32) (name : Bytes) : Symbol :=
  .compile { flags, machine := 0xd0, frontend := default, version := default, name }

def encode (l : SymbolList) : Bytes := l.header ++ l.symbols.flatMap fun s => s.record.encode

end SymbolList
end Pdb
