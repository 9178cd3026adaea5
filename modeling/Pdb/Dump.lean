import Pdb.Text

/-! # Dumps

A dump is a tree of named values that shows what a part of a database holds. A tool that lists the
contents of a database writes dumps in the notation of its choice. -/

namespace Pdb

/-- A tree of values. -/
inductive Dump
  | absent
  /-- What stands here cannot be decoded. -/
  | malformed
  | flag (b : Bool)
  | int (n : Int)
  /-- An integer that may have more than 32 bits. -/
  | wide (n : Int)
  /-- A word of this library, in plain letters. -/
  | label (s : String)
  /-- A name from the database. -/
  | text (bs : Bytes)
  | bytes (bs : Bytes)
  | list (items : List Dump)
  | record (fields : List (String × Dump))
  deriving Inhabited

namespace Dump

def num (n : Nat) : Dump := .int n
def wideNum (n : Nat) : Dump := .wide n

/-- A text of this library that may have other letters than plain ones. -/
def shown (s : String) : Dump := .text (Text.utf8 s)

/-- A value that may be missing. -/
def orAbsent {α : Type} (f : α → Dump) : Option α → Dump
  | some x => f x
  | none => .absent

/-- A value that could be decoded or not. -/
def decoded {α : Type} (f : α → Dump) : Option α → Dump
  | some x => f x
  | none => .malformed

def each {α : Type} (f : α → Dump) (xs : List α) : Dump := .list (xs.map f)

def labels (ss : List String) : Dump := each .label ss
def u8 (x : UInt8) : Dump := num x.toNat
def u16 (x : UInt16) : Dump := num x.toNat
def u32 (x : UInt32) : Dump := num x.toNat
def u64 (x : UInt64) : Dump := wideNum x.toNat
def i32 (x : Int32) : Dump := .int x.toInt

instance : Coe String Dump := ⟨.label⟩
instance : Coe Bool Dump := ⟨.flag⟩

end Dump
end Pdb
