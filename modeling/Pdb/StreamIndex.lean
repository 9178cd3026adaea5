import Pdb.Decoder

/-! # Stream numbers in tables

Tables refer to streams by 16-bit numbers, of which the largest means that there is no stream. -/

namespace Pdb
open Decoder

structure StreamIndex where
  val : UInt16
  deriving DecidableEq, Repr, Inhabited

namespace StreamIndex

def nil : StreamIndex := ⟨0xffff⟩

/-- The number of a stream, unless there is none. -/
def get? (i : StreamIndex) : Option Nat := if i = nil then none else some i.val.toNat

def nilMessage : String := "The given stream index is NIL."

def decode : Decoder StreamIndex := StreamIndex.mk <$> u16

/-- The index of a stream that may be missing. -/
def ofOption : Option Nat → StreamIndex
  | some n => ⟨UInt16.ofNat n⟩
  | none => nil

def encode (i : StreamIndex) : Bytes := Bytes.ofU16 i.val

instance streamIndexLocal : Local decode := mapLocal _ _

/-! ### The streams with fixed numbers -/

/-- The directory of an earlier version. -/
def oldDirectory : Nat := 0
def info : Nat := 1
def types : Nat := 2
def debugInfo : Nat := 3
def items : Nat := 4

end StreamIndex
end Pdb
