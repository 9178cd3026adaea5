import Pdb.Decoder
import Pdb.Text

/-! # Identifiers of databases

A 128-bit identifier ties a database to its executable. It is stored as a 32-bit word, two 16-bit
words and eight bytes, and it is written with the most significant byte first. -/

namespace Pdb
open Decoder

structure Guid where
  data1 : UInt32
  data2 : UInt16
  data3 : UInt16
  data4 : UInt64
  deriving DecidableEq, Repr, Inhabited

namespace Guid

/-- The identifier of a database that has none. -/
def nil : Guid := ⟨0, 0, 0, 0⟩

def decode : Decoder Guid := do
  let data1 ← u32
  let data2 ← u16
  let data3 ← u16
  let data4 ← take 8
  return { data1, data2, data3, data4 := UInt64.ofNat (Bytes.leNat data4.reverse) }

/-- The last eight bytes, in the order in which they are stored. -/
def tail (g : Guid) : Bytes := (Bytes.ofU64 g.data4).reverse

def encode (g : Guid) : Bytes :=
  Bytes.ofU32 g.data1 ++ Bytes.ofU16 g.data2 ++ Bytes.ofU16 g.data3 ++ g.tail

/-- The identifier that is the number `n` when written down. -/
def ofNat (n : Nat) : Guid where
  data1 := UInt32.ofNat (n / 2 ^ 96)
  data2 := UInt16.ofNat (n / 2 ^ 80)
  data3 := UInt16.ofNat (n / 2 ^ 64)
  data4 := UInt64.ofNat n

def text (g : Guid) : String :=
  Text.join "-" [Text.hex 8 g.data1.toNat, Text.hex 4 g.data2.toNat, Text.hex 4 g.data3.toNat,
    Text.hexBytes (g.tail.take 2), Text.hexBytes (g.tail.drop 2)]

instance guidLocal : Local decode := by unfold decode; infer_instance

end Guid
end Pdb
