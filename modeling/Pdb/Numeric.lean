import Pdb.Leaf

/-! # Numbers in records

Lengths, offsets, enumerator values and constants are stored with a variable width. A first word
below `0x8000` is the number itself; any other first word is a leaf code that says what follows: an
integer of some width, a real, a string. `value?` is the integer that a number denotes; `ofNat` and
`ofInt` choose the narrowest form of an integer. -/

namespace Pdb

/-- A number as it stands in a record: its leaf code, and the bytes after the code. -/
structure Numeric where
  leaf : Leaf
  payload : Bytes
  deriving DecidableEq, Repr, Inhabited

namespace Numeric

/-- What follows the leaf code of a number. -/
inductive Form
  | fixed (n : Nat)
  /-- A 16-bit length and as many bytes. -/
  | counted
  /-- A NUL-terminated text. -/
  | terminated
  deriving DecidableEq, Repr

/-- The form of the bytes after a leaf code; an unknown code has none. -/
def form? (l : Leaf) : Option Form :=
  if l.isImmediate then some (.fixed 0)
  else match l with
    | .char => some (.fixed 1)
    | .short | .ushort | .real16 => some (.fixed 2)
    | .long | .ulong | .real32 => some (.fixed 4)
    | .real48 => some (.fixed 6)
    | .quadword | .uquadword | .real64 | .date | .complex32 => some (.fixed 8)
    | .real80 => some (.fixed 10)
    | .octword | .uoctword | .real128 | .decimal | .complex64 => some (.fixed 16)
    | .complex80 => some (.fixed 20)
    | .complex128 => some (.fixed 32)
    | .varString => some .counted
    | .utf8String => some .terminated
    | _ => none

/-- The bytes of a number of some form, without its leaf code. -/
def Form.payload : Form → Decoder Bytes
  | .fixed n => Decoder.take n
  | .counted => do
    let n ← Decoder.u16
    let bs ← Decoder.take n.toNat
    return Bytes.ofU16 n ++ bs
  | .terminated => Bytes.ofText <$> Decoder.text

def decode : Decoder Numeric := do
  let leaf ← Leaf.mk <$> Decoder.u16
  match form? leaf with
  | none => Decoder.fail
  | some form => Numeric.mk leaf <$> form.payload

/-- What is left of the input when no number can be read from it: a leaf code has been consumed, and
so has the length of a counted string. -/
def leftover (bs : Bytes) : Bytes :=
  match Decoder.u16 bs with
  | none => bs
  | some (code, r) =>
    if form? ⟨code⟩ = some .counted then
      match Decoder.u16 r with
      | none => r
      | some (_, r') => r'
    else r

def encode (n : Numeric) : Bytes := Bytes.ofU16 n.leaf.code ++ n.payload

/-! ### Integers -/

/-- The integer of `width` bits whose two's complement is `bits`. -/
def signedValue (width bits : Nat) : Int :=
  if bits < 2 ^ (width - 1) then bits else bits - 2 ^ width

/-- The bits of an integer, with their number, and whether they are a two's complement. -/
structure Bits where
  bits : Nat
  width : Nat
  signed : Bool
  deriving DecidableEq, Repr

/-- The integer that the bits stand for. -/
def Bits.value (b : Bits) : Int := if b.signed then signedValue b.width b.bits else b.bits

/-- The bits brought to 128 bits, by the sign or by zeros. -/
def Bits.extended (b : Bits) (bySign : Bool) : Nat :=
  ((if bySign then signedValue b.width b.bits else b.bits) % 2 ^ 128).toNat

/-- The width and the signedness of an integer leaf. -/
def integerForm? : Leaf → Option (Nat × Bool)
  | .char => some (8, true)
  | .short => some (16, true)
  | .ushort => some (16, false)
  | .long => some (32, true)
  | .ulong => some (32, false)
  | .quadword => some (64, true)
  | .uquadword => some (64, false)
  | .octword => some (128, true)
  | .uoctword => some (128, false)
  | _ => none

/-- The bits of an integer; reals and strings have none. -/
def bits? (n : Numeric) : Option Bits :=
  if n.leaf.isImmediate then some ⟨n.leaf.code.toNat, 16, false⟩
  else (integerForm? n.leaf).map fun (width, signed) => ⟨Bytes.leNat n.payload, width, signed⟩

def value? (n : Numeric) : Option Int := n.bits?.map Bits.value

/-- The number as a signed 128-bit integer; an unsigned number of 128 bits wraps around. -/
def int128? (n : Numeric) : Option Int :=
  n.bits?.map fun b => signedValue 128 (b.extended b.signed)

/-- The integer that a number denotes, if it is between `lo` and `hi`. -/
def inRange? (n : Numeric) (lo hi : Int) : Option Int :=
  n.value?.filter fun v => lo ≤ v ∧ v ≤ hi

def int32? (n : Numeric) : Option Int := n.inRange? (-2 ^ 31) (2 ^ 31 - 1)
def int64? (n : Numeric) : Option Int := n.inRange? (-2 ^ 63) (2 ^ 63 - 1)
def uint32? (n : Numeric) : Option Int := n.inRange? 0 (2 ^ 32 - 1)
def uint64? (n : Numeric) : Option Int := n.inRange? 0 (2 ^ 64 - 1)

/-- The number as a size or an offset: a natural number below `2 ^ 64`. -/
def size? (n : Numeric) : Option Nat :=
  (n.int128?.filter fun v => 0 ≤ v ∧ v < 2 ^ 64).map Int.toNat

/-- The text of a number: an integer in decimal, and anything else as its leaf and its bytes. -/
def text (n : Numeric) : String :=
  match n.value? with
  | some v => toString v
  | none => s!"{n.leaf.name}({Text.hexGroups n.payload})"

/-- The message for a number that a 32-bit integer cannot hold. -/
def misfitMessage : String := "numeric leaf does not fit the requested integer type"

/-- A natural number below `2 ^ 64`, in the narrowest unsigned form. -/
def ofNat (v : Nat) : Numeric :=
  if v < 0x8000 then ⟨⟨UInt16.ofNat v⟩, []⟩
  else if v < 2 ^ 32 then ⟨.ulong, Bytes.leBytes 4 v⟩
  else ⟨.uquadword, Bytes.leBytes 8 v⟩

/-- An integer of 64 bits, in the narrowest form: unsigned from 0 to `0x7fff`, and signed else. -/
def ofInt (v : Int) : Numeric :=
  if 0 ≤ v ∧ v < 0x8000 then ⟨⟨UInt16.ofNat v.toNat⟩, []⟩
  else if -2 ^ 7 ≤ v ∧ v < 2 ^ 7 then ⟨.char, Bytes.leBytes 1 (v % 2 ^ 8).toNat⟩
  else if -2 ^ 15 ≤ v ∧ v < 2 ^ 15 then ⟨.short, Bytes.leBytes 2 (v % 2 ^ 16).toNat⟩
  else if -2 ^ 31 ≤ v ∧ v < 2 ^ 31 then ⟨.long, Bytes.leBytes 4 (v % 2 ^ 32).toNat⟩
  else ⟨.quadword, Bytes.leBytes 8 (v % 2 ^ 64).toNat⟩

instance payloadLocal : (f : Form) → Decoder.Local f.payload
  | .fixed n => Decoder.takeLocal n
  | .counted => by unfold Form.payload; infer_instance
  | .terminated => Decoder.mapLocal _ _

instance decodeLocal : Decoder.Local decode := by
  unfold decode
  refine @Decoder.bindLocal _ _ _ _ inferInstance fun leaf => ?_
  split <;> infer_instance

end Numeric
end Pdb
