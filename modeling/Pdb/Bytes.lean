/-! # Byte strings and little-endian words

Everything in a program database is a byte string: records, streams, pages. A word of `w` bytes is
stored least significant byte first. Main statements: `leNat_leBytes` and `leBytes_leNat`, the two
round trips between `w` bytes and the naturals below `256 ^ w`. -/

namespace Pdb

/-- A power of a number is core's, also in a module that imports an algebra with its own. -/
@[default_instance 20000]
instance (priority := 20000) powNat {α : Type} [NatPow α] : Pow α Nat := instPowNat

abbrev Bytes := List UInt8

namespace Bytes

/-- The `w` low bytes of `n`, least significant first. -/
def leBytes : Nat → Nat → Bytes
  | 0, _ => []
  | w + 1, n => UInt8.ofNat n :: leBytes w (n / 256)

/-- The natural number whose bytes are `bs`, least significant first. -/
def leNat : Bytes → Nat
  | [] => 0
  | b :: bs => b.toNat + 256 * leNat bs

@[simp] theorem length_leBytes (w n : Nat) : (leBytes w n).length = w := by
  induction w generalizing n with
  | zero => rfl
  | succ w ih => simp [leBytes, ih]

theorem leNat_leBytes (w n : Nat) : leNat (leBytes w n) = n % 256 ^ w := by
  induction w generalizing n with
  | zero => simp [leBytes, leNat, Nat.mod_one]
  | succ w ih => rw [leBytes, leNat, ih, Nat.pow_succ', Nat.mod_mul, UInt8.toNat_ofNat']

theorem leNat_lt (bs : Bytes) : leNat bs < 256 ^ bs.length := by
  induction bs with
  | nil => simp [leNat]
  | cons b bs ih =>
    have hb : b.toNat < 256 := b.toNat_lt
    rw [leNat, List.length_cons, Nat.pow_succ]
    omega

theorem leBytes_leNat (bs : Bytes) : leBytes bs.length (leNat bs) = bs := by
  induction bs with
  | nil => rfl
  | cons b bs ih =>
    have hb : b.toNat < 256 := b.toNat_lt
    have hdiv : (b.toNat + 256 * leNat bs) / 256 = leNat bs := by omega
    rw [List.length_cons, leNat, leBytes, hdiv, ih]
    congr 1
    apply UInt8.toNat_inj.mp
    simp only [UInt8.toNat_ofNat']
    omega

/-! ### Words -/

def ofU16 (x : UInt16) : Bytes := leBytes 2 x.toNat
def ofU32 (x : UInt32) : Bytes := leBytes 4 x.toNat
def ofU64 (x : UInt64) : Bytes := leBytes 8 x.toNat

/-- A NUL-terminated text. -/
def ofText (s : Bytes) : Bytes := s ++ [0]

def zeros (n : Nat) : Bytes := List.replicate n 0

/-- The number of bytes that bring a length up to the next multiple of four. -/
def padTo4 (n : Nat) : Nat := (4 - n % 4) % 4

/-- `old` with the bytes from `pos` on overwritten by `new`. -/
def overwrite (old : Bytes) (pos : Nat) (new : Bytes) : Bytes :=
  old.take pos ++ new ++ old.drop (pos + new.length)

end Bytes
end Pdb
