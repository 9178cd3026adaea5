import Mathlib.Tactic.SplitIfs
import Mathlib.Tactic.ByContra
import Pdb.Proofs.MemberEncoding

/-! # What a number in a record denotes

`Denotes` says what integer a number stands for by its bytes alone: they are the low bits of an integer
of the width and the signedness of the leaf. A number that was read has the bytes that its leaf asks for
(`yields_decode`), so it denotes exactly one integer, or none if its leaf is not one of an integer.
Nothing is lost on the way through 128 bits (`Bits.wide_eq`), and what is written for an integer of 64
bits denotes that integer (`denotes_ofInt`, `denotes_ofNat`).
-/

namespace Pdb
open Decoder

theorem Bytes.leNat_lt_two_pow (bs : Bytes) : leNat bs < 2 ^ (8 * bs.length) := by
  have hlt := leNat_lt bs
  rwa [show (256 : Nat) = 2 ^ 8 from rfl, ← Nat.pow_mul] at hlt

namespace Numeric
variable {n : Numeric} {b : Bits}

/-! ### Bits -/

/-- An integer leaf has as many bytes as its width says. -/
theorem form?_of_integerForm? {l : Leaf} {width : Nat} {signed : Bool}
    (h : integerForm? l = some (width, signed)) :
    form? l = some (.fixed (width / 8)) ∧ 8 ∣ width ∧ 0 < width ∧ width ≤ 128 := by
  unfold integerForm? at h
  split at h <;> first | (cases h; decide) | exact nomatch h

theorem WellFormed.bits_lt (h : n.WellFormed) (hb : n.bits? = some b) :
    b.bits < 2 ^ b.width ∧ 0 < b.width ∧ b.width ≤ 128 := by
  rw [bits?] at hb
  split at hb
  · obtain rfl := Option.some.inj hb
    exact ⟨n.leaf.code.toNat_lt, Nat.zero_lt_succ 15, Nat.le_add_right 16 112⟩
  · obtain ⟨⟨width, signed⟩, hinteger, rfl⟩ := Option.map_eq_some_iff.1 hb
    obtain ⟨hform, ⟨k, rfl⟩, hpos, hle⟩ := form?_of_integerForm? hinteger
    obtain ⟨form, hform', hfits⟩ := h
    obtain rfl := Option.some.inj (hform.symm.trans hform')
    refine ⟨?_, hpos, hle⟩
    have hlength : n.payload.length = k := by
      rw [Nat.mul_div_cancel_left k (by decide)] at hfits
      exact hfits
    exact hlength ▸ Bytes.leNat_lt_two_pow n.payload

theorem cast_two_pow (k : Nat) : ((2 ^ k : Nat) : Int) = 2 ^ k := by
  push_cast
  rfl

theorem signedValue_succ (k bits : Nat) :
    signedValue (k + 1) bits = if bits < 2 ^ k then (bits : Int) else bits - 2 * (2 ^ k : Nat) := by
  rw [signedValue, Nat.add_sub_cancel, cast_two_pow, Int.pow_succ, Int.mul_comm]

/-- A two's complement of at most 128 bits is read again from its low 128 bits. -/
theorem signedValue_extended {width bits : Nat} (hpos : 0 < width) (hle : width ≤ 128)
    (hbits : bits < 2 ^ width) :
    signedValue 128 (signedValue width bits % 2 ^ 128).toNat = signedValue width bits := by
  obtain ⟨k, rfl⟩ := Nat.exists_eq_succ_of_ne_zero (Nat.ne_of_gt hpos)
  have hpow : 2 ^ k ≤ 2 ^ 127 := Nat.pow_le_pow_right (by decide) (by omega)
  rw [Nat.pow_succ] at hbits
  rw [Nat.succ_eq_add_one, signedValue_succ k bits]
  generalize 2 ^ k = p at *
  rw [signedValue]
  split <;> split <;> omega

/-- The integer can be written with `width` bits, as a two's complement or without a sign. -/
def Fits (width : Nat) (signed : Bool) (v : Int) : Prop :=
  if signed then -2 ^ (width - 1) ≤ v ∧ v < 2 ^ (width - 1) else 0 ≤ v ∧ v < 2 ^ width

instance (width : Nat) (signed : Bool) (v : Int) : Decidable (Fits width signed v) :=
  inferInstanceAs (Decidable (if signed then _ ∧ _ else _ ∧ _))

theorem fits_succ {k : Nat} {signed : Bool} {v : Int} : Fits (k + 1) signed v ↔
    if signed then -(2 ^ k : Nat) ≤ v ∧ v < (2 ^ k : Nat) else 0 ≤ v ∧ v < (2 ^ k * 2 : Nat) := by
  rw [Fits, Nat.add_sub_cancel, ← cast_two_pow, ← cast_two_pow, Nat.pow_succ]

theorem emod_of_neg {v m : Int} (hneg : v < 0) (hle : -m ≤ v) : v % m = v + m := by
  rw [← Int.add_emod_right, Int.emod_eq_of_lt] <;> omega

namespace Bits
variable {b : Bits} {bits width : Nat} {signed : Bool} {v : Int}

theorem fits_value (hbits : b.bits < 2 ^ b.width) (hwidth : 0 < b.width) :
    Fits b.width b.signed b.value := by
  obtain ⟨k, hk⟩ := Nat.exists_eq_succ_of_ne_zero (Nat.ne_of_gt hwidth)
  rw [hk, Nat.succ_eq_add_one, Nat.pow_succ] at hbits
  rw [value, hk, Nat.succ_eq_add_one, fits_succ, signedValue_succ]
  generalize 2 ^ k = p at *
  cases b.signed <;> simp only [Bool.false_eq_true, if_true, if_false]
  · omega
  · split <;> omega

/-- The bits are the low bits of the integer. -/
theorem emod_value (b : Bits) : (b.bits : Int) % 2 ^ b.width = b.value % 2 ^ b.width := by
  rw [value, signedValue]
  split
  · split
    · rfl
    · rw [Int.sub_emod_right]
  · rfl

/-- An integer that can be written with some bits is known by its remainder. -/
theorem value_of_emod (hwidth : 0 < width) (hbits : bits < 2 ^ width)
    (hmod : (bits : Int) % 2 ^ width = v % 2 ^ width) (hfits : Fits width signed v) :
    value ⟨bits, width, signed⟩ = v := by
  obtain ⟨k, rfl⟩ := Nat.exists_eq_succ_of_ne_zero (Nat.ne_of_gt hwidth)
  rw [Nat.succ_eq_add_one] at hmod hfits ⊢
  rw [← cast_two_pow, Int.emod_eq_of_lt (Int.natCast_nonneg bits) (Int.ofNat_lt.2 hbits), Nat.pow_succ]
    at hmod
  rw [fits_succ] at hfits
  rw [value, signedValue_succ]
  generalize 2 ^ k = p at *
  cases signed <;> simp only [Bool.false_eq_true, if_true, if_false] at hfits ⊢
  · rw [hmod]
    exact Int.emod_eq_of_lt hfits.1 hfits.2
  · by_cases hneg : v < 0
    · rw [emod_of_neg hneg (by omega)] at hmod
      rw [if_neg (by omega)]
      omega
    · rw [Int.emod_eq_of_lt (by omega) (by omega)] at hmod
      rw [if_pos (by omega), hmod]

theorem testBit_pred_width (hbits : b.bits < 2 ^ b.width) (hwidth : 0 < b.width) :
    b.bits.testBit (b.width - 1) = true ↔ 2 ^ (b.width - 1) ≤ b.bits := by
  constructor
  · exact Nat.ge_two_pow_of_testBit
  · intro hle
    refine Nat.testBit_of_two_pow_le_and_two_pow_add_one_gt hle ?_
    rwa [Nat.sub_add_cancel hwidth]

/-- Extending by the sign is setting all bits above it. -/
theorem extended_eq (hbits : b.bits < 2 ^ b.width) (hwidth : b.width ≤ 128) (bySign : Bool) :
    b.extended bySign
      = if bySign ∧ 0 < b.width ∧ b.width < 128 ∧ b.bits.testBit (b.width - 1)
        then b.bits ||| (2 ^ (128 - b.width) - 1) <<< b.width else b.bits := by
  have hpow : 2 ^ b.width ≤ 2 ^ 128 := Nat.pow_le_pow_right (by decide) hwidth
  have hsame : ((b.bits : Int) % 2 ^ 128).toNat = b.bits := by omega
  cases bySign with
  | false => rw [extended, if_neg (by simp), if_neg (by simp), hsame]
  | true =>
    rw [extended, if_pos rfl, signedValue]
    split_ifs with hsmall hset hset
    · have hle := (testBit_pred_width hbits hset.2.1).1 hset.2.2.2
      exact absurd hsmall (Nat.not_lt.2 hle)
    · exact hsame
    · have hlow := Nat.shiftLeft_add_eq_or_of_lt hbits (2 ^ (128 - b.width) - 1)
      rw [Nat.or_comm, ← hlow, Nat.shiftLeft_eq, Nat.sub_mul, ← Nat.pow_add, Nat.sub_add_cancel hwidth, Nat.one_mul]
      have hcast : ((2 ^ b.width : Nat) : Int) = 2 ^ b.width := by push_cast; rfl
      rw [← hcast]
      omega
    · rcases Nat.eq_zero_or_pos b.width with hzero | hpos
      · rw [hzero] at hsmall
        rw [hzero] at hbits
        omega
      · have hfull : b.width = 128 := by
          by_contra hne
          refine hset ⟨rfl, hpos, by omega, (testBit_pred_width hbits hpos).2 (Nat.not_lt.1 hsmall)⟩
        rw [hfull, Int.sub_emod_right, hsame]

/-- The integer by way of 128 bits: those with the sign for a two's complement, and else the bits as
they are. -/
def wide (b : Bits) : Int := if b.signed then signedValue 128 (b.extended true) else b.bits

theorem wide_eq (hbits : b.bits < 2 ^ b.width) (hpos : 0 < b.width) (hwidth : b.width ≤ 128) :
    b.wide = b.value := by
  rw [wide, value]
  split
  · exact signedValue_extended hpos hwidth hbits
  · rfl

end Bits

theorem size?_eq (h : n.WellFormed) : n.size? = n.uint64?.map Int.toNat := by
  rw [size?, int128?, uint64?, inRange?, value?]
  cases hb : n.bits? with
  | none => rfl
  | some b =>
    obtain ⟨hlt, hpos, hle⟩ := h.bits_lt hb
    have hpow : 2 ^ b.width ≤ 2 ^ 128 := Nat.pow_le_pow_right (by decide) hle
    rw [Option.map_some, Option.map_some, Bits.extended, Bits.value, Option.filter_some, Option.filter_some]
    by_cases hsigned : b.signed
    · simp only [hsigned, if_true, signedValue_extended hpos hle hlt, Int.le_sub_one_iff]
    · -- an unsigned number from 2 ^ 127 on wraps around, and is too great in either way
      have hsame : ((b.bits : Int) % 2 ^ 128).toNat = b.bits := by omega
      simp only [hsigned, if_false, Bool.false_eq_true, hsame, Int.le_sub_one_iff]
      rw [signedValue]
      split
      · rfl
      · rw [if_neg, if_neg] <;> simp <;> omega


/-! ### Integers -/

/-- The integer for which a number stands. A leaf code below `0x8000` is the integer itself; behind a
leaf of an integer stand the low bits of an integer of its width and signedness. -/
inductive Denotes : Numeric → Int → Prop
  | immediate {code : UInt16} (h : code.toNat < 0x8000) : Denotes ⟨⟨code⟩, []⟩ code.toNat
  | integer {leaf payload width signed v} (hleaf : integerForm? leaf = some (width, signed))
    (hlength : 8 * payload.length = width) (hfits : Fits width signed v)
    (hmod : (Bytes.leNat payload : Int) % 2 ^ width = v % 2 ^ width) : Denotes ⟨leaf, payload⟩ v

/-- The leaf is one of an integer. -/
def IsInteger (n : Numeric) : Prop :=
  n.leaf.code.toNat < 0x8000 ∨ ∃ form, integerForm? n.leaf = some form

variable {v : Int}

theorem isImmediate_iff {l : Leaf} : l.isImmediate = true ↔ l.code.toNat < 0x8000 := by
  rw [Leaf.isImmediate, decide_eq_true_iff]
  exact Iff.rfl

theorem form?_of_immediate {l : Leaf} (h : l.code.toNat < 0x8000) : form? l = some (.fixed 0) := by
  unfold form?
  rw [if_pos (isImmediate_iff.2 h)]

/-- No leaf of an integer stands for itself. -/
theorem not_isImmediate {l : Leaf} {form : Nat × Bool} (h : integerForm? l = some form) :
    l.isImmediate = false := by
  unfold integerForm? at h
  split at h <;> first | rfl | exact nomatch h

theorem bits?_of_integerForm? {form : Nat × Bool} (h : integerForm? n.leaf = some form) :
    n.bits? = some ⟨Bytes.leNat n.payload, form.1, form.2⟩ := by
  rw [bits?, not_isImmediate h, if_neg Bool.false_ne_true, h]
  rfl

namespace Denotes

theorem wellFormed (h : n.Denotes v) : n.WellFormed := by
  cases h with
  | immediate hcode =>
    exact ⟨.fixed 0, form?_of_immediate hcode, rfl⟩
  | @integer leaf payload width signed v hleaf hlength hfits hmod =>
    obtain ⟨hform, -, -, -⟩ := form?_of_integerForm? hleaf
    refine ⟨_, hform, ?_⟩
    show payload.length = width / 8
    rw [← hlength, Nat.mul_div_cancel_left _ (by decide)]

theorem exists_bits (h : n.Denotes v) : ∃ b, n.bits? = some b ∧ b.value = v := by
  cases h with
  | @immediate code hcode =>
    refine ⟨⟨code.toNat, 16, false⟩, ?_, rfl⟩
    rw [bits?, if_pos (isImmediate_iff.2 hcode)]
  | @integer leaf payload width signed v hleaf hlength hfits hmod =>
    obtain ⟨-, -, hpos, -⟩ := form?_of_integerForm? hleaf
    refine ⟨_, bits?_of_integerForm? hleaf, ?_⟩
    refine Bits.value_of_emod hpos ?_ hmod hfits
    rw [← hlength]
    exact Bytes.leNat_lt_two_pow payload

theorem value?_eq (h : n.Denotes v) : n.value? = some v := by
  obtain ⟨b, hb, hv⟩ := h.exists_bits
  rw [value?, hb, Option.map_some, hv]

theorem unique {w : Int} (h : n.Denotes v) (h' : n.Denotes w) : v = w :=
  Option.some.inj (h.value?_eq.symm.trans h'.value?_eq)

theorem isInteger (h : n.Denotes v) : n.IsInteger := by
  cases h with
  | immediate hcode => exact .inl hcode
  | integer hleaf => exact .inr ⟨_, hleaf⟩

end Denotes

/-- A number with the bytes of an integer leaf denotes an integer. -/
theorem WellFormed.exists_denotes (h : n.WellFormed) (hinteger : n.IsInteger) : ∃ v, n.Denotes v := by
  obtain ⟨form, hform, hfits⟩ := h
  obtain ⟨leaf, payload⟩ := n
  rcases hinteger with hcode | ⟨⟨width, signed⟩, hleaf⟩
  · have hpayload : payload = [] := by
      obtain rfl := Option.some.inj ((form?_of_immediate hcode).symm.trans hform)
      exact List.eq_nil_of_length_eq_zero hfits
    rw [hpayload]
    exact ⟨_, .immediate hcode⟩
  · obtain ⟨hform', hdvd, hpos, hle⟩ := form?_of_integerForm? hleaf
    obtain rfl := Option.some.inj (hform'.symm.trans hform)
    have hlength : 8 * payload.length = width := by
      rw [show payload.length = width / 8 from hfits, Nat.mul_div_cancel' hdvd]
    have hbits : Bytes.leNat payload < 2 ^ width := hlength ▸ Bytes.leNat_lt_two_pow payload
    let b : Bits := ⟨Bytes.leNat payload, width, signed⟩
    exact ⟨b.value, .integer hleaf hlength (@Bits.fits_value b hbits hpos) b.emod_value⟩

/-- The bits of a number that is not an integer. -/
theorem bits?_of_not_isInteger (h : ¬ n.IsInteger) : n.bits? = none := by
  rw [IsInteger, not_or, not_exists] at h
  rw [bits?, if_neg (mt isImmediate_iff.1 h.1), Option.eq_none_iff_forall_ne_some.2 h.2]
  rfl

theorem WellFormed.denotes_iff (h : n.WellFormed) : n.Denotes v ↔ n.value? = some v := by
  refine ⟨Denotes.value?_eq, fun hv => ?_⟩
  have hinteger : n.IsInteger := by
    by_contra hinteger
    rw [value?, bits?_of_not_isInteger hinteger] at hv
    exact nomatch hv
  obtain ⟨w, hw⟩ := h.exists_denotes hinteger
  rwa [Option.some.inj (hv.symm.trans hw.value?_eq)]

/-! ### What is made of a number -/

/-- What is made of a number that denotes `v`: its bits, which are `v` also by way of 128 bits, the
text, and each conversion, which is `v` if that is in its range and else nothing. -/
structure Exact (n : Numeric) (v : Int) : Prop where
  bits : ∃ b, n.bits? = some b ∧ b.value = v ∧ b.wide = v
  text : n.text = toString v
  int32 : n.int32? = if -2 ^ 31 ≤ v ∧ v < 2 ^ 31 then some v else none
  int64 : n.int64? = if -2 ^ 63 ≤ v ∧ v < 2 ^ 63 then some v else none
  uint32 : n.uint32? = if 0 ≤ v ∧ v < 2 ^ 32 then some v else none
  uint64 : n.uint64? = if 0 ≤ v ∧ v < 2 ^ 64 then some v else none

/-- Nothing is made of a number that is not an integer. -/
structure Refused (n : Numeric) : Prop where
  bits : n.bits? = none
  int32 : n.int32? = none
  int64 : n.int64? = none
  uint32 : n.uint32? = none
  uint64 : n.uint64? = none

theorem inRange?_of_value? {lo hi : Int} (h : n.value? = some v) :
    n.inRange? lo (hi - 1) = if lo ≤ v ∧ v < hi then some v else none := by
  rw [inRange?, h, Option.filter_some]
  simp only [Int.le_sub_one_iff, decide_eq_true_eq]

theorem inRange?_of_bits? {lo hi : Int} (h : n.bits? = none) : n.inRange? lo hi = none := by
  rw [inRange?, value?, h]
  rfl

theorem Denotes.exact (h : n.Denotes v) : n.Exact v where
  bits := by
    obtain ⟨b, hb, hv⟩ := h.exists_bits
    obtain ⟨hbits, hpos, hwidth⟩ := h.wellFormed.bits_lt hb
    exact ⟨b, hb, hv, (b.wide_eq hbits hpos hwidth).trans hv⟩
  text := by rw [text, h.value?_eq]
  int32 := inRange?_of_value? h.value?_eq
  int64 := inRange?_of_value? h.value?_eq
  uint32 := inRange?_of_value? h.value?_eq
  uint64 := inRange?_of_value? h.value?_eq

theorem refused (h : ¬ n.IsInteger) : n.Refused :=
  have hbits := bits?_of_not_isInteger h
  { bits := hbits
    int32 := inRange?_of_bits? hbits
    int64 := inRange?_of_bits? hbits
    uint32 := inRange?_of_bits? hbits
    uint64 := inRange?_of_bits? hbits }

/-! ### Numbers as they are written -/

/-- The low bytes of an integer, behind a leaf whose width and signedness it has. -/
theorem denotes_leBytes {leaf : Leaf} {k bits : Nat} {signed : Bool}
    (hleaf : integerForm? leaf = some (8 * k, signed)) (hfits : Fits (8 * k) signed v)
    (hbits : (bits : Int) % 2 ^ (8 * k) = v % 2 ^ (8 * k)) :
    Denotes ⟨leaf, Bytes.leBytes k bits⟩ v := by
  refine .integer hleaf (by rw [Bytes.length_leBytes]) hfits ?_
  rw [Bytes.leNat_leBytes, show (256 : Nat) = 2 ^ 8 from rfl, ← Nat.pow_mul, Int.natCast_emod,
    cast_two_pow, Int.emod_emod, hbits]

theorem denotes_immediate {m : Nat} (h : m < 0x8000) : Denotes ⟨⟨UInt16.ofNat m⟩, []⟩ m := by
  have hcode : (UInt16.ofNat m).toNat = m := UInt16.toNat_ofNat_of_lt' (Nat.lt_trans h (by decide))
  have hdenotes := @Denotes.immediate (UInt16.ofNat m) (by rwa [hcode])
  rwa [hcode] at hdenotes

theorem denotes_ofNat {m : Nat} (h : m < 2 ^ 64) : (ofNat m).Denotes m := by
  rw [ofNat]
  split_ifs with hsmall hlong
  · exact denotes_immediate hsmall
  · exact denotes_leBytes rfl (by constructor <;> omega) rfl
  · exact denotes_leBytes rfl (by constructor <;> omega) rfl

theorem denotes_ofInt (h : -2 ^ 63 ≤ v ∧ v < 2 ^ 63) : (ofInt v).Denotes v := by
  have hlow (k : Nat) : (((v % 2 ^ (8 * k)).toNat : Nat) : Int) % 2 ^ (8 * k) = v % 2 ^ (8 * k) := by
    rw [Int.toNat_of_nonneg (Int.emod_nonneg _ (Int.pow_ne_zero (by decide))), Int.emod_emod]
  rw [ofInt]
  split_ifs with hsmall hchar hshort hlong
  · have hdenotes := @denotes_immediate v.toNat (by omega)
    rwa [Int.toNat_of_nonneg hsmall.1] at hdenotes
  · exact denotes_leBytes rfl hchar (hlow 1)
  · exact denotes_leBytes rfl hshort (hlow 2)
  · exact denotes_leBytes rfl hlong (hlow 4)
  · exact denotes_leBytes rfl h (hlow 8)

/-! ### What is consumed -/

theorem eq_of_u16 {bs r : Bytes} {w : UInt16} (h : u16 bs = some (w, r)) : bs = Bytes.ofU16 w ++ r := by
  obtain ⟨⟨m, after⟩, hword, heq⟩ := Option.bind_eq_some_iff.1 h
  cases heq
  obtain ⟨⟨front, after⟩, htake, heq⟩ := Option.map_eq_some_iff.1 hword
  cases heq
  obtain ⟨rfl, hlength⟩ := take_eq_some htake
  have hlt : Bytes.leNat front < 2 ^ 16 := by
    have hlt := Bytes.leNat_lt front
    rwa [hlength] at hlt
  have hbytes := Bytes.leBytes_leNat front
  rw [hlength] at hbytes
  rw [Bytes.ofU16, UInt16.toNat_ofNat_of_lt' hlt, hbytes]

theorem Form.eq_of_payload {form : Form} {bs payload r : Bytes}
    (h : form.payload bs = some (payload, r)) : bs = payload ++ r := by
  cases form with
  | fixed k => exact (take_eq_some h).1
  | counted =>
    obtain ⟨⟨w, after⟩, hcount, hrest⟩ := Option.bind_eq_some_iff.1 h
    obtain ⟨⟨front, after'⟩, htake, heq⟩ := Option.bind_eq_some_iff.1 hrest
    cases heq
    rw [eq_of_u16 hcount, (take_eq_some htake).1, List.append_assoc]
  | terminated =>
    obtain ⟨⟨name, after⟩, htext, heq⟩ := Option.bind_eq_some_iff.1 h
    cases heq
    rw [(text_eq_some htext).1, Bytes.ofText, List.append_assoc]
    rfl

theorem eq_of_decode {bs rest : Bytes} (h : decode bs = some (n, rest)) : bs = n.encode ++ rest := by
  obtain ⟨⟨leaf, after⟩, hleaf, hrest⟩ := Option.bind_eq_some_iff.1 h
  obtain ⟨⟨code, after'⟩, hcode, heq⟩ := Option.bind_eq_some_iff.1 hleaf
  cases heq
  dsimp only at hrest
  cases hform : form? ⟨code⟩ with
  | none =>
    rw [hform] at hrest
    exact nomatch hrest
  | some form =>
    rw [hform] at hrest
    obtain ⟨⟨payload, after''⟩, hpayload, heq⟩ := Option.bind_eq_some_iff.1 hrest
    cases heq
    rw [eq_of_u16 hcode, Form.eq_of_payload hpayload, encode, List.append_assoc]

/-- A number is read from a prefix, whatever follows. An integer leaf denotes exactly one integer, of
which everything that is made of the number is made; of any other leaf nothing is made. A size is the
number as a natural number of 64 bits. What is written for an integer of 64 bits is read to its end,
and denotes that integer. -/
theorem decode_exact :
    (∀ (bs rest : Bytes) (n : Numeric), decode bs = some (n, rest) →
      (bs = n.encode ++ rest ∧ ∀ rest', decode (n.encode ++ rest') = some (n, rest'))
      ∧ (n.IsInteger → ∃ v, n.Denotes v ∧ (∀ w, n.Denotes w → w = v) ∧ n.Exact v)
      ∧ (¬ n.IsInteger → (∀ v, ¬ n.Denotes v) ∧ n.Refused)
      ∧ n.size? = n.uint64?.map Int.toNat)
    ∧ (∀ i : Int64, decode (ofInt i.toInt).encode = some (ofInt i.toInt, [])
      ∧ (ofInt i.toInt).Denotes i.toInt)
    ∧ ∀ u : UInt64, decode (ofNat u.toNat).encode = some (ofNat u.toNat, [])
      ∧ (ofNat u.toNat).Denotes u.toNat := by
  refine ⟨fun bs rest n h => ⟨⟨eq_of_decode h, ?_⟩, ?_, ?_, ?_⟩, fun i => ?_, fun u => ?_⟩
  · exact reads_decode (yields_decode _ _ _ h)
  · intro hinteger
    obtain ⟨v, hv⟩ := (yields_decode _ _ _ h).exists_denotes hinteger
    exact ⟨v, hv, fun w hw => hw.unique hv, hv.exact⟩
  · exact fun hinteger => ⟨fun v hv => hinteger hv.isInteger, refused hinteger⟩
  · exact size?_eq (yields_decode _ _ _ h)
  · have hdenotes := denotes_ofInt ⟨i.le_toInt, i.toInt_lt⟩
    exact ⟨(reads_decode hdenotes.wellFormed).end_, hdenotes⟩
  · have hdenotes := denotes_ofNat u.toNat_lt
    exact ⟨(reads_decode hdenotes.wellFormed).end_, hdenotes⟩

/-- The byte behind the leaf is -2, and not 254. -/
theorem decode_exact_char : decode [0x00, 0x80, 0xfe, 7] = some (⟨.char, [0xfe]⟩, [7])
    ∧ IsInteger ⟨.char, [0xfe]⟩ ∧ Exact ⟨.char, [0xfe]⟩ (-2) := by
  have hread : decode [0x00, 0x80, 0xfe, 7] = some (⟨.char, [0xfe]⟩, [7]) := by decide +kernel
  have hinteger : IsInteger ⟨.char, [0xfe]⟩ := .inr ⟨(8, true), rfl⟩
  have hdenotes : Denotes ⟨.char, [0xfe]⟩ (-2) := .integer rfl rfl (by decide) (by decide)
  obtain ⟨-, hexact, -, -⟩ := decode_exact.1 _ _ _ hread
  obtain ⟨v, -, honly, hv⟩ := hexact hinteger
  obtain rfl := honly _ hdenotes
  exact ⟨hread, hinteger, hv⟩

end Numeric
end Pdb
