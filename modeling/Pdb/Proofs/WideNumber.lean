import Pdb.Proofs.NumericLeaf

/-! # Numbers as signed integers of 128 bits

All integer leaves but one have their integers between `-2 ^ 127` and `2 ^ 127`. An unsigned integer
of 128 bits may be greater, and then its bits are taken for a two's complement: what comes out is the
integer modulo `2 ^ 128` (`int128?_eq`), and it is neither the integer that the leaf denotes nor the
one that its text shows.
-/

namespace Pdb
open Decoder

namespace Numeric
variable {n : Numeric} {v : Int}

theorem signedValue_emod (v : Int) : signedValue 128 (v % 2 ^ 128).toNat = v.bmod (2 ^ 128) := by
  have hnonneg := Int.emod_nonneg v (show (2 ^ 128 : Int) ≠ 0 by decide)
  rw [signedValue, Int.bmod_def, Int.toNat_of_nonneg hnonneg]
  have hcast : ((2 ^ 128 : Nat) : Int) = 2 ^ 128 := by decide
  rw [hcast]
  split <;> split <;> omega

/-- What comes out is the integer of the least amount that has the same remainder. -/
theorem int128?_eq (n : Numeric) : n.int128? = n.value?.map (Int.bmod · (2 ^ 128)) := by
  rw [int128?, value?, Option.map_map]
  refine congrArg (n.bits?.map ·) (funext fun b => ?_)
  exact signedValue_emod b.value

theorem Denotes.int128?_eq (h : n.Denotes v) : n.int128? = some (v.bmod (2 ^ 128)) := by
  rw [Numeric.int128?_eq, h.value?_eq, Option.map_some]

theorem int128?_eq_none_iff (h : n.WellFormed) : n.int128? = none ↔ ¬ n.IsInteger := by
  constructor
  · intro hnone hinteger
    obtain ⟨v, hv⟩ := h.exists_denotes hinteger
    rw [hv.int128?_eq] at hnone
    exact nomatch hnone
  · intro hinteger
    rw [int128?, bits?_of_not_isInteger hinteger]
    rfl

/-- The only leaf whose integers take all of 128 bits without a sign. -/
theorem eq_uoctword {leaf : Leaf} (h : integerForm? leaf = some (128, false)) : leaf = .uoctword := by
  unfold integerForm? at h
  split at h <;> first | rfl | exact nomatch h

theorem fits_of_le {width : Nat} {signed : Bool} (hpos : 0 < width) (hle : width ≤ 128)
    (h : Fits width signed v) :
    -2 ^ 127 ≤ v ∧ (v < 2 ^ 127 ∨ v < 2 ^ 128 ∧ width = 128 ∧ signed = false) := by
  obtain ⟨k, rfl⟩ := Nat.exists_eq_succ_of_ne_zero (Nat.ne_of_gt hpos)
  rw [Nat.succ_eq_add_one, fits_succ] at h
  rcases Nat.lt_or_ge k 127 with hk | hk
  · have hpow : 2 ^ (k + 1) ≤ 2 ^ 127 := Nat.pow_le_pow_right (by decide) hk
    rw [Nat.pow_succ] at hpow
    generalize 2 ^ k = p at *
    cases signed <;> simp only [Bool.false_eq_true, if_true, if_false] at h <;> omega
  · obtain rfl : k = 127 := by omega
    cases signed with
    | false =>
      simp only [Bool.false_eq_true, if_false] at h
      exact ⟨by omega, .inr ⟨by omega, rfl, rfl⟩⟩
    | true =>
      simp only [if_true] at h
      omega

/-- An integer that is denoted is a signed one of 128 bits, or it is too great for that and stands
behind the leaf of the greatest unsigned ones. -/
theorem Denotes.range (h : n.Denotes v) :
    -2 ^ 127 ≤ v ∧ (v < 2 ^ 127 ∨ v < 2 ^ 128 ∧ n.leaf = .uoctword) := by
  cases h with
  | @immediate code hcode => omega
  | integer hleaf hlength hfits =>
    obtain ⟨-, -, hpos, hle⟩ := form?_of_integerForm? hleaf
    obtain ⟨hlow, hsmall | ⟨hlt, rfl, rfl⟩⟩ := fits_of_le hpos hle hfits
    · exact ⟨hlow, .inl hsmall⟩
    · exact ⟨hlow, .inr ⟨hlt, eq_uoctword hleaf⟩⟩

theorem bmod_of_lt (hlow : -2 ^ 127 ≤ v) (hlt : v < 2 ^ 127) : v.bmod (2 ^ 128) = v :=
  Int.bmod_eq_of_le (by omega) (by omega)

theorem bmod_of_le (hle : 2 ^ 127 ≤ v) (hlt : v < 2 ^ 128) : v.bmod (2 ^ 128) = v - 2 ^ 128 := by
  rw [← Int.sub_bmod_right v (2 ^ 128)]
  exact Int.bmod_eq_of_le (by omega) (by omega)

/-- The text of a negative integer has a sign. -/
theorem toString_ne_of_neg {v w : Int} (hv : 0 ≤ v) (hw : w < 0) : toString v ≠ toString w := by
  intro h
  have hdigits : ∀ c ∈ (toString v).toList, c.isDigit := by
    intro c hc
    rw [Int.toString_eq_repr, Int.repr_eq_if, if_pos hv, Nat.repr_eq_ofList_toDigits,
      String.toList_ofList] at hc
    exact Nat.isDigit_of_mem_toDigits (by decide) (by decide) hc
  have hsign : '-' ∈ (toString w).toList := by
    rw [Int.toString_eq_repr, Int.repr_eq_if, if_neg (Int.not_le.2 hw)]
    simp
  exact absurd (hdigits _ (h ▸ hsign)) (by decide)

/-- A number is a signed integer of 128 bits if and only if its leaf is that of an integer. It is the
integer that the leaf denotes, and that the text shows, if and only if that is below `2 ^ 127`. Else the
leaf is that of the greatest unsigned integers, and the integer is `2 ^ 128` less than the one denoted. -/
theorem int128?_eq_denoted_iff {bs rest : Bytes} (h : decode bs = some (n, rest)) :
    (n.int128? = none ↔ ¬ n.IsInteger)
    ∧ ∀ x, n.int128? = some x → ∃ v, n.Denotes v ∧ n.text = toString v
      ∧ (x = v ↔ v < 2 ^ 127) ∧ (n.text = toString x ↔ v < 2 ^ 127)
      ∧ (2 ^ 127 ≤ v → n.leaf = .uoctword ∧ x = v - 2 ^ 128) := by
  have hformed : n.WellFormed := yields_decode _ _ _ h
  refine ⟨int128?_eq_none_iff hformed, fun x hx => ?_⟩
  have hinteger : n.IsInteger := by
    by_contra hinteger
    rw [(int128?_eq_none_iff hformed).2 hinteger] at hx
    exact nomatch hx
  obtain ⟨v, hv⟩ := hformed.exists_denotes hinteger
  obtain rfl : v.bmod (2 ^ 128) = x := Option.some.inj (hv.int128?_eq.symm.trans hx)
  have htext : n.text = toString v := hv.exact.text
  have hshown (hsame : v.bmod (2 ^ 128) = v) : n.text = toString (v.bmod (2 ^ 128)) := by
    rw [htext, hsame]
  obtain ⟨hlow, hlt | ⟨hlt, hleaf⟩⟩ := hv.range
  · have hsame := bmod_of_lt hlow hlt
    exact ⟨v, hv, htext, iff_of_true hsame hlt, iff_of_true (hshown hsame) hlt, by omega⟩
  · by_cases hsmall : v < 2 ^ 127
    · have hsame := bmod_of_lt hlow hsmall
      exact ⟨v, hv, htext, iff_of_true hsame hsmall, iff_of_true (hshown hsame) hsmall, by omega⟩
    · have hwrapped := bmod_of_le (Int.not_lt.1 hsmall) hlt
      have hother : v.bmod (2 ^ 128) ≠ v := by omega
      have hunlike : n.text ≠ toString (v.bmod (2 ^ 128)) := by
        rw [htext]
        exact toString_ne_of_neg (by omega) (by omega)
      exact ⟨v, hv, htext, iff_of_false hother hsmall, iff_of_false hunlike hsmall,
        fun _ => ⟨hleaf, hwrapped⟩⟩

/-- The bytes of -1 with a sign. -/
theorem int128?_eq_denoted_iff_octword :
    decode (0x17 :: 0x80 :: List.replicate 16 0xff) = some (⟨.octword, List.replicate 16 0xff⟩, [])
    ∧ int128? ⟨.octword, List.replicate 16 0xff⟩ = some (-1)
    ∧ Denotes ⟨.octword, List.replicate 16 0xff⟩ (-1)
    ∧ text ⟨.octword, List.replicate 16 0xff⟩ = toString (-1 : Int) := by
  have hread : decode (0x17 :: 0x80 :: List.replicate 16 0xff)
      = some (⟨.octword, List.replicate 16 0xff⟩, []) := by decide +kernel
  have hdenotes : Denotes ⟨.octword, List.replicate 16 0xff⟩ (-1) :=
    .integer rfl rfl (by decide) (by decide)
  obtain ⟨v, hv, -, -, hshown, -⟩ := (int128?_eq_denoted_iff hread).2 _ hdenotes.int128?_eq
  obtain rfl := hv.unique hdenotes
  exact ⟨hread, hdenotes.int128?_eq, hdenotes, hshown.2 (by decide)⟩

/-- The same bytes without a sign: the greatest integer comes out as -1. -/
theorem int128?_wraps :
    decode (0x18 :: 0x80 :: List.replicate 16 0xff) = some (⟨.uoctword, List.replicate 16 0xff⟩, [])
    ∧ Denotes ⟨.uoctword, List.replicate 16 0xff⟩ (2 ^ 128 - 1)
    ∧ text ⟨.uoctword, List.replicate 16 0xff⟩ = "340282366920938463463374607431768211455"
    ∧ int128? ⟨.uoctword, List.replicate 16 0xff⟩ = some (-1) := by
  have hdenotes : Denotes ⟨.uoctword, List.replicate 16 0xff⟩ (2 ^ 128 - 1) :=
    .integer rfl rfl (by decide) (by decide)
  refine ⟨by decide +kernel, hdenotes, ?_, hdenotes.int128?_eq⟩
  rw [hdenotes.exact.text]
  decide +kernel

end Numeric
end Pdb
