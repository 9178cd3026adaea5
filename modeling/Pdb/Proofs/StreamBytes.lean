import Pdb.Proofs.ReadPaths

/-! # The bytes of a stream one by one

A position has a byte if the image goes that far on its page; nothing else is asked of the pages.
Whatever is read is made of these bytes (`getElem?_of_gather`, `exists_gather_eq_ok`): pages cut a
request into runs, but no request depends on how another one is cut. So what has been read as a
whole can be read piece by piece: `copy_within`.
-/

namespace Pdb.PagedStream
variable {s : PagedStream} {offset pos size i n page : Nat} {next : List Nat} {bs : Bytes}

/-- The offset in the image of a position, if there is a page for it. -/
def offsetOf? (s : PagedStream) (pos : Nat) : Option Nat :=
  s.pages[pos / s.pageSize.bytes]?.map fun page =>
    s.pageSize.pageStart page + s.pageSize.offsetInPage pos

/-- The byte at a position, if the image has it. -/
def byte? (s : PagedStream) (pos : Nat) : Option UInt8 :=
  s.pages[pos / s.pageSize.bytes]?.bind fun page =>
    s.image[s.pageSize.pageStart page + s.pageSize.offsetInPage pos]?

theorem getElem?_of_le_consecutive {k : Nat} (h : k ≤ consecutive page next) :
    (page :: next)[k]? = some (page + k) := by
  induction next generalizing page k with
  | nil =>
    obtain rfl := Nat.le_zero.1 h
    rfl
  | cons p next ih =>
    cases k with
    | zero => rfl
    | succ k =>
      rw [consecutive] at h
      split_ifs at h with hp
      · rw [List.getElem?_cons_succ, ih (by omega), hp, Nat.add_right_comm, Nat.add_assoc]
      · omega

/-- The bytes of a run stand one after another. -/
theorem offsetOf?_run {wanted at_ : Nat} (h : s.run? pos wanted = some (at_, n)) (hi : i < n) :
    s.offsetOf? (pos + i) = some (at_ + i) := by
  have hb := s.pageSize.bytes_pos
  rw [run?] at h
  dsimp only at h
  split_ifs at h
  split at h
  · cases h
  next page next hdrop =>
  cases h
  -- the byte lies `k` pages behind that of the first one
  have hwithin : s.pageSize.offsetInPage pos = pos % s.pageSize.bytes := rfl
  have hsplit : pos + i
      = s.pageSize.bytes * (pos / s.pageSize.bytes) + (pos % s.pageSize.bytes + i) := by
    rw [← Nat.add_assoc, Nat.div_add_mod]
  have hlt : (pos % s.pageSize.bytes + i) / s.pageSize.bytes < 1 + consecutive page next :=
    Nat.div_lt_of_lt_mul (by rw [Nat.mul_comm]; omega)
  have hpage : s.pages[(pos + i) / s.pageSize.bytes]?
      = some (page + (pos % s.pageSize.bytes + i) / s.pageSize.bytes) := by
    rw [hsplit, Nat.mul_add_div hb, ← List.getElem?_drop, hdrop]
    exact getElem?_of_le_consecutive (by omega)
  have hoffset : (pos + i) % s.pageSize.bytes = (pos % s.pageSize.bytes + i) % s.pageSize.bytes := by
    rw [Nat.mod_add_mod]
  rw [offsetOf?, hpage, Option.map_some, PageSize.offsetInPage, hoffset, PageSize.pageStart, Nat.add_mul,
    Nat.add_assoc, Nat.div_add_mod', ← Nat.add_assoc, hwithin]
  rfl

theorem byte?_run {wanted at_ : Nat} (h : s.run? pos wanted = some (at_, n)) (hi : i < n) :
    s.byte? (pos + i) = s.image[at_ + i]? := by
  have hoffset := offsetOf?_run h hi
  obtain ⟨page, hpage, hat⟩ := Option.map_eq_some_iff.1 hoffset
  rw [byte?, hpage, Option.bind_some, hat]

theorem getElem?_of_slice? {image : Array UInt8} {start : Nat} (h : slice? image start n = some bs)
    (hi : i < n) : bs[i]? = image[start + i]? := by
  have hle : start + n ≤ image.size := by
    by_contra hlt
    rw [slice?, if_neg hlt] at h
    cases h
  rw [slice?_eq hle] at h
  rw [← Option.some.inj h, List.getElem?_take_of_lt hi, List.getElem?_drop, Array.getElem?_toList]

theorem getElem?_of_gather (h : (s.gather offset pos n).1 = .ok bs) (hi : i < n) :
    bs[i]? = s.byte? (pos + i) := by
  fun_induction gather s offset pos n generalizing bs i with
  | case1 => omega
  | case2 => cases h
  | case3 => cases h
  | case4 pos n h0 at_ k hrun front hfront tail =>
    rename_i ih
    obtain ⟨back, htail, rfl⟩ := exists_of_map_eq_ok h
    have hlength := length_of_slice? hfront
    rcases Nat.lt_or_ge i k with hlt | hge
    · rw [List.getElem?_append_left (by omega), getElem?_of_slice? hfront hlt, byte?_run hrun hlt]
    · rw [List.getElem?_append_right (by omega), hlength, ih htail (by omega), Nat.add_assoc,
        Nat.add_sub_cancel' hge]

theorem exists_gather_eq_ok (offset : Nat) (hend : pos + n ≤ s.length)
    (h : ∀ i < n, (s.byte? (pos + i)).isSome) : ∃ bs, (s.gather offset pos n).1 = .ok bs := by
  fun_induction gather s offset pos n with
  | case1 => exact ⟨[], rfl⟩
  | case2 pos n h0 hrun =>
    have hbyte := h 0 (by omega)
    rw [run?] at hrun
    dsimp only at hrun
    split_ifs at hrun with hmost
    · omega
    split at hrun
    · next hdrop =>
      have hpage : s.pages[pos / s.pageSize.bytes]? = none := by
        rw [← Nat.add_zero (pos / _), ← List.getElem?_drop, hdrop, List.getElem?_nil]
      rw [byte?, Nat.add_zero, hpage] at hbyte
      cases hbyte
    · cases hrun
  | case3 pos n h0 at_ k hrun hslice =>
    -- the last byte of the run is not there
    have hbounds := run?_bounds hrun
    have hbyte := h (k - 1) (by omega)
    rw [byte?_run hrun (by omega), isSome_getElem?] at hbyte
    rw [slice?, if_pos (by omega)] at hslice
    cases hslice
  | case4 pos n h0 at_ k hrun front hfront tail =>
    rename_i ih
    have hbounds := run?_bounds hrun
    obtain ⟨back, htail⟩ := ih (by omega) fun i hi => by
      rw [Nat.add_assoc]
      exact h _ (by omega)
    exact ⟨front ++ back, by rw [htail]; rfl⟩

/-- What is read is what the image has at each position. -/
theorem copy_eq_of_byte? (hend : offset + n ≤ s.length) (hword : offset + n < 2 ^ 32)
    (hlength : bs.length = n) (h : ∀ i < n, s.byte? (offset + i) = bs[i]?) : s.copy offset n = .ok bs := by
  obtain ⟨bs', hgather⟩ := exists_gather_eq_ok (s := s) (n := n) offset hend fun i hi => by
    rw [h i hi, isSome_getElem?]
    omega
  have heq : bs' = bs := by
    refine List.ext_getElem? fun i => ?_
    rcases Nat.lt_or_ge i n with hi | hi
    · rw [getElem?_of_gather hgather hi, h i hi]
    · rw [List.getElem?_eq_none (by rw [length_gather hgather]; exact hi),
        List.getElem?_eq_none (by omega)]
  rw [copy, checkBounds, if_pos ⟨hword, hend⟩]
  exact hgather.trans (congrArg _ heq)

/-- A piece of what can be read can be read, and is that piece. -/
theorem copy_within (h : s.read offset size = .ok bs) (hsub : i + n ≤ size) :
    s.copy (offset + i) n = .ok ((bs.drop i).take n) := by
  obtain ⟨hlength, hword⟩ := length_read h
  rw [read_eq_copy, copy] at h
  rcases s.checkBounds_cases offset size with ⟨hb, hle⟩ | hb <;> rw [hb] at h
  swap
  · cases h
  have hgather : (s.gather offset offset size).1 = .ok bs := h
  refine copy_eq_of_byte? (by omega) (by omega) ?_ fun j hj => ?_
  · rw [List.length_take, List.length_drop]
    omega
  · rw [List.getElem?_take_of_lt hj, List.getElem?_drop, getElem?_of_gather hgather (by omega),
      Nat.add_assoc]

end Pdb.PagedStream
