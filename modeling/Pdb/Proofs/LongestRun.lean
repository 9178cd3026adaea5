import Pdb.Proofs.CheckedReads
import Pdb.Proofs.StreamBytes

/-! # The longest run

A request is answered run by run, and a run is as long as it can be: it stops at the end of what is
asked for, at the end of the stream, or in front of a page that does not follow the page before it
(`Run`). No longer piece of the image has the bytes that are asked for (`Run.le_of_offsets`). The
arithmetic on words never goes wrong on the way, up to a stream of the greatest length.
-/

namespace Pdb.PagedStream
variable {s : PagedStream} {pos wanted most at_ n page : Nat} {next : List Nat}

/-- A page begins at the position, and it does not have the number behind that of the page before
it. -/
def BreaksAt (s : PagedStream) (pos : Nat) : Prop :=
  s.pageSize.bytes ∣ pos ∧ ∃ i before page, pos / s.pageSize.bytes = i + 1
    ∧ s.pages[i]? = some before ∧ s.pages[i + 1]? = some page ∧ page ≠ before + 1

/-- Of `most` bytes from `pos` on the first `n` stand one after another in the image, from the offset
`at_` on, and then the pages break off if that is not all. -/
structure Run (s : PagedStream) (pos most at_ n : Nat) : Prop where
  pos_length : 0 < n
  le_most : n ≤ most
  offsets : ∀ i < n, s.offsetOf? (pos + i) = some (at_ + i)
  stops : n = most ∨ s.BreaksAt (pos + n)

/-- Behind the pages that follow each other there is none that does. -/
theorem getElem?_succ_consecutive (page : Nat) (next : List Nat) :
    (page :: next)[consecutive page next + 1]? ≠ some (page + consecutive page next + 1) := by
  induction next generalizing page with
  | nil => simp [consecutive]
  | cons p next ih =>
    rw [consecutive]
    split_ifs with hp
    · have hih := ih p
      rw [hp] at hih ⊢
      rw [List.getElem?_cons_succ, Nat.add_comm 1, ← Nat.add_assoc, Nat.add_right_comm page]
      exact hih
    · simpa using hp

/-- A run that does not come to the end of the request has whole pages behind its first one. -/
theorem breaksAt_of_run? (hl : s.length ≠ PageSize.nilLength) (hend : pos + n < s.length)
    (hdrop : s.pages.drop (pos / s.pageSize.bytes) = page :: next)
    (hn : n = (1 + consecutive page next) * s.pageSize.bytes - s.pageSize.offsetInPage pos) :
    s.BreaksAt (pos + n) := by
  have hb := s.pageSize.bytes_pos
  have hdivmod := Nat.div_add_mod pos s.pageSize.bytes
  have hwithin : pos % s.pageSize.bytes < s.pageSize.bytes := Nat.mod_lt _ hb
  have hk : s.pageSize.bytes ≤ (1 + consecutive page next) * s.pageSize.bytes :=
    Nat.le_mul_of_pos_left _ (by omega)
  have hstart : pos + n
      = (pos / s.pageSize.bytes + consecutive page next + 1) * s.pageSize.bytes := by
    rw [PageSize.offsetInPage] at hn
    rw [Nat.add_assoc, Nat.add_comm _ 1, Nat.add_mul, Nat.mul_comm (pos / _)]
    omega
  have hdiv : (pos + n) / s.pageSize.bytes = pos / s.pageSize.bytes + consecutive page next + 1 := by
    rw [hstart, Nat.mul_div_cancel _ hb]
  have hlt := page_lt hl (pos + n) hend
  rw [hdiv] at hlt
  refine ⟨hstart ▸ Nat.dvd_mul_left _ _, _, page + consecutive page next, _, hdiv, ?_,
    List.getElem?_eq_getElem hlt, fun heq => ?_⟩
  · rw [← List.getElem?_drop, hdrop]
    exact getElem?_of_le_consecutive (Nat.le_refl _)
  · refine getElem?_succ_consecutive page next ?_
    rw [← hdrop, List.getElem?_drop, ← Nat.add_assoc, List.getElem?_eq_getElem hlt, heq]

theorem run?_eq_none_iff (hl : s.length ≠ PageSize.nilLength) :
    s.run? pos wanted = none ↔ s.length ≤ pos ∨ wanted = 0 := by
  rw [run?]
  dsimp only
  split_ifs with hmost
  · exact iff_of_true rfl (by omega)
  · rw [List.drop_eq_getElem_cons (page_lt hl pos (by omega))]
    exact iff_of_false (Option.some_ne_none _) (by omega)

theorem run_of_run? (hl : s.length ≠ PageSize.nilLength) (h : s.run? pos wanted = some (at_, n)) :
    s.Run pos (min wanted (s.length - pos)) at_ n := by
  have hoffsets (i : Nat) (hi : i < n) := offsetOf?_run h hi
  have hbounds := run?_bounds h
  rw [run?] at h
  dsimp only at h
  split_ifs at h with hmost
  split at h
  · cases h
  next page next hdrop =>
  obtain ⟨-, hn⟩ := Prod.mk.inj (Option.some.inj h)
  refine ⟨hbounds.1, by omega, hoffsets, ?_⟩
  by_cases hall : n = min wanted (s.length - pos)
  · exact .inl hall
  · exact .inr (breaksAt_of_run? hl (by omega) hdrop (by omega))

/-- No more of the bytes stand one after another. -/
theorem Run.le_of_offsets (h : s.Run pos most at_ n) {k : Nat} (hk : k ≤ most)
    (hoffsets : ∀ i < k, s.offsetOf? (pos + i) = some (at_ + i)) : k ≤ n := by
  by_contra hlt
  obtain hall | ⟨hdvd, i, before, page, hdiv, hbefore, hpage, hne⟩ := h.stops
  · omega
  have hb := s.pageSize.bytes_pos
  have hpos := h.pos_length
  have hmul : pos + n = s.pageSize.bytes * (i + 1) := by
    rw [← hdiv, Nat.mul_div_cancel' hdvd]
  have hmod : (pos + n) % s.pageSize.bytes = 0 := Nat.mod_eq_zero_of_dvd hdvd
  have hlast : pos + (n - 1) = s.pageSize.bytes * i + (s.pageSize.bytes - 1) := by
    rw [Nat.mul_succ] at hmul
    omega
  -- the last byte of the run and the byte behind it
  have hfirst := h.offsets (n - 1) (by omega)
  have hsecond := hoffsets n (by omega)
  rw [offsetOf?, hlast, Nat.mul_add_div hb, Nat.div_eq_of_lt (by omega), Nat.add_zero, hbefore,
    Option.map_some, PageSize.offsetInPage, Nat.mul_add_mod, Nat.mod_eq_of_lt (by omega),
    PageSize.pageStart, Option.some.injEq] at hfirst
  rw [offsetOf?, hdiv, hpage, Option.map_some, PageSize.offsetInPage, hmod, PageSize.pageStart,
    Nat.add_zero, Option.some.injEq] at hsecond
  refine hne (Nat.eq_of_mul_eq_mul_right hb ?_)
  rw [Nat.succ_mul]
  omega

/-- Whatever the pages of a stream are, also of one of the greatest length, no index is out of range
and no sum or difference of words goes wrong. There is no run exactly behind the end of the stream and
for a request of nothing; else it has the bytes of the request one after another, from the first one on,
and it is the longest such run. -/
theorem checkedRun?_longest (s : PagedStream) (hl : s.length ≤ 0xfffffffe)
    (hw : ∀ p ∈ s.pages, p < 2 ^ 32) (pos wanted : Nat) :
    s.checkedRun? pos wanted = some (s.run? pos wanted)
    ∧ (s.run? pos wanted = none ↔ s.length ≤ pos ∨ wanted = 0)
    ∧ ∀ at_ n, s.run? pos wanted = some (at_, n) →
      s.Run pos (min wanted (s.length - pos)) at_ n
      ∧ ∀ k ≤ min wanted (s.length - pos),
        (∀ i < k, s.offsetOf? (pos + i) = some (at_ + i)) → k ≤ n := by
  have hl : s.length < PageSize.nilLength := Nat.lt_succ_of_le hl
  refine ⟨checkedRun?_eq hl hw pos wanted, run?_eq_none_iff hl.ne, fun at_ n hrun => ?_⟩
  have hlongest := run_of_run? hl.ne hrun
  exact ⟨hlongest, fun k => hlongest.le_of_offsets⟩

/-! ### A stream of the greatest length -/

theorem consecutive_range'_append (page k : Nat) (ps : List Nat) :
    consecutive page (List.range' (page + 1) k ++ ps) = k + consecutive (page + k) ps := by
  induction k generalizing page with
  | zero => simp
  | succ k ih =>
    rw [List.range'_succ, List.cons_append, consecutive, if_pos rfl, ih, ← Nat.add_assoc,
      Nat.add_comm 1, Nat.add_right_comm page, Nat.add_assoc page]

/-- Pages of 64 KiB, of which the last one stands in front of the others. -/
def greatest : PagedStream where
  image := #[]
  pageSize := .largest
  pages := List.range' 3 65535 ++ [1]
  length := 0xfffffffe
  pages_length := by
    rw [List.length_append, List.length_range']
    rfl

theorem run?_greatest : greatest.run? 0xfffe 0xffffffff = some (0x3fffe, 0xfffe0002) := by
  have hpages : greatest.pages = 3 :: (List.range' 4 65534 ++ [1]) := rfl
  have hnext : consecutive 3 (List.range' 4 65534 ++ [1]) = 65534 :=
    consecutive_range'_append 3 65534 [1]
  have hmost : min (greatest.length - 0xfffe) 0xffffffff = 0xffff0000 := by decide
  have hwithin : greatest.pageSize.offsetInPage 0xfffe = 0xfffe := by decide
  have hstart : greatest.pageSize.pageStart 3 = 0x30000 := by decide
  have hbytes : greatest.pageSize.bytes = 0x10000 := by decide
  simp only [run?, hbytes, hmost, Nat.reduceDiv, List.drop_zero, hpages, hnext, hwithin, hstart]
  decide

/-- All pages but the last one are taken, though the stream goes on. -/
theorem checkedRun?_longest_greatest : greatest.length ≤ 0xfffffffe
    ∧ (∀ p ∈ greatest.pages, p < 2 ^ 32)
    ∧ greatest.checkedRun? 0xfffe 0xffffffff = some (some (0x3fffe, 0xfffe0002))
    ∧ greatest.Run 0xfffe 0xffff0000 0x3fffe 0xfffe0002 := by
  have hw : ∀ p ∈ greatest.pages, p < 2 ^ 32 := by
    intro p hp
    rcases List.mem_append.1 hp with hp | hp
    · obtain ⟨-, hlt⟩ := List.mem_range'_1.1 hp
      omega
    · rw [List.mem_singleton.1 hp]
      decide
  have hl : greatest.length ≤ 0xfffffffe := by decide
  have hmost : min 0xffffffff (greatest.length - 0xfffe) = 0xffff0000 := by decide
  obtain ⟨hchecked, -, hrun⟩ := checkedRun?_longest greatest hl hw 0xfffe 0xffffffff
  exact ⟨hl, hw, run?_greatest ▸ hchecked, hmost ▸ (hrun _ _ run?_greatest).1⟩

end Pdb.PagedStream
