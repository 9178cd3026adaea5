import Mathlib.Data.List.Chain
import Pdb.PagedStream
import Pdb.Proofs.Outcome

/-! # Reading a paged stream is cutting its pages

`contents` is the second side: the pages one behind another, cut to the length of the stream. For a
stream whose pages all lie in the image, what `direct?` and `gather` hand out is a piece of it. The
two tests for pages that follow each other agree on `Consecutive`. -/

namespace Pdb.PagedStream
variable {s : PagedStream} {image : Array UInt8}

/-- The bytes of the image on a page. -/
def pageBytes (image : Array UInt8) (size : PageSize) (page : Nat) : Bytes :=
  (image.toList.drop (size.pageStart page)).take size.bytes

/-- The pages one behind another, cut to the length of the stream. -/
def contents (s : PagedStream) : Bytes :=
  (s.pages.flatMap (pageBytes s.image s.pageSize)).take s.length

/-- Every page lies in the image. -/
def InImage (s : PagedStream) : Prop :=
  ∀ p ∈ s.pages, s.pageSize.pageStart p + s.pageSize.bytes ≤ s.image.size

/-- The pages that a request of at least one byte spans. -/
def span (s : PagedStream) (offset size : Nat) : List Nat :=
  (s.pages.drop (offset / s.pageSize.bytes)).take
    ((offset + size - 1) / s.pageSize.bytes - offset / s.pageSize.bytes + 1)

/-- Each page has the number behind that of the page before it. -/
def Consecutive : List Nat → Prop := List.IsChain fun p q => q = p + 1

instance : DecidablePred Consecutive := fun ps =>
  inferInstanceAs (Decidable (List.IsChain (fun p q => q = p + 1) ps))

/-! ### Slices -/

theorem slice?_eq {start size : Nat} (h : start + size ≤ image.size) :
    slice? image start size = some ((image.toList.drop start).take size) := by
  rw [slice?, if_pos h, Array.toList_extract, List.extract_eq_take_drop, Nat.add_sub_cancel_left]

theorem length_of_slice? {start n : Nat} {bs : Bytes} (h : slice? image start n = some bs) :
    bs.length = n := by
  rw [slice?] at h
  split_ifs at h with hle
  rw [← Option.some.inj h, Array.length_toList, Array.size_extract]
  omega

theorem length_pageBytes {size : PageSize} {page : Nat}
    (h : size.pageStart page + size.bytes ≤ image.size) :
    (pageBytes image size page).length = size.bytes := by
  rw [pageBytes, List.length_take, List.length_drop, Array.length_toList]
  omega

theorem consecutive_iff (page : Nat) (ps : List Nat) :
    consecutive page ps = ps.length ↔ Consecutive (page :: ps) := by
  induction ps generalizing page with
  | nil => simp [consecutive, Consecutive]
  | cons p ps ih =>
    have hle := consecutive_le p ps
    rw [Consecutive, List.isChain_cons_cons, ← Consecutive, ← ih p, consecutive, List.length_cons]
    split <;> omega

/-- Pages that follow each other are one piece of the image. -/
theorem take_flatMap_consecutive (size : PageSize) (page : Nat) (ps : List Nat)
    (h : ∀ p ∈ page :: ps, size.pageStart p + size.bytes ≤ image.size) :
    ((page :: ps).flatMap (pageBytes image size)).take ((1 + consecutive page ps) * size.bytes)
      = (image.toList.drop (size.pageStart page)).take ((1 + consecutive page ps) * size.bytes) := by
  induction ps generalizing page with
  | nil => simp [consecutive, pageBytes, List.take_take]
  | cons p ps ih =>
    have hlen := length_pageBytes (h page (by simp))
    have hstart (hp : p = page + 1) : size.pageStart p = size.pageStart page + size.bytes := by
      rw [hp, PageSize.pageStart, PageSize.pageStart, Nat.succ_mul]
    rw [List.flatMap_cons, consecutive]
    split
    · rename_i hp
      have hmul : (1 + (1 + consecutive p ps)) * size.bytes
          = size.bytes + (1 + consecutive p ps) * size.bytes := by
        rw [Nat.add_mul 1, Nat.one_mul]
      rw [hmul, List.take_add, List.take_left' hlen, List.drop_left' hlen,
        ih p fun q hq => h q (by simp_all), List.take_add, List.drop_drop, ← hstart hp]
      rfl
    · rw [Nat.add_zero, Nat.one_mul, List.take_left' hlen, pageBytes]

/-! ### Positions -/

theorem length_flatMap_pageBytes (size : PageSize) (ps : List Nat)
    (h : ∀ p ∈ ps, size.pageStart p + size.bytes ≤ image.size) :
    (ps.flatMap (pageBytes image size)).length = ps.length * size.bytes := by
  rw [List.length_flatMap, List.map_congr_left (g := fun _ => size.bytes)
    fun p hp => length_pageBytes (h p hp)]
  simp

theorem drop_flatMap_pages (hin : s.InImage) (i : Nat) (hi : i ≤ s.pages.length) :
    (s.pages.flatMap (pageBytes s.image s.pageSize)).drop (i * s.pageSize.bytes)
      = (s.pages.drop i).flatMap (pageBytes s.image s.pageSize) := by
  have hlen := length_flatMap_pageBytes s.pageSize (s.pages.take i)
    fun p hp => hin p (List.mem_of_mem_take hp)
  rw [List.length_take, Nat.min_eq_left hi] at hlen
  conv_lhs => rw [← List.take_append_drop i s.pages, List.flatMap_append]
  exact List.drop_left' hlen

theorem le_pagesHolding_mul (size : PageSize) (length : Nat) :
    length ≤ size.pagesHolding length * size.bytes := by
  have hb := size.bytes_pos
  rw [PageSize.pagesHolding]
  have := Nat.div_add_mod (length + size.bytes - 1) size.bytes
  have := Nat.mod_lt (length + size.bytes - 1) hb
  rw [Nat.mul_comm]
  omega

theorem length_le_pages (hl : s.length ≠ PageSize.nilLength) :
    s.length ≤ s.pages.length * s.pageSize.bytes := by
  rw [s.pages_length, PageSize.pagesFor, if_neg hl]
  exact le_pagesHolding_mul s.pageSize s.length

theorem length_contents (hin : s.InImage) (hl : s.length ≠ PageSize.nilLength) :
    s.contents.length = s.length := by
  rw [contents, List.length_take, length_flatMap_pageBytes s.pageSize s.pages hin,
    Nat.min_eq_left (length_le_pages hl)]

theorem page_lt (hl : s.length ≠ PageSize.nilLength) (pos : Nat) (h : pos < s.length) :
    pos / s.pageSize.bytes < s.pages.length :=
  Nat.div_lt_of_lt_mul (Nat.mul_comm _ _ ▸ Nat.lt_of_lt_of_le h (length_le_pages hl))

/-- The bytes behind a position, as the pages from that of the position on. -/
theorem take_drop_contents (hin : s.InImage) (hl : s.length ≠ PageSize.nilLength) {pos n : Nat}
    (h : pos + n ≤ s.length) (hpos : pos < s.length) :
    (s.contents.drop pos).take n
      = (((s.pages.drop (pos / s.pageSize.bytes)).flatMap (pageBytes s.image s.pageSize)).drop
          (pos % s.pageSize.bytes)).take n := by
  rw [contents, List.drop_take, List.take_take, Nat.min_eq_left (by omega),
    ← drop_flatMap_pages hin _ (page_lt hl pos hpos).le, List.drop_drop, Nat.div_add_mod']

/-- A run of pages that follow each other is one piece of the image, also from within its first
page on. -/
theorem take_drop_run (hin : s.InImage) (hl : s.length ≠ PageSize.nilLength) {pos n page : Nat}
    {next : List Nat} (h : pos + n ≤ s.length) (hpos : pos < s.length)
    (hp : s.pages.drop (pos / s.pageSize.bytes) = page :: next)
    (hn : s.pageSize.offsetInPage pos + n ≤ (1 + consecutive page next) * s.pageSize.bytes) :
    (s.contents.drop pos).take n
      = (s.image.toList.drop (s.pageSize.pageStart page + s.pageSize.offsetInPage pos)).take n := by
  have hrun := take_flatMap_consecutive s.pageSize page next fun p hp' =>
    hin p (List.mem_of_mem_drop (hp ▸ hp'))
  have cut (l : Bytes) : ((l.take ((1 + consecutive page next) * s.pageSize.bytes)).drop
      (s.pageSize.offsetInPage pos)).take n = (l.drop (s.pageSize.offsetInPage pos)).take n := by
    rw [List.drop_take, List.take_take, Nat.min_eq_left (by omega)]
  rw [take_drop_contents hin hl h hpos, hp, ← PageSize.offsetInPage, ← cut, hrun, cut, List.drop_drop]

/-! ### The two read paths -/

theorem run?_eq (hl : s.length ≠ PageSize.nilLength) {pos wanted : Nat} (hw : 0 < wanted)
    (h : pos + wanted ≤ s.length) : ∃ page next,
      s.pages.drop (pos / s.pageSize.bytes) = page :: next ∧
      s.run? pos wanted = some (s.pageSize.pageStart page + s.pageSize.offsetInPage pos,
        min wanted ((1 + consecutive page next) * s.pageSize.bytes - s.pageSize.offsetInPage pos)) := by
  have hlt := page_lt hl pos (by omega)
  refine ⟨_, _, List.drop_eq_getElem_cons hlt, ?_⟩
  rw [run?, Nat.min_eq_right (by omega), if_neg (by omega), List.drop_eq_getElem_cons hlt]

theorem add_consecutive_mem (page : Nat) (ps : List Nat) :
    page + consecutive page ps ∈ page :: ps := by
  induction ps generalizing page with
  | nil => simp [consecutive]
  | cons p ps ih =>
    rw [consecutive]
    split
    · rename_i hp
      rw [← Nat.add_assoc, ← hp]
      exact List.mem_cons_of_mem _ (ih p)
    · simp

theorem run_le_image (hin : s.InImage) {i page n off : Nat} {next : List Nat}
    (hp : s.pages.drop i = page :: next)
    (hn : off + n ≤ (1 + consecutive page next) * s.pageSize.bytes) :
    s.pageSize.pageStart page + off + n ≤ s.image.size := by
  have hlast := hin _ (List.mem_of_mem_drop (hp ▸ add_consecutive_mem page next))
  rw [PageSize.pageStart, Nat.add_mul] at hlast
  rw [PageSize.pageStart]
  rw [Nat.add_mul, Nat.one_mul] at hn
  omega

/-- The loop of a gathered request: what is left to copy is the piece of the contents from `pos`
on, and all of it is copied. -/
theorem gather_eq (hin : s.InImage) (hl : s.length ≠ PageSize.nilLength) (offset pos : Nat)
    {remaining : Nat} (h : pos + remaining ≤ s.length) :
    s.gather offset pos remaining = (.ok ((s.contents.drop pos).take remaining), remaining) := by
  induction remaining using Nat.strongRecOn generalizing pos with
  | ind remaining ih =>
    rw [gather]
    split
    · rename_i h0
      simp [h0]
    · rename_i h0
      obtain ⟨page, next, hp, hrun⟩ := run?_eq hl (Nat.pos_of_ne_zero h0) h
      have hbounds := run?_bounds hrun
      split
      · rename_i heq
        rw [hrun] at heq
        cases heq
      · rename_i at_ n heq
        rw [hrun, Option.some.injEq, Prod.mk.injEq] at heq
        obtain ⟨rfl, hn⟩ := heq
        have hwithin : s.pageSize.offsetInPage pos < s.pageSize.bytes :=
          Nat.mod_lt _ s.pageSize.bytes_pos
        have hk : s.pageSize.bytes ≤ (1 + consecutive page next) * s.pageSize.bytes :=
          Nat.le_mul_of_pos_left _ (by omega)
        have hle : s.pageSize.offsetInPage pos + n
            ≤ (1 + consecutive page next) * s.pageSize.bytes := by omega
        rw [hn] at hbounds
        rw [slice?_eq (run_le_image hin hp hle)]
        simp only
        rw [ih (remaining - n) (by omega) (pos + n) (by omega),
          ← take_drop_run hin hl (by omega) (by omega) hp hle, ← List.drop_drop]
        simp only [Except.map, Prod.mk.injEq, Except.ok.injEq]
        refine ⟨?_, by omega⟩
        conv_rhs => rw [show remaining = n + (remaining - n) by omega, List.take_add]

theorem span_eq (hl : s.length ≠ PageSize.nilLength) {offset size : Nat} (h0 : 0 < size)
    (h : offset + size ≤ s.length) : ∃ page next,
      s.pages.drop (offset / s.pageSize.bytes) = page :: next ∧
      s.span offset size = page :: next.take
        ((offset + size - 1) / s.pageSize.bytes - offset / s.pageSize.bytes) := by
  have hlt := page_lt hl offset (by omega)
  refine ⟨_, _, List.drop_eq_getElem_cons hlt, ?_⟩
  rw [span, List.drop_eq_getElem_cons hlt, List.take_succ_cons]

theorem consecutive_take (page : Nat) (ps : List Nat) (n : Nat) :
    consecutive page (ps.take n) = min n (consecutive page ps) := by
  induction ps generalizing page n with
  | nil => simp [consecutive]
  | cons p ps ih =>
    cases n with
    | zero => simp [consecutive]
    | succ n =>
      rw [List.take_succ_cons, consecutive, consecutive]
      split
      · rw [ih]; omega
      · omega

/-- A request whose pages follow each other does not reach behind them. -/
theorem within_run (s : PagedStream) (offset k : Nat) {size : Nat} (h0 : 0 < size)
    (hk : (offset + size - 1) / s.pageSize.bytes - offset / s.pageSize.bytes ≤ k) :
    s.pageSize.offsetInPage offset + size ≤ (1 + k) * s.pageSize.bytes := by
  have hb := s.pageSize.bytes_pos
  have hfirst := Nat.div_add_mod offset s.pageSize.bytes
  have hlast := Nat.lt_mul_div_succ (offset + size - 1) hb
  have hmul : s.pageSize.bytes * ((offset + size - 1) / s.pageSize.bytes + 1)
      ≤ s.pageSize.bytes * (offset / s.pageSize.bytes + (1 + k)) :=
    Nat.mul_le_mul_left _ (by omega)
  rw [Nat.mul_add _ (offset / s.pageSize.bytes), Nat.mul_comm _ (1 + k)] at hmul
  rw [PageSize.offsetInPage]
  omega

/-- A request lies in the run of pages that it begins with, if its pages follow each other. -/
theorem within_of_consecutive (hl : s.length ≠ PageSize.nilLength) {offset size page : Nat}
    {next : List Nat} (h0 : 0 < size) (h : offset + size ≤ s.length)
    (hp : s.pages.drop (offset / s.pageSize.bytes) = page :: next)
    (hc : Consecutive (page :: next.take
      ((offset + size - 1) / s.pageSize.bytes - offset / s.pageSize.bytes))) :
    s.pageSize.offsetInPage offset + size ≤ (1 + consecutive page next) * s.pageSize.bytes := by
  have hlast := page_lt hl (offset + size - 1) (by omega)
  have hlen := congrArg List.length hp
  rw [List.length_drop, List.length_cons] at hlen
  have hk := (consecutive_iff _ _).2 hc
  rw [consecutive_take, List.length_take] at hk
  exact within_run s offset (consecutive page next) h0 (by omega)

theorem slice?_direct (hin : s.InImage) (hl : s.length ≠ PageSize.nilLength) {offset size page : Nat}
    {next : List Nat} (h0 : 0 < size) (h : offset + size ≤ s.length)
    (hp : s.pages.drop (offset / s.pageSize.bytes) = page :: next)
    (hc : Consecutive (page :: next.take
      ((offset + size - 1) / s.pageSize.bytes - offset / s.pageSize.bytes))) :
    slice? s.image (s.pageSize.pageStart page + s.pageSize.offsetInPage offset) size
      = some ((s.contents.drop offset).take size) := by
  have hle := within_of_consecutive hl h0 h hp hc
  rw [slice?_eq (run_le_image hin hp hle), ← take_drop_run hin hl h (by omega) hp hle]

theorem slice?_of_consecutive (hin : s.InImage) (hl : s.length ≠ PageSize.nilLength)
    {offset size : Nat} (h0 : 0 < size) (h : offset + size ≤ s.length)
    (hc : Consecutive (s.span offset size)) :
    ∃ start, slice? s.image start size = some ((s.contents.drop offset).take size) := by
  obtain ⟨page, next, hp, hspan⟩ := span_eq hl h0 h
  rw [hspan] at hc
  exact ⟨_, slice?_direct hin hl h0 h hp hc⟩

/-- A request is answered with a piece of the image exactly if the pages that it spans follow each
other, and it is the right piece. -/
theorem direct?_eq (hin : s.InImage) (hl : s.length ≠ PageSize.nilLength) {offset size : Nat}
    (h0 : 0 < size) (h : offset + size ≤ s.length) :
    s.direct? offset size = if Consecutive (s.span offset size) then
      some (.ok ((s.contents.drop offset).take size)) else none := by
  obtain ⟨page, next, hp, hspan⟩ := span_eq hl h0 h
  rw [direct?, ← span, hspan]
  simp only [consecutive_iff]
  split_ifs with hc
  · rw [slice?_direct hin hl h0 h hp hc]
  · rfl

/-! ### Requests that lie in the stream -/

section
variable {offset size : Nat} (hin : s.InImage) (hl : s.length < PageSize.nilLength)
  (h : offset + size ≤ s.length)
include hin hl h

theorem copy_eq : s.copy offset size = .ok ((s.contents.drop offset).take size) := by
  have hword : offset + size < 2 ^ 32 := by
    rw [PageSize.nilLength] at hl
    omega
  rw [copy, checkBounds, if_pos ⟨hword, h⟩, gather_eq hin (Nat.ne_of_lt hl) offset offset h]
  rfl

theorem read_eq_ok : s.read offset size = .ok ((s.contents.drop offset).take size) := by
  have hword : offset + size < 2 ^ 32 := by
    rw [PageSize.nilLength] at hl
    omega
  have hgather := gather_eq hin (Nat.ne_of_lt hl) offset offset h
  rw [read, checkBounds, if_pos ⟨hword, h⟩]
  by_cases h0 : size = 0
  · simp [h0, pure, Except.pure, bind, Except.bind]
  · simp only [h0, direct?_eq hin (Nat.ne_of_lt hl) (Nat.pos_of_ne_zero h0) h, hgather, if_false, pure,
      Except.pure, bind, Except.bind]
    split_ifs <;> rfl

end

theorem readToEnd_eq {offset : Nat} (hin : s.InImage) (hl : s.length < PageSize.nilLength)
    (h : offset ≤ s.length) : s.readToEnd offset = .ok (s.contents.drop offset) := by
  have hlength := length_contents hin (Nat.ne_of_lt hl)
  rw [readToEnd, if_pos h, read_eq_ok hin hl (by omega), List.take_of_length_le]
  rw [List.length_drop, hlength]

/-! ### Answers of any stream -/

theorem length_gather {offset pos remaining : Nat} {bs : Bytes}
    (h : (s.gather offset pos remaining).1 = .ok bs) : bs.length = remaining := by
  fun_induction gather s offset pos remaining generalizing bs with
  | case1 => exact Except.ok.inj h ▸ rfl
  | case2 => exact nomatch h
  | case3 => exact nomatch h
  | case4 pos remaining h0 at_ n hrun front hfront tail =>
    rename_i ih
    have hbounds := run?_bounds hrun
    obtain ⟨back, htail, rfl⟩ := exists_of_map_eq_ok h
    rw [List.length_append, length_of_slice? hfront, ih htail]
    omega

theorem length_of_direct? {offset size : Nat} {bs : Bytes} (h : s.direct? offset size = some (.ok bs)) :
    bs.length = size := by
  rw [direct?] at h
  split at h
  · exact nomatch h
  · split at h
    · split at h
      · next hslice =>
        rw [← Except.ok.inj (Option.some.inj h)]
        exact length_of_slice? hslice
      · exact nomatch h
    · exact nomatch h

/-- What is read has the length that was asked for, and its end is a word. -/
theorem length_read {offset size : Nat} {bs : Bytes} (h : s.read offset size = .ok bs) :
    bs.length = size ∧ offset + size < 2 ^ 32 := by
  rw [read, checkBounds] at h
  by_cases hbounds : offset + size < 2 ^ 32 ∧ offset + size ≤ s.length
  · rw [if_pos hbounds] at h
    refine ⟨?_, hbounds.1⟩
    simp only [pure, Except.pure, bind, Except.bind] at h
    split at h
    · next h0 => exact Except.ok.inj h ▸ h0.symm
    · split at h
      · next hdirect => exact length_of_direct? (hdirect.trans (congrArg some h))
      · exact length_gather h
  · rw [if_neg hbounds] at h
    exact nomatch h

end Pdb.PagedStream
