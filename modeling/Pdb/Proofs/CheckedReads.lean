import Pdb.Proofs.Checked
import Pdb.Proofs.Reader

/-! # Reading with checks

The two ways of reading a stream, with every index, slice, difference, sum of words and assertion on
them as a check. For a stream whose pages and length are words no check goes wrong, whatever is asked
for, and the answers are those of `Reader.run`.
-/

namespace Pdb

namespace PagedStream
open Check
variable {s : PagedStream} {pos most wanted p last offset size : Nat}

/-- Page numbers are words, also the one behind each. The stream is not absent. -/
structure Sound (s : PagedStream) : Prop where
  length : s.length < PageSize.nilLength
  pages : ∀ p ∈ s.pages, p + 1 < 2 ^ 32

theorem Sound.words (hs : s.Sound) (p : Nat) (hp : p ∈ s.pages) : p < 2 ^ 32 :=
  Nat.lt_of_succ_lt (hs.pages p hp)

/-! ### Pages that follow each other -/

/-- The pages are those behind `base`, from the one with the distance `i` on. -/
def follow (base : Nat) : (i : Nat) → List Nat → Bool
  | _, [] => true
  | i, p :: ps => (base + i < 2 ^ 32 ∧ p = base + i) && follow base (i + 1) ps

theorem follow_iff (base : Nat) {i : Nat} {ps : List Nat} (h : ∀ p ∈ ps, p + 1 < 2 ^ 32) :
    follow base (i + 1) ps ↔ consecutive (base + i) ps = ps.length := by
  induction ps generalizing i with
  | nil => simp [follow, consecutive]
  | cons p ps ih =>
    obtain ⟨hp, hps⟩ := List.forall_mem_cons.1 h
    rw [follow, Bool.and_eq_true, decide_eq_true_iff, ih hps, consecutive, List.length_cons]
    split_ifs with heq
    · rw [heq, Nat.add_assoc]
      constructor
      · rintro ⟨-, hrest⟩
        omega
      · intro hrest
        exact ⟨⟨by omega, rfl⟩, by omega⟩
    · constructor
      · rintro ⟨⟨-, heq'⟩, -⟩
        exact absurd heq' heq
      · exact False.elim

/-- The piece of the image that a request of at least one byte names. -/
def checkedDirect? (s : PagedStream) (offset size : Nat) :
    Option (Option (Except StreamFault Bytes)) := do
  let first := offset / s.pageSize.bytes
  let last := (← minus (← plus offset size) 1) / s.pageSize.bytes
  let base ← fetch s.pages first
  let span ← slice s.pages first (last + 1)
  if follow base 1 (span.drop 1) then
    match slice? s.image (s.pageSize.pageStart base + s.pageSize.offsetInPage offset) size with
    | some bs => return some (.ok bs)
    | none => return some (.error (.missingPage base))
  else return none

theorem checkedDirect?_eq (hs : s.Sound) (h0 : 0 < size) (h : offset + size ≤ s.length) :
    s.checkedDirect? offset size = some (s.direct? offset size) := by
  have hl := hs.length
  rw [PageSize.nilLength] at hl
  have hfirst := page_lt hs.length.ne offset (by omega)
  have hlast := page_lt hs.length.ne (offset + size - 1) (by omega)
  have hle : offset / s.pageSize.bytes ≤ (offset + size - 1) / s.pageSize.bytes :=
    Nat.div_le_div_right (by omega)
  have hspan : (s.pages.take ((offset + size - 1) / s.pageSize.bytes + 1)).drop
      (offset / s.pageSize.bytes) = s.span offset size := by
    rw [List.drop_take, span, Nat.sub_add_comm hle]
  obtain ⟨page, next, hp, hspan'⟩ := span_eq hs.length.ne h0 h
  have hbase : s.pages[offset / s.pageSize.bytes] = page :=
    (List.cons.inj ((List.drop_eq_getElem_cons hfirst).symm.trans hp)).1
  have hnext : ∀ q ∈ next.take ((offset + size - 1) / s.pageSize.bytes - offset / s.pageSize.bytes),
      q + 1 < 2 ^ 32 := fun q hq => hs.pages q (List.mem_of_mem_drop
        (hp ▸ List.mem_cons_of_mem page (List.mem_of_mem_take hq)))
  have hfollow := follow_iff page (i := 0) hnext
  rw [checkedDirect?, plus_of_lt (by omega), direct?, ← span, hspan']
  simp only [Option.bind_eq_bind, Option.bind_some]
  rw [minus_of_le (by omega), Option.bind_some, fetch_of_lt hfirst, Option.bind_some,
    slice_of_le (Nat.le_succ_of_le hle) hlast, Option.bind_some, hspan, hspan', hbase, List.drop_one,
    List.tail_cons]
  split_ifs with hc hc' hc'
  · cases slice? s.image (s.pageSize.pageStart page + s.pageSize.offsetInPage offset) size <;> rfl
  · exact absurd (hfollow.1 hc) hc'
  · exact absurd (hfollow.2 hc') hc
  · rfl

/-! ### Runs -/

/-- Where the run of pages ends that has come to `p` on the page `last`, for a request at `pos`. -/
def checkedEnd (s : PagedStream) (pos most p last : Nat) : Option Nat :=
  if pos ≤ p ∧ p - pos ≤ most then
    if most - (p - pos) = 0 then some p
    else do
      let page ← fetch s.pages (p / s.pageSize.bytes)
      if last + 1 < 2 ^ 32 ∧ page = last + 1 then
        if p + min (most - (p - pos)) s.pageSize.bytes < 2 ^ 32 then
          s.checkedEnd pos most (p + min (most - (p - pos)) s.pageSize.bytes) page
        else none
      else some p
  else none
termination_by pos + most - p
decreasing_by
  have := s.pageSize.bytes_pos
  omega

theorem checkedEnd_stop (s : PagedStream) (pos most last : Nat) :
    s.checkedEnd pos most (pos + most) last = some (pos + most) := by
  rw [checkedEnd, if_pos (by omega), if_pos (by omega)]

/-- By induction on the pages that are left. Only the last step of the loop may be shorter than a
page, and it comes to the end of the request. -/
theorem checkedEnd_eq (hl : s.length < PageSize.nilLength) (hw : ∀ p ∈ s.pages, p < 2 ^ 32)
    (h : pos + most ≤ s.length) (hpos : pos ≤ p) (hp : p < pos + most)
    (halign : s.pageSize.bytes ∣ p) :
    s.checkedEnd pos most p last = some (min (pos + most)
      (p + consecutive last (s.pages.drop (p / s.pageSize.bytes)) * s.pageSize.bytes)) := by
  have hne := hl.ne
  rw [PageSize.nilLength] at hl
  have hb := s.pageSize.bytes_pos
  generalize hrest : s.pages.drop (p / s.pageSize.bytes) = rest
  induction rest generalizing p last with
  | nil =>
    have hlt := page_lt hne p (by omega)
    rw [List.drop_eq_getElem_cons hlt] at hrest
    cases hrest
  | cons page next ih =>
    have hlt := page_lt hne p (by omega)
    rw [List.drop_eq_getElem_cons hlt] at hrest
    obtain ⟨hpage, hnext⟩ := List.cons.inj hrest
    have hword := hw page (hpage ▸ List.getElem_mem hlt)
    rw [checkedEnd, if_pos (by omega), if_neg (by omega), fetch_of_lt hlt, hpage, consecutive]
    show (if last + 1 < 2 ^ 32 ∧ page = last + 1 then _ else _) = _
    by_cases heq : page = last + 1
    · rw [if_pos ⟨by omega, heq⟩, if_pos (by omega), if_pos heq, Nat.add_mul, Nat.one_mul]
      by_cases hfull : p + s.pageSize.bytes < pos + most
      · have hstep : p + min (most - (p - pos)) s.pageSize.bytes = p + s.pageSize.bytes := by omega
        have hdiv : (p + s.pageSize.bytes) / s.pageSize.bytes = p / s.pageSize.bytes + 1 :=
          Nat.add_div_right p hb
        rw [hstep, ih (by omega) hfull (Nat.dvd_add halign (Nat.dvd_refl _)) (hdiv ▸ hnext),
          Nat.add_assoc]
      · have hstep : p + min (most - (p - pos)) s.pageSize.bytes = pos + most := by omega
        rw [hstep, checkedEnd_stop, Nat.min_eq_left (by omega)]
    · rw [if_neg fun hand => heq hand.2, if_neg heq, Nat.zero_mul, Nat.add_zero,
        Nat.min_eq_right (by omega)]

/-- The offset in the image of the byte at `pos`, and how many of the bytes from there on are a
run. -/
def checkedRun? (s : PagedStream) (pos wanted : Nat) : Option (Option (Nat × Nat)) := do
  if s.length = PageSize.nilLength ∨ s.length ≤ pos then return none
  let most := min (← minus s.length pos) wanted
  if most = 0 then return none
  let page ← fetch s.pages (pos / s.pageSize.bytes)
  let within := s.pageSize.offsetInPage pos
  let inPage ← minus s.pageSize.bytes within
  let n ← if inPage < most then do
      let p ← plus pos inPage
      ensure (p % s.pageSize.bytes = 0)
      minus (← s.checkedEnd pos most p page) pos
    else pure most
  ensure (0 < n ∧ n ≤ wanted)
  return some (s.pageSize.pageStart page + within, n)

theorem checkedRun?_eq (hl : s.length < PageSize.nilLength) (hw : ∀ p ∈ s.pages, p < 2 ^ 32)
    (pos wanted : Nat) :
    s.checkedRun? pos wanted = some (s.run? pos wanted) := by
  have hne := hl.ne
  rw [PageSize.nilLength] at hl
  have hb := s.pageSize.bytes_pos
  rw [checkedRun?, run?]
  by_cases hend : s.length ≤ pos
  · rw [if_pos (.inr hend), if_pos (by omega)]
    rfl
  have hwithin : s.pageSize.offsetInPage pos < s.pageSize.bytes := Nat.mod_lt _ hb
  have hlt := page_lt hne pos (by omega)
  rw [if_neg fun hor => hor.elim hne hend, minus_of_le (by omega)]
  simp only [Option.bind_eq_bind, Option.bind_some]
  generalize hmost : min (s.length - pos) wanted = most
  by_cases h0 : most = 0
  · rw [if_pos h0, if_pos h0]
    rfl
  rw [if_neg h0, if_neg h0, fetch_of_lt hlt, Option.bind_some, minus_of_le hwithin.le,
    Option.bind_some, List.drop_eq_getElem_cons hlt]
  generalize s.pages[pos / s.pageSize.bytes] = page
  dsimp only
  by_cases hin : s.pageSize.bytes - s.pageSize.offsetInPage pos < most
  · have hdivmod := Nat.div_add_mod pos s.pageSize.bytes
    rw [← PageSize.offsetInPage] at hdivmod
    have hnext : pos + (s.pageSize.bytes - s.pageSize.offsetInPage pos)
        = (pos / s.pageSize.bytes + 1) * s.pageSize.bytes := by
      rw [Nat.add_mul, Nat.one_mul, Nat.mul_comm]
      omega
    have halign : s.pageSize.bytes ∣ pos + (s.pageSize.bytes - s.pageSize.offsetInPage pos) :=
      hnext ▸ Nat.dvd_mul_left _ _
    have hle : pos + most ≤ s.length := by omega
    have hstop : s.checkedEnd pos most _ page = _ :=
      checkedEnd_eq hl hw hle (Nat.le_add_right pos _) (Nat.add_lt_add_left hin pos) halign
    rw [if_pos hin, plus_of_lt (by omega), Option.bind_some,
      ensure_of (Nat.mod_eq_zero_of_dvd halign), Option.bind_some, hstop,
      Option.bind_some, hnext, Nat.mul_div_cancel _ hb]
    generalize consecutive page (s.pages.drop (pos / s.pageSize.bytes + 1)) = k
    have hk : s.pageSize.bytes ≤ (1 + k) * s.pageSize.bytes := Nat.le_mul_of_pos_left _ (by omega)
    have hsum : min (pos + most) ((pos / s.pageSize.bytes + 1) * s.pageSize.bytes
        + k * s.pageSize.bytes) - pos = min most ((1 + k) * s.pageSize.bytes
          - s.pageSize.offsetInPage pos) := by
      rw [Nat.add_mul 1, Nat.one_mul, ← hnext]
      omega
    rw [minus_of_le, Option.bind_some, hsum, ensure_of, Option.bind_some]
    · rfl
    · omega
    · omega
  · have hk : s.pageSize.bytes ≤ (1 + consecutive page (s.pages.drop (pos / s.pageSize.bytes + 1)))
        * s.pageSize.bytes := Nat.le_mul_of_pos_left _ (by omega)
    rw [if_neg hin, Nat.min_eq_left (by omega)]
    show (ensure (0 < most ∧ most ≤ wanted)).bind _ = _
    rw [ensure_of (by omega)]
    rfl

/-! ### Requests -/

/-- Copies bytes run by run into a buffer, of which the part that is filled is split off. -/
def checkedGather (s : PagedStream) (offset pos remaining : Nat) :
    Option (Except StreamFault Bytes × Nat) :=
  if remaining = 0 then some (.ok [], 0)
  else match s.checkedRun? pos remaining with
    | none => none
    | some none => some (.error (.tooShort offset remaining s.length), 0)
    | some (some (at_, n)) =>
      match slice? s.image at_ n with
      | none => some (.error (.missingPage (at_ / s.pageSize.bytes)), 0)
      | some bs =>
        if 0 < n ∧ n ≤ remaining ∧ bs.length = n ∧ pos + n < 2 ^ 32 then
          (s.checkedGather offset (pos + n) (remaining - n)).map fun tail =>
            (tail.1.map (bs ++ ·), n + tail.2)
        else none
termination_by remaining

theorem gather_of_run? {at_ n remaining : Nat} (h0 : remaining ≠ 0)
    (hrun : s.run? pos remaining = some (at_, n)) :
    s.gather offset pos remaining = match slice? s.image at_ n with
      | none => (.error (.missingPage (at_ / s.pageSize.bytes)), 0)
      | some bs => ((s.gather offset (pos + n) (remaining - n)).1.map (bs ++ ·),
          n + (s.gather offset (pos + n) (remaining - n)).2) := by
  rw [gather, if_neg h0]
  split
  · next hnone => cases hnone.symm.trans hrun
  · next hsome =>
    obtain ⟨rfl, rfl⟩ := Prod.mk.inj (Option.some.inj (hsome.symm.trans hrun))
    rfl

theorem checkedGather_eq (hs : s.Sound) (offset : Nat) {remaining : Nat}
    (h : pos + remaining ≤ s.length) :
    s.checkedGather offset pos remaining = some (s.gather offset pos remaining) := by
  have hl := hs.length
  rw [PageSize.nilLength] at hl
  induction remaining using Nat.strongRecOn generalizing pos with
  | ind remaining ih =>
    rw [checkedGather, checkedRun?_eq hs.length hs.words]
    by_cases h0 : remaining = 0
    · rw [if_pos h0, gather, if_pos h0]
    rw [if_neg h0]
    obtain ⟨page, next, -, hrun⟩ := run?_eq hs.length.ne (Nat.pos_of_ne_zero h0) h
    have hbounds := run?_bounds hrun
    rw [gather_of_run? h0 hrun, hrun]
    generalize s.pageSize.pageStart page + s.pageSize.offsetInPage pos = start at hbounds ⊢
    generalize min remaining ((1 + consecutive page next) * s.pageSize.bytes
      - s.pageSize.offsetInPage pos) = n at hbounds ⊢
    dsimp only
    cases hslice : slice? s.image start n with
    | none => rfl
    | some bs =>
      have hrest := @ih (remaining - n) (by omega) (pos + n) (by omega)
      dsimp only
      rw [if_pos ⟨hbounds.1, hbounds.2, length_of_slice? hslice, by omega⟩, hrest]
      rfl

theorem le_of_checkBounds {u : Unit} (h : s.checkBounds offset size = .ok u) :
    offset + size ≤ s.length := by
  rw [checkBounds] at h
  split_ifs at h with hle
  exact hle.2

/-- Copies bytes, after it has been looked at whether there is a page for every part of them. -/
def checkedCopy (s : PagedStream) (offset size : Nat) : Option (Except StreamFault Bytes × Nat) := do
  ensure (s.pageSize.pagesFor s.length = s.pages.length)
  s.checkedGather offset offset size

end PagedStream

namespace Reader
open Check
variable {r : Reader} {s : PagedStream}

def checkedRead (r : Reader) (offset size : Nat) : Option (Except StreamFault Bytes × Reader) :=
  match r.stream.checkBounds offset size with
  | .error e => some (.error e, r)
  | .ok () =>
    if size = 0 then some (.ok [], r)
    else do
      match ← r.stream.checkedDirect? offset size with
      | some answer => return (answer, r)
      | none =>
        match r.gathered.lookup (offset, size) with
        | some bs => return (.ok bs, r)
        | none =>
          let (answer, n) ← r.stream.checkedCopy offset size
          let r := { r with copied := r.copied + n }
          match answer with
          | .error e => return (.error e, r)
          | .ok bs => return (.ok bs, { r with gathered := ((offset, size), bs) :: r.gathered })

def checkedCopyInto (r : Reader) (offset size : Nat) : Option (Except StreamFault Bytes × Reader) :=
  if 2 ^ 32 ≤ size then some (.error (.tooShort offset 0xffffffff r.stream.length), r)
  else match r.stream.checkBounds offset size with
    | .error e => some (.error e, r)
    | .ok () => do
      let (answer, n) ← r.stream.checkedCopy offset size
      return (answer, { r with copied := r.copied + n })

def checkedPerform (r : Reader) : ReadRequest → Option (Except StreamFault Bytes × Reader)
  | .read offset size => r.checkedRead offset size
  | .copyInto offset size => r.checkedCopyInto offset size

/-- The answers to requests one after another, and the reader afterwards. -/
def checkedRun (r : Reader) :
    List ReadRequest → Option (List (Except StreamFault Bytes) × Reader)
  | [] => some ([], r)
  | q :: qs => do
    let (answer, r) ← r.checkedPerform q
    let (answers, r) ← r.checkedRun qs
    return (answer :: answers, r)

section
variable (hs : r.stream.Sound)
include hs

theorem checkedCopy_eq {offset size : Nat} (h : offset + size ≤ r.stream.length) :
    r.stream.checkedCopy offset size = some (r.stream.gather offset offset size) := by
  rw [PagedStream.checkedCopy, ensure_of r.stream.pages_length.symm]
  exact PagedStream.checkedGather_eq hs offset h

theorem checkedRead_eq (offset size : Nat) : r.checkedRead offset size = some (r.read offset size) := by
  rw [checkedRead, read]
  cases hbounds : r.stream.checkBounds offset size with
  | error e => rfl
  | ok u =>
    have hle := PagedStream.le_of_checkBounds hbounds
    by_cases h0 : size = 0
    · simp only [if_pos h0]
    simp only [if_neg h0, PagedStream.checkedDirect?_eq hs (Nat.pos_of_ne_zero h0) hle,
      checkedCopy_eq hs hle, Option.bind_eq_bind, Option.bind_some]
    cases r.stream.direct? offset size with
    | some answer => rfl
    | none =>
      cases r.gathered.lookup (offset, size) with
      | some bs => rfl
      | none =>
        obtain ⟨answer, n⟩ := r.stream.gather offset offset size
        cases answer <;> rfl

theorem checkedCopyInto_eq (offset size : Nat) :
    r.checkedCopyInto offset size = some (r.copyInto offset size) := by
  rw [checkedCopyInto, copyInto]
  split_ifs with hword
  · rfl
  · cases hbounds : r.stream.checkBounds offset size with
    | error e => rfl
    | ok u =>
      dsimp only
      rw [checkedCopy_eq hs (PagedStream.le_of_checkBounds hbounds)]
      rfl

end

theorem stream_read (r : Reader) (offset size : Nat) : (r.read offset size).2.stream = r.stream := by
  rw [read]
  split
  · rfl
  split_ifs
  · rfl
  split
  · rfl
  split
  · rfl
  dsimp only
  split <;> rfl

theorem stream_copyInto (r : Reader) (offset size : Nat) :
    (r.copyInto offset size).2.stream = r.stream := by
  rw [copyInto]
  split_ifs
  · rfl
  split <;> rfl

/-- By induction on the requests. A reader keeps its stream. -/
theorem checkedRun_eq (hs : r.stream.Sound) (qs : List ReadRequest) :
    r.checkedRun qs = some (r.run qs) := by
  induction qs generalizing r with
  | nil => rfl
  | cons q qs ih =>
    have hstep : r.checkedPerform q = some (r.perform q) ∧ (r.perform q).2.stream = r.stream := by
      cases q with
      | read offset size => exact ⟨checkedRead_eq hs offset size, stream_read r offset size⟩
      | copyInto offset size =>
        exact ⟨checkedCopyInto_eq hs offset size, stream_copyInto r offset size⟩
    have hrest := ih (r := (r.perform q).2) (hstep.2.symm ▸ hs)
    rw [checkedRun, hstep.1, run]
    show ((r.perform q).2.checkedRun qs).bind _ = _
    rw [hrest]
    rfl

end Reader
end Pdb
