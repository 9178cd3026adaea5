import Pdb.Proofs.CheckedReads
import Pdb.Proofs.ImageRoundTrip

/-! # Reading the directory with checks

What stands in a file before its streams: the header, the pages of the map of the directory, those of
the directory itself, and the words on them. `ClaimsOf` is the invariant of the loops that claim
pages; `meets_claimMap` and `meets_directoryWords` say that the loops over pages, which stop as soon
as they have enough, do what `Container.directoryPages` and `Container.directoryBytes` say.
-/

namespace Pdb

namespace Container

structure Header where
  pageSize : PageSize
  activeMap : Nat
  pageCount : Nat
  directoryLength : Nat

def header (image : Array UInt8) : Except ContainerFault Header := do
  if piece image 0 smallMagic.length = smallMagic then throw .smallContainer
  if piece image 16 8 = portableMark then throw .portable
  if piece image 0 magic.length ≠ magic then throw .magic
  if image.size < headerLength then throw .tooSmall
  let activeMap := wordAt image 36
  let pageCount := wordAt image 40
  let directoryLength := wordAt image 44
  if activeMap ≠ 1 ∧ activeMap ≠ 2 then throw .activeMap
  let pageSize ← headerPageSize (wordAt image 32)
  if pageCount = 0 then throw .noPages
  if directoryLength % 4 ≠ 0 then throw .directorySize
  if directoryLength = 0 then throw .directoryEmpty
  return { pageSize, activeMap, pageCount, directoryLength }

/-- What follows the header. -/
def parseBody (image : Array UInt8) (h : Header) : Except ContainerFault Container := do
  let pages := h.pageSize.pagesFor h.directoryLength
  let mapPages := h.pageSize.pagesFor (4 * pages)
  if min image.size h.pageSize.bytes < headerLength + 4 * mapPages then throw .directoryTooLarge
  let map := words (piece image headerLength (4 * mapPages))
  let (pages, claims) ← directoryPages image h.pageSize (.start h.pageSize h.pageCount) map pages
  let directory ← directoryBytes image h.pageSize pages h.directoryLength
  let streams ← streamEntries h.pageSize h.pageCount claims (words directory)
  return { image, pageSize := h.pageSize, activeMap := h.activeMap, pageCount := h.pageCount, streams }

theorem parse_eq_bind (image : Array UInt8) : parse image = header image >>= parseBody image := by
  rw [parse, header]
  simp only [ite_bind_eq, bind_assoc, pure_bind]
  rfl

theorem wordAt_lt (image : Array UInt8) (offset : Nat) : wordAt image offset < 2 ^ 32 := by
  have hlength : (piece image offset 4).length ≤ 4 := by
    rw [piece_eq, List.length_take]
    exact Nat.min_le_left ..
  exact Nat.lt_of_lt_of_le (Bytes.leNat_lt _)
    (Nat.pow_le_pow_right (by decide : 0 < 256) hlength)

/-- What a header has that is not refused. -/
structure Header.Valid (h : Header) (image : Array UInt8) : Prop where
  image_size : headerLength ≤ image.size
  smallest : PageSize.smallest.exponent ≤ h.pageSize.exponent
  largest : h.pageSize.exponent ≤ PageSize.largest.exponent
  pageCount_lt : h.pageCount < 2 ^ 32
  length_lt : h.directoryLength < 2 ^ 32
  length_mod : h.directoryLength % 4 = 0
  length_ne : h.directoryLength ≠ 0

theorem range_of_headerPageSize {n : Nat} {size : PageSize} (h : headerPageSize n = .ok size) :
    PageSize.smallest.exponent ≤ size.exponent ∧ size.exponent ≤ PageSize.largest.exponent := by
  rw [headerPageSize] at h
  cases hn : PageSize.ofNat? n with
  | none =>
    rw [hn] at h
    cases h
  | some s =>
    rw [hn] at h
    dsimp only at h
    split_ifs at h with hrange
    cases h
    omega

theorem valid_of_header {image : Array UInt8} {h : Header} (hok : header image = .ok h) :
    h.Valid image := by
  rw [header] at hok
  obtain ⟨-, hok⟩ := of_ite_eq_ok hok nofun
  obtain ⟨-, hok⟩ := of_ite_eq_ok hok nofun
  obtain ⟨-, hok⟩ := of_ite_eq_ok hok nofun
  obtain ⟨hlong, hok⟩ := of_ite_eq_ok hok nofun
  obtain ⟨-, hok⟩ := of_ite_eq_ok hok nofun
  obtain ⟨size, hsize, hok⟩ := exists_of_bind_eq_ok hok
  obtain ⟨-, hok⟩ := of_ite_eq_ok hok nofun
  obtain ⟨hmod, hok⟩ := of_ite_eq_ok hok nofun
  obtain ⟨hne, hok⟩ := of_ite_eq_ok hok nofun
  cases hok
  obtain ⟨hsmall, hlarge⟩ := range_of_headerPageSize hsize
  exact ⟨Nat.not_lt.1 hlong, hsmall, hlarge, wordAt_lt .., wordAt_lt .., not_not.1 hmod, hne⟩

/-! ### Words -/

theorem words_of_length_lt {bs : Bytes} (h : bs.length < 4) : words bs = [] := by
  rw [words_eq, Nat.div_eq_of_lt h]
  rfl

theorem words_of_le {bs : Bytes} (h : 4 ≤ bs.length) :
    words bs = Bytes.leNat (bs.take 4) :: words (bs.drop 4) := by
  have hlength : (bs.take 4).length = 4 := by
    rw [List.length_take, Nat.min_eq_left h]
  have hlt := Bytes.leNat_lt (bs.take 4)
  have hbytes := Bytes.leBytes_leNat (bs.take 4)
  rw [hlength] at hlt hbytes
  have hword := words_leBytes_append hlt (bs.drop 4)
  rwa [hbytes, List.take_append_drop] at hword

theorem length_words (bs : Bytes) : (words bs).length = bs.length / 4 := by
  induction h : bs.length using Nat.strongRecOn generalizing bs with
  | ind n ih =>
    by_cases hlt : n < 4
    · rw [words_of_length_lt (h ▸ hlt), Nat.div_eq_of_lt hlt]
      rfl
    · rw [words_of_le (by omega), List.length_cons, ih (n - 4) (by omega) _ (by simp [h])]
      omega

theorem words_append {as : Bytes} (h : as.length % 4 = 0) (bs : Bytes) :
    words (as ++ bs) = words as ++ words bs := by
  induction hn : as.length using Nat.strongRecOn generalizing as with
  | ind n ih =>
    by_cases h0 : n = 0
    · rw [List.length_eq_zero_iff.1 (hn.trans h0)]
      rfl
    · have hle : 4 ≤ as.length := by omega
      rw [words_of_le hle, words_of_le (by rw [List.length_append]; omega),
        List.take_append_of_le_length hle, List.drop_append_of_le_length hle,
        ih (n - 4) (by omega) (by rw [List.length_drop]; omega) (by rw [List.length_drop, hn])]
      rfl

theorem lt_of_mem_words {bs : Bytes} {n : Nat} (h : n ∈ words bs) : n < 2 ^ 32 := by
  rw [words_eq] at h
  obtain ⟨x, -, rfl⟩ := List.mem_map.1 h
  exact x.toNat_lt

end Container

namespace Layout
open Check Checked Container
variable {image : Array UInt8} {size : PageSize} {c : Claims} {count wanted : Nat}

/-! ### The pages of the directory -/

/-- Claims the pages of the directory that are listed on a page of the map, and says whether the loop
over the map ends here. -/
def claimListed (wanted : Nat) : (c : Claims) → (pages listed : List Nat) →
    Checked ContainerFault (Claims × List Nat × Bool)
  | c, pages, [] => return (c, pages, false)
  | c, pages, p :: ps => do
    if pages.length = wanted then return (c, pages, true)
    let c ← total ((c.claimDirectoryPage p).mapError .claim)
    claimListed wanted c (pages ++ [p]) ps

/-- Claims the pages of the map, and those that are listed there. -/
def claimMap (image : Array UInt8) (size : PageSize) (wanted : Nat) : (c : Claims) →
    (pages map : List Nat) → Checked ContainerFault (Claims × List Nat)
  | c, pages, [] => return (c, pages)
  | c, pages, p :: ps => do
    let c ← total ((c.claimDirectoryPage p).mapError .claim)
    let bytes ← total (pageBytes image size p)
    ensure (bytes.length % 4 = 0)
    let (c, pages, full) ← claimListed wanted c pages (words bytes)
    if full then return (c, pages)
    claimMap image size wanted c pages ps

/-- The claims on a file of `count` pages are those for `ps`: no page is claimed twice, and none that
is special. -/
structure ClaimsOf (size : PageSize) (count : Nat) (c : Claims) (ps : List Nat) : Prop where
  pageSize : c.pageSize = size
  pageCount : c.pageCount = count
  claimed : c.claimed.Perm ps
  nodup : ps.Nodup
  inRange : ∀ p ∈ ps, p < count ∧ size.isSpecial p = false

theorem ClaimsOf.perm {ps qs : List Nat} (h : ClaimsOf size count c ps) (hperm : ps.Perm qs) :
    ClaimsOf size count c qs :=
  ⟨h.pageSize, h.pageCount, h.claimed.trans hperm, hperm.nodup_iff.1 h.nodup,
    fun p hp => h.inRange p (hperm.mem_iff.2 hp)⟩

theorem ClaimsOf.claim {ps : List Nat} {p : Nat} {c' : Claims} (h : ClaimsOf size count c ps)
    (hclaim : (c.claimDirectoryPage p).mapError ContainerFault.claim = .ok c') :
    ClaimsOf size count c' (p :: ps) := by
  obtain ⟨rfl, rfl, hperm, hnodup, hrange⟩ := h
  rw [Claims.claimDirectoryPage] at hclaim
  split_ifs at hclaim with hspecial hout hbusy
  · cases hclaim
  · cases hclaim
  · cases hclaim
  cases hclaim
  have hlt : p < c.pageCount := Nat.not_le.1 hout
  have hnew : p ∉ ps := fun hmem => hbusy (by
    rw [Claims.isBusy]
    exact decide_eq_true ⟨hlt, .inr (hperm.mem_iff.2 hmem)⟩)
  refine ⟨rfl, rfl, hperm.cons p, List.nodup_cons.2 ⟨hnew, hnodup⟩, ?_⟩
  exact List.forall_mem_cons.2 ⟨⟨hlt, Bool.eq_false_iff.2 hspecial⟩, hrange⟩

theorem meets_claimListed {pages ps qs : List Nat} (h : ClaimsOf size count c qs)
    (hle : pages.length ≤ wanted) :
    Meets (fun r c' => r = (c', pages ++ ps.take (wanted - pages.length),
          decide (wanted - pages.length < ps.length))
        ∧ ClaimsOf size count c' (ps.take (wanted - pages.length) ++ qs))
      (claimListed wanted c pages ps) (claimAll c (ps.take (wanted - pages.length))) := by
  induction ps generalizing c pages qs with
  | nil =>
    rw [claimListed, List.take_nil]
    exact meets_pure ⟨by simp, h⟩
  | cons p ps ih =>
    rw [claimListed]
    by_cases hfull : pages.length = wanted
    · rw [if_pos hfull, hfull, Nat.sub_self, List.take_zero]
      exact meets_pure ⟨by simp, h⟩
    · obtain ⟨k, hk⟩ : ∃ k, wanted - pages.length = k + 1 := ⟨wanted - pages.length - 1, by omega⟩
      have hk' : wanted - (pages ++ [p]).length = k := by
        rw [List.length_append, List.length_singleton]
        omega
      rw [if_neg hfull, hk, List.take_succ_cons, claimAll]
      refine Meets.bind (meets_total (R := fun c' c'' => c' = c'' ∧ ClaimsOf size count c' (p :: qs))
        fun c' hc' => ⟨rfl, h.claim hc'⟩) ?_
      rintro c' _ ⟨rfl, hc'⟩
      have hlt : (pages ++ [p]).length ≤ wanted := by
        rw [List.length_append, List.length_singleton]
        omega
      have hrest := ih hc' hlt
      rw [hk'] at hrest
      refine hrest.mono ?_
      rintro _ c'' ⟨rfl, hc''⟩
      refine ⟨by simp, hc''.perm ?_⟩
      exact List.perm_middle

theorem length_of_pageBytes {p : Nat} {bs : Bytes} (h : pageBytes image size p = .ok bs) :
    bs.length = size.bytes := by
  rw [pageBytes] at h
  split at h
  · next hslice =>
    cases h
    exact PagedStream.length_of_slice? hslice
  · cases h

/-- By induction on the pages of the map. As many of them are left as the pages that are still wanted
need, so the loop does not end before the last one. -/
theorem meets_claimMap {k : Nat} (hk : size.bytes = 4 * k) {pages map qs : List Nat}
    (h : ClaimsOf size count c qs) (hle : pages.length ≤ wanted)
    (henough : wanted - pages.length ≤ map.length * k)
    (hneeded : map = [] ∨ (map.length - 1) * k < wanted - pages.length) :
    Meets (fun r t => r = (t.2, pages ++ t.1) ∧ t.1.length = wanted - pages.length
        ∧ ClaimsOf size count t.2 (map ++ t.1 ++ qs))
      (claimMap image size wanted c pages map)
      (directoryPages image size c map (wanted - pages.length)) := by
  induction map generalizing c pages qs with
  | nil =>
    rw [claimMap, directoryPages]
    rw [List.length_nil, Nat.zero_mul, Nat.le_zero] at henough
    exact meets_pure ⟨by simp, henough.symm, h⟩
  | cons p ps ih =>
    rw [List.length_cons, Nat.add_sub_cancel] at hneeded
    rw [List.length_cons, Nat.add_mul, Nat.one_mul] at henough
    have hneeded := hneeded.resolve_left (List.cons_ne_nil p ps)
    rw [claimMap, directoryPages]
    refine Meets.bind (meets_total (R := fun c' c'' => c' = c'' ∧ ClaimsOf size count c' (p :: qs))
      fun c' hc' => ⟨rfl, h.claim hc'⟩) ?_
    rintro c' _ ⟨rfl, hc'⟩
    refine Meets.bind (meets_total (R := fun bs bs' => bs = bs' ∧ bs.length = size.bytes)
      fun bs hbs => ⟨rfl, length_of_pageBytes hbs⟩) ?_
    rintro bs _ ⟨rfl, hbs⟩
    have hwords : (words bs).length = k := by
      rw [length_words, hbs, hk]
      omega
    rw [lift_bind (ensure_of (by omega))]
    refine (meets_claimListed hc' hle).bind ?_
    rintro _ c'' ⟨rfl, hc''⟩
    dsimp only
    by_cases hfull : wanted - pages.length < (words bs).length
    · -- less than a page of the map is wanted, so it is the last one
      have hlast : ps = [] := by
        by_contra hne
        have := Nat.le_mul_of_pos_left k (List.length_pos_iff.2 hne)
        omega
      subst hlast
      rw [if_pos (decide_eq_true hfull), directoryPages]
      refine meets_pure ⟨by simp, ?_, hc''.perm ?_⟩
      · simp only [List.append_nil, List.length_take]
        omega
      · simp [List.perm_middle]
    · have hlisted : ((words bs).take (wanted - pages.length)).length = k := by
        rw [List.length_take]
        omega
      have hrest : wanted - (pages ++ (words bs).take (wanted - pages.length)).length
          = wanted - pages.length - ((words bs).take (wanted - pages.length)).length := by
        rw [List.length_append, Nat.sub_sub]
      rw [if_neg (by simpa using hfull), ← hrest]
      rw [List.length_append, hlisted] at hrest
      refine (ih hc'' ?_ ?_ ?_).bind_right ?_
      · rw [List.length_append]
        omega
      · rw [List.length_append]
        omega
      · refine or_iff_not_imp_left.2 fun hnil => ?_
        obtain ⟨j, hj⟩ := Nat.exists_eq_succ_of_ne_zero (mt List.length_eq_zero_iff.1 hnil)
        rw [hj, Nat.succ_mul] at hneeded
        rw [hj, Nat.succ_sub_one, List.length_append, hlisted]
        omega
      · rintro _ ⟨more, c₃⟩ ⟨rfl, hlength, hc₃⟩
        refine ⟨_, rfl, by simp, ?_, hc₃.perm ?_⟩
        · rw [List.length_append, hlength, List.length_append]
          omega
        · refine List.perm_iff_count.2 fun q => ?_
          simp only [List.count_append, List.count_cons]
          omega

/-! ### The words of the directory -/

/-- Reads the directory page by page. -/
def directoryWords (image : Array UInt8) (size : PageSize) : (wanted : Nat) → (pages : List Nat) →
    Checked ContainerFault (List Nat)
  | _, [] => return []
  | wanted, p :: ps => do
    let bytes ← total (pageBytes image size p)
    let chunk ← slice bytes 0 (min wanted bytes.length)
    let wanted ← minus wanted chunk.length
    return words chunk ++ (← directoryWords image size wanted ps)

theorem directoryBytes_cons (p : Nat) (ps : List Nat) (wanted : Nat) :
    directoryBytes image size (p :: ps) wanted = do
      let bytes ← pageBytes image size p
      let rest ← directoryBytes image size ps (wanted - bytes.length)
      return bytes.take wanted ++ rest := by
  rw [directoryBytes, List.mapM_cons]
  cases pageBytes image size p with
  | error e => rfl
  | ok bytes =>
    simp only [directoryBytes]
    cases ps.mapM (pageBytes image size) with
    | error e => rfl
    | ok rest => exact congrArg Except.ok List.take_append

theorem meets_directoryWords (hsize : size.bytes % 4 = 0) {pages : List Nat} (h : wanted % 4 = 0) :
    Meets (fun ws bs => ws = words bs ∧ bs.length = min wanted (pages.length * size.bytes))
      (directoryWords image size wanted pages) (directoryBytes image size pages wanted) := by
  induction pages generalizing wanted with
  | nil =>
    rw [directoryWords]
    exact meets_pure (by simp [words_nil])
  | cons p ps ih =>
    rw [directoryWords, directoryBytes_cons]
    refine Meets.bind (meets_total (R := fun bs bs' => bs = bs' ∧ bs.length = size.bytes)
      fun bs hbs => ⟨rfl, length_of_pageBytes hbs⟩) ?_
    rintro bs _ ⟨rfl, hbs⟩
    have htake : (bs.take (min wanted bs.length)).drop 0 = bs.take wanted := by
      rw [List.drop_zero, ← List.take_eq_take_min]
    have hchunk : (bs.take wanted).length % 4 = 0 := by
      rw [List.length_take]
      omega
    have hrest : wanted - (bs.take wanted).length = wanted - bs.length := by
      rw [List.length_take]
      omega
    rw [lift_bind (slice_of_le (Nat.zero_le _) (Nat.min_le_right ..)), htake,
      lift_bind (minus_of_le (by rw [List.length_take]; exact Nat.min_le_left ..)), hrest]
    refine (ih (by omega)).bind ?_
    rintro _ rest ⟨rfl, hlength⟩
    refine meets_pure ⟨(words_append hchunk rest).symm, ?_⟩
    rw [List.length_append, hlength, List.length_take, List.length_cons, Nat.add_mul, Nat.one_mul]
    omega

end Layout
end Pdb
