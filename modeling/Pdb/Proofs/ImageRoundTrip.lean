import Pdb.Database
import Pdb.Proofs.PageDealing
import Pdb.Proofs.PagedStream

/-! # Reading back what has been written

A container that is written from a plan is read as one with the same streams. Each page that is used
is used once, so what is read from it is what has been put there (`pageBytes_of_mem`); the header,
the map and the directory are read from such pages, and so is each stream, whose pages one behind
another begin with its bytes (`take_flatMap_spread`).
-/

namespace Pdb

namespace ImagePlan

/-! ### Words -/

theorem words_cons (n : Nat) (ns : List Nat) : words (n :: ns) = Bytes.leBytes 4 n ++ words ns :=
  List.flatMap_cons ..

theorem words_append (ns ms : List Nat) : words (ns ++ ms) = words ns ++ words ms :=
  List.flatMap_append

theorem length_words (ns : List Nat) : (words ns).length = 4 * ns.length := by
  induction ns with
  | nil => rfl
  | cons n ns ih =>
    rw [words_cons, List.length_append, Bytes.length_leBytes, ih, List.length_cons]
    omega

end ImagePlan

namespace Container
open ImagePlan (length_words words_cons)
variable {image : Array UInt8} {ns : List Nat}

theorem words_eq (bs : Bytes) :
    words bs = (Decoder.u32s.chunk (bs.length / 4) (bs.take (4 * (bs.length / 4)))).map
      UInt32.toNat := by
  have hlength : (bs.take (4 * (bs.length / 4))).length = 4 * (bs.length / 4) := by
    rw [List.length_take]
    omega
  rw [words, Decoder.u32s, Decoder.take, if_pos hlength]
  rfl

theorem words_nil : words [] = [] := rfl

/-- A word and the words behind it. -/
theorem words_leBytes_append {n : Nat} (hn : n < 2 ^ 32) (bs : Bytes) :
    words (Bytes.leBytes 4 n ++ bs) = n :: words bs := by
  have hcount : (Bytes.leBytes 4 n ++ bs).length / 4 = bs.length / 4 + 1 := by
    rw [List.length_append, Bytes.length_leBytes]
    omega
  have hmul : 4 * (bs.length / 4 + 1) = (Bytes.leBytes 4 n).length + 4 * (bs.length / 4) := by
    rw [Bytes.length_leBytes]
    omega
  have hword : (UInt32.ofNat (Bytes.leNat (Bytes.leBytes 4 n))).toNat = n := by
    rw [Bytes.leNat_leBytes, UInt32.toNat_ofNat']
    omega
  rw [words_eq, hcount, hmul, List.take_length_add_append, Decoder.u32s.chunk,
    List.take_left' (Bytes.length_leBytes 4 n), List.drop_left' (Bytes.length_leBytes 4 n),
    List.map_cons, hword, words_eq]

theorem words_words_append (hns : ∀ n ∈ ns, n < 2 ^ 32) (bs : Bytes) :
    words (ImagePlan.words ns ++ bs) = ns ++ words bs := by
  induction ns with
  | nil => rfl
  | cons n ns ih =>
    rw [words_cons, List.append_assoc, words_leBytes_append (hns n List.mem_cons_self),
      ih fun m hm => hns m (List.mem_cons_of_mem n hm), List.cons_append]

theorem words_words (hns : ∀ n ∈ ns, n < 2 ^ 32) : words (ImagePlan.words ns) = ns := by
  have h := words_words_append hns []
  rwa [words_nil, List.append_nil, List.append_nil] at h

theorem words_of_length {bs : Bytes} (h : bs.length = 4) : words bs = [Bytes.leNat bs] := by
  have hlt := Bytes.leNat_lt bs
  have hbytes := Bytes.leBytes_leNat bs
  rw [h] at hlt hbytes
  have hword := words_leBytes_append (n := Bytes.leNat bs) hlt []
  rwa [hbytes, List.append_nil, words_nil] at hword

/-! ### Pieces of an image -/

theorem piece_eq (start size : Nat) : piece image start size = (image.toList.drop start).take size := by
  rw [piece, Array.toList_extract, List.extract_eq_take_drop, Nat.add_sub_cancel_left]

theorem piece_of_append {pre bs post : Bytes} (h : image.toList = pre ++ bs ++ post) :
    piece image pre.length bs.length = bs := by
  rw [piece_eq, h, List.append_assoc, List.drop_left, List.take_left]

/-- A word of words in an image. -/
theorem wordAt_of_append {pre post : Bytes} {n i : Nat}
    (h : image.toList = pre ++ ImagePlan.words ns ++ post) (hi : ns[i]? = some n) (hn : n < 2 ^ 32) :
    wordAt image (pre.length + 4 * i) = n := by
  obtain ⟨hlt, rfl⟩ := List.getElem?_eq_some_iff.1 hi
  have hsplit : image.toList = (pre ++ ImagePlan.words (ns.take i)) ++ Bytes.leBytes 4 ns[i]
      ++ (ImagePlan.words (ns.drop (i + 1)) ++ post) := by
    conv_lhs => rw [h, ← List.take_append_drop i ns, List.drop_eq_getElem_cons hlt]
    simp only [ImagePlan.words_append, words_cons, List.append_assoc]
  have hpiece := piece_of_append hsplit
  rw [List.length_append, length_words, List.length_take, Nat.min_eq_left (Nat.le_of_lt hlt),
    Bytes.length_leBytes] at hpiece
  rw [wordAt, hpiece, Bytes.leNat_leBytes]
  exact Nat.mod_eq_of_lt hn

/-- A file with the magic of a container has none of the older forms. -/
theorem piece_of_magic {rest : Bytes} (h : image.toList = magic ++ rest) :
    piece image 0 magic.length = magic ∧ piece image 0 smallMagic.length ≠ smallMagic
      ∧ piece image 16 8 ≠ portableMark := by
  refine ⟨?_, fun hsmall => ?_, fun hportable => ?_⟩
  · rw [piece_eq, h, List.drop_zero, List.take_left]
  · have hle : magic.length ≤ smallMagic.length := by decide +kernel
    have htake := congrArg (List.take magic.length) hsmall
    rw [piece_eq, h, List.drop_zero, List.take_take, Nat.min_eq_left hle, List.take_left] at htake
    exact absurd htake (by decide +kernel)
  · have hdrop : 16 ≤ magic.length := by decide +kernel
    have htake : 8 ≤ (magic.drop 16).length := by decide +kernel
    rw [piece_eq, h, List.drop_append_of_le_length hdrop, List.take_append_of_le_length htake]
      at hportable
    exact absurd hportable (by decide +kernel)

/-! ### Claims -/

section
variable {c : Claims} {pages : List Nat}

theorem claimDirectoryPage_eq {page : Nat} (hfree : c.pageSize.isSpecial page = false)
    (hlt : page < c.pageCount) (hnew : page ∉ c.claimed) :
    c.claimDirectoryPage page = .ok { c with claimed := page :: c.claimed } := by
  have hbusy : c.isBusy page = false := by
    simp [Claims.isBusy, hfree, hnew]
  simp [Claims.claimDirectoryPage, hfree, Nat.not_le.2 hlt, hbusy]
  rfl

theorem claimAll_eq (hfree : ∀ p ∈ pages, c.pageSize.isSpecial p = false)
    (hlt : ∀ p ∈ pages, p < c.pageCount) (hnodup : (pages ++ c.claimed).Nodup) :
    claimAll c pages = .ok { c with claimed := pages.reverse ++ c.claimed } := by
  induction pages generalizing c with
  | nil => rfl
  | cons p ps ih =>
    obtain ⟨hnew, hnodup⟩ := List.nodup_cons.1 hnodup
    have hclaimed : p ∉ c.claimed := fun h => hnew (List.mem_append_right _ h)
    have hrest := ih (c := { c with claimed := p :: c.claimed })
      (fun q hq => hfree q (List.mem_cons_of_mem p hq))
      (fun q hq => hlt q (List.mem_cons_of_mem p hq))
      ((List.perm_middle.nodup_iff).2 (List.nodup_cons.2 ⟨hnew, hnodup⟩))
    rw [claimAll, claimDirectoryPage_eq (hfree p List.mem_cons_self) (hlt p List.mem_cons_self)
      hclaimed]
    refine hrest.trans ?_
    rw [List.reverse_cons, List.append_assoc]
    rfl

/-- A stream may have any pages of the file but the first. -/
theorem claimStream_eq {pageCount : Nat} (stream : Nat) (hcount : c.pageCount = pageCount)
    (hpos : ∀ p ∈ pages, p ≠ 0) (hlt : ∀ p ∈ pages, p < pageCount) :
    ∃ c', claimStream pageCount stream c pages = .ok c' ∧ c'.pageCount = pageCount := by
  induction pages generalizing c with
  | nil => exact ⟨c, rfl, hcount⟩
  | cons p ps ih =>
    have hp := hlt p List.mem_cons_self
    have hclaim : c.claimStreamPage stream p = .ok { c with claimed := p :: c.claimed } := by
      simp [Claims.claimStreamPage, hpos p List.mem_cons_self, hcount, Nat.not_le.2 hp]
      rfl
    obtain ⟨c', hc', hcount'⟩ := ih (c := { c with claimed := p :: c.claimed }) hcount
      (fun q hq => hpos q (List.mem_cons_of_mem p hq))
      (fun q hq => hlt q (List.mem_cons_of_mem p hq))
    refine ⟨c', ?_, hcount'⟩
    rw [claimStream, if_neg (Nat.not_le.2 hp), hclaim]
    exact hc'

end

/-! ### The directory -/

section
variable {size : PageSize} {pages : List Nat}

theorem pageBytes_eq {page : Nat} (h : size.pageStart page + size.bytes ≤ image.size) :
    pageBytes image size page = .ok (PagedStream.pageBytes image size page) := by
  rw [pageBytes, PagedStream.slice?_eq h]
  rfl

theorem directoryBytes_eq (h : ∀ p ∈ pages, size.pageStart p + size.bytes ≤ image.size)
    (length : Nat) : directoryBytes image size pages length
      = .ok ((pages.flatMap (PagedStream.pageBytes image size)).take length) := by
  have hmap : pages.mapM (pageBytes image size)
      = .ok (pages.map (PagedStream.pageBytes image size)) := by
    induction pages with
    | nil => rfl
    | cons p ps ih =>
      rw [List.mapM_cons, pageBytes_eq (h p List.mem_cons_self),
        ih fun q hq => h q (List.mem_cons_of_mem p hq)]
      rfl
  rw [directoryBytes, hmap, List.flatMap_def]
  rfl

/-- A map of one page lists all pages of the directory. -/
theorem directoryPages_eq {c : Claims} {map : Nat} {bs : Bytes} (hmap : pageBytes image size map = .ok bs)
    (hlisted : (words bs).take pages.length = pages)
    (hfree : ∀ p ∈ pages ++ [map], c.pageSize.isSpecial p = false)
    (hlt : ∀ p ∈ pages ++ [map], p < c.pageCount) (hnodup : (pages ++ [map]).Nodup)
    (hnew : c.claimed = []) :
    directoryPages image size c [map] pages.length
      = .ok (pages, { c with claimed := pages.reverse ++ [map] }) := by
  have hmem : map ∈ pages ++ [map] := List.mem_append_right _ List.mem_cons_self
  have hclaim := claimDirectoryPage_eq (hfree map hmem) (hlt map hmem) (hnew ▸ List.not_mem_nil)
  have hall := claimAll_eq (c := { c with claimed := [map] })
    (fun p hp => hfree p (List.mem_append_left _ hp))
    (fun p hp => hlt p (List.mem_append_left _ hp)) hnodup
  rw [hnew] at hclaim
  simp only [directoryPages, hclaim, Except.mapError, hmap, hlisted, hall, bind, Except.bind, pure,
    Except.pure, List.append_nil]

/-- The page numbers that a directory lists are dealt out to the streams as they were put together. -/
theorem dealPages_eq {lists : List (List Nat)} {lengths : List Nat} {pageCount stream : Nat}
    {c : Claims} (h : List.Forall₂ (fun n ps => ps.length = size.pagesFor n) lengths lists)
    (hcount : c.pageCount = pageCount) (hpos : ∀ p ∈ lists.flatten, p ≠ 0)
    (hlt : ∀ p ∈ lists.flatten, p < pageCount) (hstream : stream ≠ 0) :
    dealPages size pageCount stream c lengths lists.flatten
      = .ok (List.zipWith StreamEntry.mk lengths lists) := by
  induction h generalizing c stream with
  | nil => rfl
  | @cons n ps lengths lists hn _ ih =>
    rw [List.flatten_cons] at hpos hlt ⊢
    obtain ⟨c', hc', hcount'⟩ := claimStream_eq stream hcount
      (fun p hp => hpos p (List.mem_append_left _ hp))
      (fun p hp => hlt p (List.mem_append_left _ hp))
    have hrest := ih hcount' (fun p hp => hpos p (List.mem_append_right _ hp))
      (fun p hp => hlt p (List.mem_append_right _ hp)) (Nat.succ_ne_zero stream)
    have hroom : ¬ (ps ++ lists.flatten).length < ps.length := by
      rw [List.length_append]
      omega
    simp only [dealPages, hroom, ← hn, List.take_left, List.drop_left, hstream, hc', hrest, if_false,
      bind, Except.bind, pure, Except.pure, List.zipWith_cons_cons]

/-- The pages of stream 0 are not looked at. -/
theorem streamEntries_eq {lists : List (List Nat)} {lengths : List Nat} {pageCount : Nat}
    {c : Claims} (h : List.Forall₂ (fun n ps => ps.length = size.pagesFor n) lengths lists)
    (hne : lengths ≠ []) (hcount : c.pageCount = pageCount) (hpos : ∀ p ∈ lists.flatten, p ≠ 0)
    (hlt : ∀ p ∈ lists.flatten, p < pageCount) :
    streamEntries size pageCount c (lengths.length :: (lengths ++ lists.flatten))
      = .ok ((List.zipWith StreamEntry.mk lengths lists).set 0 ⟨0, []⟩) := by
  cases h with
  | nil => exact absurd rfl hne
  | @cons n ps lengths lists hn h =>
    rw [List.flatten_cons] at hpos hlt ⊢
    have hrest := dealPages_eq h hcount (fun p hp => hpos p (List.mem_append_right _ hp))
      (fun p hp => hlt p (List.mem_append_right _ hp)) Nat.one_ne_zero
    have hroom : ¬ (ps ++ lists.flatten).length < ps.length := by
      rw [List.length_append]
      omega
    have hlength : ¬ ((n :: lengths) ++ (ps ++ lists.flatten)).length < (n :: lengths).length := by
      rw [List.length_append]
      omega
    have hcons : (n :: lengths).length ≠ 0 := Nat.succ_ne_zero _
    simp only [streamEntries, hlength, hcons, List.take_left, List.drop_left, dealPages, hroom, ← hn,
      hrest, if_false, if_true, bind, Except.bind, pure, Except.pure, List.zipWith_cons_cons,
      List.set_cons_zero]

end

/-! ### The whole file -/

theorem headerPageSize_eq {size : PageSize} (hsmall : PageSize.smallest.exponent ≤ size.exponent)
    (hlarge : size.exponent ≤ PageSize.largest.exponent) :
    headerPageSize size.bytes = .ok size := by
  have hlog : PageSize.ofNat? size.bytes = some size := by
    rw [PageSize.ofNat?, PageSize.bytes, Nat.log2_two_pow, if_pos rfl]
  rw [headerPageSize, hlog]
  simp only [Nat.not_lt.2 hsmall, Nat.not_lt.2 hlarge, or_self, if_false]
  rfl

/-- What has to be read of a file for it to be a container. -/
theorem parse_eq {size : PageSize} {activeMap pageCount length : Nat} {map pages : List Nat}
    {claims : Claims} {directory : Bytes} {streams : List StreamEntry}
    (hmagic : piece image 0 magic.length = magic)
    (hnotSmall : piece image 0 smallMagic.length ≠ smallMagic)
    (hnotPortable : piece image 16 8 ≠ portableMark)
    (hsize : headerPageSize (wordAt image 32) = .ok size) (hactive : wordAt image 36 = activeMap)
    (hone : activeMap = 1 ∨ activeMap = 2) (hcount : wordAt image 40 = pageCount)
    (hpos : 0 < pageCount) (hlength : wordAt image 44 = length) (hfour : length % 4 = 0)
    (hne : length ≠ 0) (hroom : headerLength + 4 * size.pagesFor (4 * size.pagesFor length)
      ≤ min image.size size.bytes)
    (hmap : words (piece image headerLength (4 * size.pagesFor (4 * size.pagesFor length))) = map)
    (hpages : directoryPages image size (.start size pageCount) map (size.pagesFor length)
      = .ok (pages, claims))
    (hdirectory : directoryBytes image size pages length = .ok directory)
    (hstreams : streamEntries size pageCount claims (words directory) = .ok streams) :
    parse image = .ok { image, pageSize := size, activeMap, pageCount, streams } := by
  have hlong : ¬ image.size < headerLength := by omega
  have hactive' : ¬ (activeMap ≠ 1 ∧ activeMap ≠ 2) := by omega
  have hpos' : pageCount ≠ 0 := Nat.ne_of_gt hpos
  have hroom' := Nat.not_lt.2 hroom
  simp only [parse, hnotSmall, hnotPortable, hmagic, hlong, hsize, hactive, hactive', hcount, hlength,
    hpos', hfour, hne, hroom', hmap, hpages, hdirectory, hstreams, ne_eq, not_true, if_false, bind,
    Except.bind, pure, Except.pure]

end Container

/-! ### Pages -/

theorem drop_flatMap_of_length {α : Type} {f : α → Bytes} {b : Nat} (i : Nat) {l : List α}
    (h : ∀ x ∈ l, (f x).length = b) : (l.flatMap f).drop (i * b) = (l.drop i).flatMap f := by
  induction i generalizing l with
  | zero => rw [Nat.zero_mul, List.drop_zero, List.drop_zero]
  | succ i ih =>
    cases l with
    | nil => simp
    | cons x l =>
      have hx := h x List.mem_cons_self
      rw [List.flatMap_cons, Nat.succ_mul, Nat.add_comm, ← List.drop_drop, List.drop_left' hx,
        List.drop_succ_cons, ih fun y hy => h y (List.mem_cons_of_mem x hy)]

theorem length_flatMap_of_length {α : Type} {f : α → Bytes} {b : Nat} {l : List α}
    (h : ∀ x ∈ l, (f x).length = b) : (l.flatMap f).length = l.length * b := by
  induction l with
  | nil => simp
  | cons x l ih =>
    rw [List.flatMap_cons, List.length_append, h x List.mem_cons_self,
      ih fun y hy => h y (List.mem_cons_of_mem x hy), List.length_cons, Nat.succ_mul, Nat.add_comm]

namespace ImagePlan
variable {size : PageSize} {pages : List Nat} {used : List (Nat × Bytes)} {i n : Nat} {bs : Bytes}
  {image : Array UInt8}

theorem length_pieces (size : PageSize) (n : Nat) (bs : Bytes) : (pieces size n bs).length = n := by
  induction n generalizing bs with
  | zero => rfl
  | succ n ih => rw [pieces, List.length_cons, ih]

theorem map_fst_spread (size : PageSize) (pages : List Nat) (bs : Bytes) :
    (spread size pages bs).map Prod.fst = pages :=
  List.map_fst_zip (Nat.le_of_eq (length_pieces size pages.length bs).symm)

theorem length_le_of_mem_spread {x : Nat × Bytes} (h : x ∈ spread size pages bs) :
    x.2.length ≤ size.bytes := by
  have hpiece : ∀ (n : Nat) (bs : Bytes), ∀ c ∈ pieces size n bs, c.length ≤ size.bytes := by
    intro n
    induction n with
    | zero => exact nofun
    | succ n ih =>
      intro bs c hc
      rcases List.mem_cons.1 hc with rfl | hc
      · exact List.length_take_le ..
      · exact ih _ c hc
  exact hpiece _ bs x.2 (List.of_mem_zip h).2

theorem lookup_of_mem (hnodup : (used.map Prod.fst).Nodup) (h : (i, bs) ∈ used) :
    used.lookup i = some bs := by
  induction used with
  | nil => exact nomatch h
  | cons x used ih =>
    obtain ⟨hnot, hnodup⟩ := List.nodup_cons.1 hnodup
    rcases List.mem_cons.1 h with rfl | h
    · rw [List.lookup_cons, beq_self_eq_true]
    · have hne : i ≠ x.1 := by
        rintro rfl
        exact hnot (List.mem_map.2 ⟨_, h, rfl⟩)
      rw [List.lookup_cons, beq_false_of_ne hne]
      exact ih hnodup h

theorem length_page (h : ∀ x ∈ used, x.2.length ≤ size.bytes) (i : Nat) :
    (page size used i).length = size.bytes := by
  have hle : ((used.lookup i).getD []).length ≤ size.bytes := by
    cases hl : used.lookup i with
    | none => exact Nat.zero_le _
    | some bs =>
      obtain ⟨l₁, l₂, rfl, _⟩ := List.lookup_eq_some_iff.1 hl
      exact h (i, bs) (by simp)
  rw [page, List.length_append, Bytes.zeros, List.length_replicate]
  omega

/-- A page of an image has what has been put on it, and zeros behind. -/
theorem pageBytes_of_mem (himage : image.toList = (List.range n).flatMap (page size used))
    (hused : ∀ x ∈ used, x.2.length ≤ size.bytes) (hnodup : (used.map Prod.fst).Nodup)
    (hi : i < n) (h : (i, bs) ∈ used) :
    PagedStream.pageBytes image size i = bs ++ Bytes.zeros (size.bytes - bs.length) := by
  have hlength : ∀ x ∈ List.range n, (page size used x).length = size.bytes :=
    fun x _ => length_page hused x
  have hrange : (List.range n).drop i = i :: (List.range n).drop (i + 1) := by
    rw [List.drop_eq_getElem_cons (by rwa [List.length_range]), List.getElem_range]
  rw [PagedStream.pageBytes, himage, PageSize.pageStart, drop_flatMap_of_length i hlength, hrange,
    List.flatMap_cons, List.take_left' (length_page hused i), page, lookup_of_mem hnodup h,
    Option.getD_some]

/-- The pages on which bytes have been put begin with these. -/
theorem take_flatMap_spread (hlen : bs.length ≤ pages.length * size.bytes)
    (h : ∀ x ∈ spread size pages bs,
      PagedStream.pageBytes image size x.1 = x.2 ++ Bytes.zeros (size.bytes - x.2.length)) :
    (pages.flatMap (PagedStream.pageBytes image size)).take bs.length = bs := by
  induction pages generalizing bs with
  | nil =>
    rw [List.length_nil, Nat.zero_mul, Nat.le_zero, List.length_eq_zero_iff] at hlen
    rw [hlen]
    rfl
  | cons p ps ih =>
    rw [List.length_cons, Nat.succ_mul] at hlen
    have hspread : spread size (p :: ps) bs
        = (p, bs.take size.bytes) :: spread size ps (bs.drop size.bytes) := rfl
    rw [hspread] at h
    have hdrop : (bs.drop size.bytes).length ≤ ps.length * size.bytes := by
      rw [List.length_drop]
      omega
    have hrest := ih hdrop fun x hx => h x (List.mem_cons_of_mem _ hx)
    rw [List.flatMap_cons, h _ List.mem_cons_self]
    by_cases hshort : bs.length ≤ size.bytes
    · simp only [List.take_of_length_le hshort, List.append_assoc, List.take_left]
    · have hfull : (bs.take size.bytes).length = size.bytes := by
        rw [List.length_take]
        omega
      have hsplit : bs.length = (bs.take size.bytes).length + (bs.drop size.bytes).length := by
        rw [List.length_take, List.length_drop]
        omega
      simp only [hfull, Nat.sub_self, Bytes.zeros, List.replicate_zero, List.append_nil]
      rw [hsplit, List.take_length_add_append, hrest, List.take_append_drop]

/-! ### The pages of a plan -/

variable (p : ImagePlan)

/-- The pages of the streams. -/
def streamPages : List (List Nat) := (placeAll p.pageSize 3 p.streams).1

def directoryBytes : Bytes := directory p.streams p.streamPages

/-- The pages of the directory, and where to go on. -/
def dealtDirectory : List Nat × Nat :=
  deal p.pageSize (p.pageSize.pagesHolding p.directoryBytes.length) (placeAll p.pageSize 3 p.streams).2

def directoryPages : List Nat := p.dealtDirectory.1

/-- The page with the map of the directory, which is the last one. -/
def mapPage : Nat := nextFree p.pageSize p.dealtDirectory.2

/-- All pages on which something is put. -/
def usedPages : List (Nat × Bytes) :=
  (0, header p.pageSize (p.mapPage + 1) p.directoryBytes.length p.mapPage)
    :: (p.mapPage, words p.directoryPages)
    :: (spread p.pageSize p.directoryPages p.directoryBytes
      ++ (p.streamPages.zip p.streams).flatMap fun (pages, s) => spread p.pageSize pages s.bytes)

def imageBytes : Bytes := (List.range (p.mapPage + 1)).flatMap (page p.pageSize p.usedPages)

/-- The map of the directory fits on a page. -/
def Fits : Prop := 4 * p.pageSize.pagesHolding p.directoryBytes.length ≤ p.pageSize.bytes

instance : Decidable p.Fits := Nat.decLe _ _

variable {p}

theorem length_directoryPages :
    p.directoryPages.length = p.pageSize.pagesHolding p.directoryBytes.length :=
  length_deal ..

/-- A plan can be written exactly if the map of its directory fits on a page. -/
theorem encode_eq (p : ImagePlan) : p.encode = if p.Fits then some p.imageBytes else none := by
  have h : p.encode
      = if p.pageSize.bytes < 4 * p.directoryPages.length then none else some p.imageBytes := rfl
  rw [h, length_directoryPages]
  by_cases hfits : p.Fits
  · rw [if_pos hfits, if_neg (Nat.not_lt.2 hfits)]
  · rw [if_neg hfits, if_pos (Nat.not_le.1 hfits)]

theorem length_header (size : PageSize) (count length map : Nat) :
    (header size count length map).length = 56 := by
  rw [header, List.length_append, length_words]
  rfl

theorem length_directoryBytes : p.directoryBytes.length
    = 4 * (1 + p.streams.length + p.streamPages.flatten.length) := by
  rw [directoryBytes, directory, length_words]
  simp only [List.length_cons, List.length_append, List.length_map]
  omega

section
variable (hsize : 512 ≤ p.pageSize.bytes)
include hsize

theorem dealt_streamPages :
    Dealt p.pageSize 3 p.streamPages.flatten (placeAll p.pageSize 3 p.streams).2 :=
  dealt_placeAll (by omega) p.streams (by decide)

theorem dealt_usedPages :
    Dealt p.pageSize 3 (p.streamPages.flatten ++ (p.directoryPages ++ [p.mapPage])) (p.mapPage + 1) := by
  have hfour : 4 ≤ p.pageSize.bytes := by omega
  have hstreams := dealt_streamPages hsize
  have hdirectory := dealt_deal hfour (p.pageSize.pagesHolding p.directoryBytes.length)
    (Nat.lt_of_lt_of_le (by decide) hstreams.le_next)
  have hpos : 0 < p.dealtDirectory.2 :=
    Nat.lt_of_lt_of_le (by decide) (Nat.le_trans hstreams.le_next hdirectory.le_next)
  have hmap := dealt_nextFree hfour hpos
  exact hstreams.append (hdirectory.append hmap)

theorem streamPages_placed : List.Forall₂ (Placed p.pageSize) p.streams p.streamPages :=
  placeAll_placed (by omega) p.streams (by decide)

theorem map_fst_usedPages : p.usedPages.map Prod.fst
    = 0 :: p.mapPage :: (p.directoryPages ++ p.streamPages.flatten) := by
  have hstreams : ∀ {ss : List PlannedStream} {pages : List (List Nat)},
      List.Forall₂ (Placed p.pageSize) ss pages →
        ((pages.zip ss).flatMap fun (pages, s) => spread p.pageSize pages s.bytes).map Prod.fst
          = pages.flatten := by
    intro ss pages h
    induction h with
    | nil => rfl
    | cons h _ ih =>
      rw [List.zip_cons_cons, List.flatMap_cons, List.map_append, map_fst_spread, ih,
        List.flatten_cons]
  rw [usedPages, List.map_cons, List.map_cons, List.map_append, map_fst_spread,
    hstreams (streamPages_placed hsize)]

theorem nodup_usedPages : (p.usedPages.map Prod.fst).Nodup := by
  have hdealt := dealt_usedPages hsize
  have hzero : 0 ∉ p.streamPages.flatten ++ (p.directoryPages ++ [p.mapPage]) :=
    fun h => absurd (hdealt.le 0 h) (by decide)
  have hperm : (0 :: p.mapPage :: (p.directoryPages ++ p.streamPages.flatten)).Perm
      (0 :: (p.streamPages.flatten ++ (p.directoryPages ++ [p.mapPage]))) := by
    refine .cons 0 ?_
    rw [← List.append_assoc]
    exact (List.perm_append_comm.cons p.mapPage).trans (List.perm_append_singleton ..).symm
  rw [map_fst_usedPages hsize, hperm.nodup_iff]
  exact List.nodup_cons.2 ⟨hzero, hdealt.nodup⟩

/-- The image begins with the header. -/
theorem imageBytes_eq : ∃ tail, p.imageBytes = Container.magic ++ words [p.pageSize.bytes, 1,
    p.mapPage + 1, p.directoryBytes.length, 0, p.mapPage] ++ tail := by
  have hlookup : p.usedPages.lookup 0
      = some (header p.pageSize (p.mapPage + 1) p.directoryBytes.length p.mapPage) :=
    lookup_of_mem (nodup_usedPages hsize) List.mem_cons_self
  refine ⟨Bytes.zeros (p.pageSize.bytes - (header p.pageSize (p.mapPage + 1) p.directoryBytes.length
    p.mapPage).length) ++ ((List.range p.mapPage).map Nat.succ).flatMap (page p.pageSize p.usedPages), ?_⟩
  rw [imageBytes, List.range_succ_eq_map, List.flatMap_cons, page, hlookup, Option.getD_some, header,
    List.append_assoc]

variable (hfits : p.Fits)
include hfits

theorem length_le_of_mem_usedPages {x : Nat × Bytes} (hx : x ∈ p.usedPages) :
    x.2.length ≤ p.pageSize.bytes := by
  rcases List.mem_cons.1 hx with rfl | hx
  · rw [length_header]
    omega
  rcases List.mem_cons.1 hx with rfl | hx
  · rw [length_words, length_directoryPages]
    exact hfits
  rcases List.mem_append.1 hx with hx | hx
  · exact length_le_of_mem_spread hx
  · obtain ⟨_, _, hx⟩ := List.mem_flatMap.1 hx
    exact length_le_of_mem_spread hx

/-- What is put on a page is what is there. -/
theorem pageBytes_usedPages {i : Nat} {bs : Bytes} (h : (i, bs) ∈ p.usedPages) :
    PagedStream.pageBytes p.imageBytes.toArray p.pageSize i
      = bs ++ Bytes.zeros (p.pageSize.bytes - bs.length) := by
  have hdealt := dealt_usedPages hsize
  have hlt : i < p.mapPage + 1 := by
    have hi : i ∈ p.usedPages.map Prod.fst := List.mem_map.2 ⟨_, h, rfl⟩
    rw [map_fst_usedPages hsize] at hi
    simp only [List.mem_cons, List.mem_append] at hi
    rcases hi with rfl | rfl | hi | hi
    · exact Nat.succ_pos _
    · exact Nat.lt_succ_self _
    · exact hdealt.lt i (by simp [hi])
    · exact hdealt.lt i (List.mem_append_left _ hi)
  refine pageBytes_of_mem (n := p.mapPage + 1) ?_ (fun x hx => length_le_of_mem_usedPages hsize hfits hx)
    (nodup_usedPages hsize) hlt h
  rw [List.toList_toArray, imageBytes]

theorem length_imageBytes :
    p.imageBytes.length = (p.mapPage + 1) * p.pageSize.bytes := by
  rw [imageBytes, length_flatMap_of_length fun x _ =>
    length_page (fun x hx => length_le_of_mem_usedPages hsize hfits hx) x, List.length_range]

/-- All numbers in the file are words. -/
theorem directoryBytes_mapPage_lt (hlarge : p.pageSize.bytes ≤ 2 ^ 16) :
    p.directoryBytes.length ≤ 2 ^ 30 ∧ p.mapPage + 1 < 2 ^ 32 := by
  have hlength := p.length_directoryBytes
  have hnil : p.directoryBytes.length ≠ PageSize.nilLength := by
    rw [hlength, PageSize.nilLength]
    omega
  have hfew : 4 * p.pageSize.pagesHolding p.directoryBytes.length ≤ p.pageSize.bytes := hfits
  have hle := PagedStream.le_pagesHolding_mul p.pageSize p.directoryBytes.length
  have hmul : p.pageSize.pagesHolding p.directoryBytes.length * p.pageSize.bytes ≤ 2 ^ 14 * 2 ^ 16 :=
    Nat.mul_le_mul (by omega) hlarge
  have hstreams := placeAll_le (show 4 ≤ p.pageSize.bytes by omega) p.streams (show 0 < 3 by decide)
  have hdirectory := deal_le p.pageSize (p.pageSize.pagesHolding p.directoryBytes.length)
    (placeAll p.pageSize 3 p.streams).2
  have hmap := nextFree_le p.pageSize p.dealtDirectory.2
  rw [← dealtDirectory] at hdirectory
  rw [← streamPages] at hstreams
  rw [← mapPage] at hmap
  omega

theorem pageStart_le {i : Nat} (h : i < p.mapPage + 1) :
    p.pageSize.pageStart i + p.pageSize.bytes ≤ p.imageBytes.toArray.size := by
  have hle : (i + 1) * p.pageSize.bytes ≤ (p.mapPage + 1) * p.pageSize.bytes :=
    Nat.mul_le_mul_right _ h
  rw [Nat.succ_mul] at hle
  rwa [List.size_toArray, length_imageBytes hsize hfits, PageSize.pageStart]

/-- The directory is read. -/
theorem directoryBytes_imageBytes : Container.directoryBytes p.imageBytes.toArray p.pageSize
    p.directoryPages p.directoryBytes.length = .ok p.directoryBytes := by
  have hnil : p.directoryBytes.length ≠ PageSize.nilLength := by
    rw [length_directoryBytes, PageSize.nilLength]
    omega
  have hdealt := dealt_usedPages hsize
  have hin : ∀ i ∈ p.directoryPages,
      p.pageSize.pageStart i + p.pageSize.bytes ≤ p.imageBytes.toArray.size := fun i hi =>
    pageStart_le hsize hfits (hdealt.lt i (List.mem_append_right _ (List.mem_append_left _ hi)))
  have hlength : p.directoryBytes.length ≤ p.directoryPages.length * p.pageSize.bytes := by
    rw [length_directoryPages]
    exact PagedStream.le_pagesHolding_mul p.pageSize _
  rw [Container.directoryBytes_eq hin, take_flatMap_spread hlength]
  intro x hx
  exact pageBytes_usedPages hsize hfits
    (List.mem_cons_of_mem _ (List.mem_cons_of_mem _ (List.mem_append_left _ hx)))

variable (hlarge : p.pageSize.bytes ≤ 2 ^ 16)
include hlarge

/-- The map of the directory is read. -/
theorem directoryPages_imageBytes : Container.directoryPages p.imageBytes.toArray p.pageSize
    (.start p.pageSize (p.mapPage + 1)) [p.mapPage] (p.pageSize.pagesHolding p.directoryBytes.length)
      = .ok (p.directoryPages,
          ⟨p.pageSize, p.mapPage + 1, p.directoryPages.reverse ++ [p.mapPage]⟩) := by
  have hdealt := (dealt_usedPages hsize).sublist (List.sublist_append_right ..)
  have hlast := (directoryBytes_mapPage_lt hsize hfits hlarge).2
  have hmap := pageBytes_usedPages hsize hfits (List.mem_cons_of_mem _ List.mem_cons_self)
  have hread := Container.pageBytes_eq (pageStart_le hsize hfits (Nat.lt_succ_self p.mapPage))
  rw [hmap] at hread
  have hwords : ∀ n ∈ p.directoryPages, n < 2 ^ 32 := fun n hn =>
    Nat.lt_trans (hdealt.lt n (List.mem_append_left _ hn)) hlast
  rw [← length_directoryPages]
  refine Container.directoryPages_eq hread ?_ hdealt.free hdealt.lt hdealt.nodup rfl
  rw [Container.words_words_append hwords, List.take_left]

end

/-! ### Reading a written container -/

/-- What the directory says of the streams. -/
def entries (p : ImagePlan) : List StreamEntry :=
  (List.zipWith StreamEntry.mk (p.streams.map PlannedStream.length) p.streamPages).set 0 ⟨0, []⟩

/-- The container that is written from a plan. -/
def container (p : ImagePlan) : Container where
  image := p.imageBytes.toArray
  pageSize := p.pageSize
  activeMap := 1
  pageCount := p.mapPage + 1
  streams := p.entries

theorem pagesFor_eq (size : PageSize) {length : Nat} (h : length ≠ PageSize.nilLength) :
    size.pagesFor length = size.pagesHolding length := if_neg h

theorem pagesFor_length (size : PageSize) {s : PlannedStream}
    (h : s.bytes.length < PageSize.nilLength) :
    size.pagesFor s.length = size.pagesHolding s.bytes.length := by
  have hb := size.bytes_pos
  cases hs : s.contents? with
  | some bs =>
    rw [PlannedStream.bytes, hs, Option.getD_some] at h
    simp only [PlannedStream.length, PlannedStream.bytes, hs, Option.getD_some]
    exact pagesFor_eq size (Nat.ne_of_lt h)
  | none =>
    have hzero : (size.bytes - 1) / size.bytes = 0 := Nat.div_eq_of_lt (by omega)
    simp [PlannedStream.length, PlannedStream.bytes, hs, PageSize.pagesFor, PageSize.pagesHolding, hzero]

theorem pagesFor_eq_one {size : PageSize} {length : Nat} (hpos : 0 < length)
    (hle : length ≤ size.bytes) (hlarge : size.bytes ≤ 2 ^ 16) : size.pagesFor length = 1 := by
  have hnil : length ≠ PageSize.nilLength := by
    rw [PageSize.nilLength]
    omega
  rw [pagesFor_eq size hnil, PageSize.pagesHolding]
  exact Nat.div_eq_of_lt_le (by omega) (by omega)

/-- The entries of the directory are read. -/
theorem streamEntries_directoryBytes (hsize : 512 ≤ p.pageSize.bytes) (hfits : p.Fits)
    (hlarge : p.pageSize.bytes ≤ 2 ^ 16)
    (hlength : ∀ s ∈ p.streams, s.bytes.length < PageSize.nilLength) (hne : p.streams ≠ [])
    {c : Claims} (hcount : c.pageCount = p.mapPage + 1) :
    Container.streamEntries p.pageSize (p.mapPage + 1) c (Container.words p.directoryBytes)
      = .ok p.entries := by
  obtain ⟨htotal, hlast⟩ := directoryBytes_mapPage_lt hsize hfits hlarge
  have hdealt := (dealt_usedPages hsize).sublist (List.sublist_append_left ..)
  have hbytes := p.length_directoryBytes
  have hlengths : (p.streams.map PlannedStream.length).length = p.streams.length := List.length_map _
  have hwords : ∀ n ∈ p.streams.length :: (p.streams.map PlannedStream.length ++ p.streamPages.flatten),
      n < 2 ^ 32 := by
    intro n hn
    rcases List.mem_cons.1 hn with rfl | hn
    · omega
    rcases List.mem_append.1 hn with hn | hn
    · obtain ⟨s, hs, rfl⟩ := List.mem_map.1 hn
      have hlt := hlength s hs
      rw [PageSize.nilLength] at hlt
      rw [PlannedStream.length]
      split
      · next bs h =>
        rw [PlannedStream.bytes, h, Option.getD_some] at hlt
        omega
      · decide
    · exact Nat.lt_trans (hdealt.lt n hn) hlast
  have hlists : List.Forall₂ (fun n ps => ps.length = p.pageSize.pagesFor n)
      (p.streams.map PlannedStream.length) p.streamPages := by
    have hplaced := streamPages_placed hsize
    refine List.forall₂_map_left_iff.2 (List.forall₂_iff_get.2 ⟨hplaced.length_eq, fun i hi hi' => ?_⟩)
    exact (hplaced.get hi hi').length_eq.trans
      (pagesFor_length p.pageSize (hlength _ (List.get_mem _ _))).symm
  have hread := Container.streamEntries_eq (c := c) hlists (by simpa using hne) hcount
    (fun q hq => Nat.ne_of_gt (Nat.lt_of_lt_of_le (by decide) (hdealt.le q hq))) hdealt.lt
  rw [directoryBytes, directory]
  rw [hlengths] at hread
  rw [List.cons_append, Container.words_words hwords, hread, entries]

theorem parse_imageBytes (hsmall : PageSize.smallest.exponent ≤ p.pageSize.exponent)
    (hlarge : p.pageSize.exponent ≤ PageSize.largest.exponent) (hfits : p.Fits)
    (hlength : ∀ s ∈ p.streams, s.bytes.length < PageSize.nilLength) (hne : p.streams ≠ []) :
    Container.parse p.imageBytes.toArray = .ok p.container := by
  have hsize := PageSize.le_bytes hsmall
  have hbytes : p.pageSize.bytes ≤ 2 ^ 16 := Nat.pow_le_pow_right (show 0 < 2 by decide) hlarge
  obtain ⟨htotal, hlast⟩ := directoryBytes_mapPage_lt hsize hfits hbytes
  obtain ⟨tail, htail⟩ := imageBytes_eq hsize
  have himage : p.imageBytes.toArray.toList = _ := (List.toList_toArray).trans htail
  have hmagic : Container.magic.length = 32 := by decide +kernel
  have hword {i n : Nat} (hi : [p.pageSize.bytes, 1, p.mapPage + 1, p.directoryBytes.length, 0,
      p.mapPage][i]? = some n) (hn : n < 2 ^ 32) :
      Container.wordAt p.imageBytes.toArray (32 + 4 * i) = n := by
    have h := Container.wordAt_of_append himage hi hn
    rwa [hmagic] at h
  have hpageSize : Container.headerPageSize (Container.wordAt p.imageBytes.toArray 32)
      = .ok p.pageSize := by
    rw [hword (i := 0) rfl (by omega)]
    exact Container.headerPageSize_eq hsmall hlarge
  rw [List.append_assoc] at himage
  obtain ⟨hstart, hnotSmall, hnotPortable⟩ := Container.piece_of_magic himage
  have hcount := p.length_directoryBytes
  have hnil : p.directoryBytes.length ≠ PageSize.nilLength := by
    rw [hcount, PageSize.nilLength]
    omega
  have hholding := pagesFor_eq p.pageSize hnil
  have hpos : p.pageSize.pagesHolding p.directoryBytes.length ≠ 0 := by
    intro h
    have hle := PagedStream.le_pagesHolding_mul p.pageSize p.directoryBytes.length
    rw [h, Nat.zero_mul] at hle
    omega
  have hone : p.pageSize.pagesFor (4 * p.pageSize.pagesFor p.directoryBytes.length) = 1 := by
    rw [hholding]
    exact pagesFor_eq_one (by omega) hfits hbytes
  have hfirst := pageStart_le hsize hfits (Nat.succ_pos p.mapPage)
  rw [PageSize.pageStart, Nat.zero_mul] at hfirst
  have hroom : Container.headerLength + 4 * p.pageSize.pagesFor (4 * p.pageSize.pagesFor
      p.directoryBytes.length) ≤ min p.imageBytes.toArray.size p.pageSize.bytes := by
    rw [hone, Container.headerLength]
    omega
  have hmap : Container.words (Container.piece p.imageBytes.toArray Container.headerLength
      (4 * p.pageSize.pagesFor (4 * p.pageSize.pagesFor p.directoryBytes.length))) = [p.mapPage] := by
    have hpiece : (Container.piece p.imageBytes.toArray 52 4).length = 4 := by
      rw [Container.piece_eq, List.length_take, List.length_drop, Array.length_toList]
      omega
    have hword' := hword (i := 5) rfl (Nat.lt_of_succ_lt hlast)
    rw [hone, Container.headerLength, Container.words_of_length hpiece]
    exact congrArg (fun n => [n]) hword'
  exact Container.parse_eq hstart hnotSmall hnotPortable hpageSize (hword (i := 1) rfl (by decide))
    (.inl rfl) (hword (i := 2) rfl hlast) (Nat.succ_pos _) (hword (i := 3) rfl (by omega)) (by omega)
    (by omega) hroom hmap (hholding ▸ directoryPages_imageBytes hsize hfits hbytes)
    (directoryBytes_imageBytes hsize hfits)
    (streamEntries_directoryBytes hsize hfits hbytes hlength hne rfl)

/-! ### Reading the streams -/

section
variable {i : Nat} {s : PlannedStream} {bs : Bytes} (hsize : 512 ≤ p.pageSize.bytes)
  (hs : p.streams[i + 1]? = some s)
include hsize hs

theorem exists_entry : ∃ pages, (pages, s) ∈ p.streamPages.zip p.streams
    ∧ Placed p.pageSize s pages ∧ p.container.streams[i + 1]? = some ⟨s.length, pages⟩ := by
  have hplaced := streamPages_placed hsize
  obtain ⟨hlt, rfl⟩ := List.getElem?_eq_some_iff.1 hs
  have hlt' : i + 1 < p.streamPages.length := hplaced.length_eq ▸ hlt
  have hzip : (p.streamPages.zip p.streams)[i + 1]? = some (p.streamPages[i + 1], p.streams[i + 1]) := by
    rw [List.getElem?_zip_eq_some]
    exact ⟨List.getElem?_eq_getElem hlt', List.getElem?_eq_getElem hlt⟩
  refine ⟨_, List.mem_of_getElem? hzip, hplaced.get hlt hlt', ?_⟩
  rw [container, entries, List.getElem?_set_ne (by omega), List.getElem?_zipWith, List.getElem?_map, hs,
    List.getElem?_eq_getElem hlt']
  rfl

theorem isValid_container (h : s.contents? = none) : p.container.isValid (i + 1) = false := by
  obtain ⟨_, _, _, hentry⟩ := exists_entry hsize hs
  have hlength : s.length = PageSize.nilLength := by
    rw [PlannedStream.length, h]
  rw [Container.isValid, hentry]
  simp [StreamEntry.isNil, hlength]

variable (hbs : s.contents? = some bs) (hlength : bs.length < PageSize.nilLength)
include hbs hlength

theorem exists_entry_of_contents : ∃ pages, (pages, s) ∈ p.streamPages.zip p.streams
    ∧ pages.length = p.pageSize.pagesFor bs.length
    ∧ p.container.streams[i + 1]? = some ⟨bs.length, pages⟩
    ∧ ({ length := bs.length, pages } : StreamEntry).isNil = false := by
  obtain ⟨pages, hmem, hplaced, hentry⟩ := exists_entry hsize hs
  have hbytes : s.bytes = bs := by
    rw [PlannedStream.bytes, hbs, Option.getD_some]
  have hlen : s.length = bs.length := by
    rw [PlannedStream.length, hbs]
  have hcount : pages.length = p.pageSize.pagesFor bs.length := by
    rw [hplaced.length_eq, hbytes, pagesFor_eq p.pageSize (Nat.ne_of_lt hlength)]
  exact ⟨pages, hmem, hcount, hlen ▸ hentry, decide_eq_false (Nat.ne_of_lt hlength)⟩

/-- A stream of the container has the bytes of the stream that has been planned. -/
theorem openStream_container (hfits : p.Fits) : ∃ stream,
    p.container.openStream (i + 1) = .ok stream ∧ stream.InImage ∧ stream.length = bs.length
      ∧ stream.contents = bs := by
  obtain ⟨pages, hmem, hcount, hentry, hnil⟩ := exists_entry_of_contents hsize hs hbs hlength
  have hused : ∀ x ∈ spread p.pageSize pages bs, x ∈ p.usedPages := by
    intro x hx
    have hx' : x ∈ spread p.pageSize pages s.bytes := by
      rwa [PlannedStream.bytes, hbs, Option.getD_some]
    exact List.mem_cons_of_mem _ (List.mem_cons_of_mem _ (List.mem_append_right _
      (List.mem_flatMap.2 ⟨(pages, s), hmem, hx'⟩)))
  have hlt : ∀ q ∈ pages, q < p.mapPage + 1 := by
    intro q hq
    have hflat : q ∈ p.streamPages.flatten := List.mem_flatten.2 ⟨pages, (List.of_mem_zip hmem).1, hq⟩
    exact (dealt_usedPages hsize).lt q (List.mem_append_left _ hflat)
  let stream : PagedStream := {
    image := p.imageBytes.toArray, pageSize := p.pageSize, pages, length := bs.length
    pages_length := hcount }
  have hnew : PagedStream.new p.imageBytes.toArray p.pageSize pages bs.length = .ok stream := by
    rw [PagedStream.new, if_neg (Nat.ne_of_lt hlength), dif_pos hcount]
    rfl
  refine ⟨stream, ?_, fun q hq => pageStart_le hsize hfits (hlt q hq), rfl, ?_⟩
  · rw [Container.openStream, Container.entry, hentry]
    simp only [hnil, pure, Except.pure, bind, Except.bind, Bool.false_eq_true, if_false]
    exact congrArg (Except.mapError ContainerFault.mapping) hnew
  · have hroom : bs.length ≤ pages.length * p.pageSize.bytes := by
      rw [hcount, pagesFor_eq p.pageSize (Nat.ne_of_lt hlength)]
      exact PagedStream.le_pagesHolding_mul p.pageSize bs.length
    exact take_flatMap_spread hroom fun x hx => pageBytes_usedPages hsize hfits (hused x hx)

theorem isValid_container_of_contents : p.container.isValid (i + 1) = true := by
  obtain ⟨pages, _, _, hentry, hnil⟩ := exists_entry_of_contents hsize hs hbs hlength
  rw [Container.isValid, hentry]
  simp only [hnil, Bool.not_false]

theorem streamLength_container : p.container.streamLength (i + 1) = bs.length := by
  obtain ⟨pages, _, _, hentry, hnil⟩ := exists_entry_of_contents hsize hs hbs hlength
  rw [Container.streamLength, hentry]
  simp only [hnil, Bool.false_eq_true, if_false]

theorem contents_container (hfits : p.Fits) : p.container.contents (i + 1) = .ok bs := by
  obtain ⟨stream, hopen, hin, hstream, hcontents⟩ := openStream_container hsize hs hbs hlength hfits
  have hcopy := PagedStream.copy_eq hin (hstream ▸ hlength) (Nat.le_of_eq (Nat.zero_add stream.length))
  rw [List.drop_zero, hcontents, hstream, List.take_length] at hcopy
  rw [Container.contents, hopen]
  simp only [Except.mapError, bind, Except.bind, hstream, hcopy]

end

theorem length_entries (hsize : 512 ≤ p.pageSize.bytes) : p.entries.length = p.streams.length := by
  rw [entries, List.length_set, List.length_zipWith, List.length_map,
    ← (streamPages_placed hsize).length_eq, Nat.min_self]

/-- The streams have no other pages than those that have been dealt out for them. -/
theorem pages_entries_sublist (hsize : 512 ≤ p.pageSize.bytes) :
    (p.entries.flatMap StreamEntry.pages).Sublist p.streamPages.flatten := by
  have hlengths : (p.streams.map PlannedStream.length).length = p.streamPages.length := by
    rw [List.length_map, (streamPages_placed hsize).length_eq]
  have hmap : (List.zipWith StreamEntry.mk (p.streams.map PlannedStream.length) p.streamPages).map
      StreamEntry.pages = p.streamPages := by
    rw [List.map_zipWith, ← List.map_uncurry_zip_eq_zipWith]
    exact List.map_snd_zip (Nat.le_of_eq hlengths.symm)
  rw [List.flatMap_def, entries, List.map_set, hmap]
  cases p.streamPages with
  | nil => exact .refl _
  | cons pages lists => exact List.sublist_append_right ..

/-! ### Plans that are put together stream by stream -/

theorem streams_foldl_add (added : List PlannedStream) (p : ImagePlan) :
    (added.foldl add p).streams = p.streams ++ added ∧ (added.foldl add p).pageSize = p.pageSize := by
  induction added generalizing p with
  | nil => exact ⟨(List.append_nil _).symm, rfl⟩
  | cons s ss ih =>
    obtain ⟨hstreams, hsize⟩ := ih (p.add s)
    exact ⟨hstreams.trans (List.append_assoc ..), hsize⟩

end ImagePlan

/-- The stream `n` of a container is as it has been planned. -/
structure Container.Carries (c : Container) (n : Nat) (s : PlannedStream) : Prop where
  absent : s.contents? = none → c.isValid n = false
  present : ∀ bs, s.contents? = some bs →
    c.isValid n = true ∧ c.streamLength n = bs.length ∧ c.contents n = .ok bs
  /-- No two successive pages of a scattered stream are next to each other. -/
  apart : s.isScattered = true → ∀ e, c.streams[n]? = some e → e.pages.IsChain fun p q => p + 1 < q

namespace ImagePlan

/-- What is written from a plan is a container with the streams that have been added, each on pages of
its own, none of which is special. -/
theorem parse_encode (size : PageSize) (hsmall : PageSize.smallest.exponent ≤ size.exponent)
    (hlarge : size.exponent ≤ PageSize.largest.exponent) (added : List PlannedStream)
    (hlength : ∀ s ∈ added, s.bytes.length < PageSize.nilLength)
    (hfits : (added.foldl add (new size)).Fits) : ∃ image c,
      (added.foldl add (new size)).encode = some image ∧ Container.parse image.toArray = .ok c
      ∧ c.pageSize = size ∧ c.streams.length = added.length + 1
      ∧ (∀ i s, added[i]? = some s → c.Carries (i + 1) s)
      ∧ (c.streams.flatMap StreamEntry.pages).Nodup
      ∧ ∀ page ∈ c.streams.flatMap StreamEntry.pages, size.isSpecial page = false := by
  let p := added.foldl add (new size)
  obtain ⟨hstreams, hsize⟩ : p.streams = { contents? := some [] } :: added ∧ p.pageSize = size :=
    streams_foldl_add added (new size)
  have hbytes : 512 ≤ p.pageSize.bytes := hsize ▸ PageSize.le_bytes hsmall
  have hne : p.streams ≠ [] := hstreams ▸ List.cons_ne_nil _ _
  have hall : ∀ s ∈ p.streams, s.bytes.length < PageSize.nilLength := by
    rw [hstreams]
    intro s hs
    rcases List.mem_cons.1 hs with rfl | hs
    · decide
    · exact hlength s hs
  have hpages := pages_entries_sublist hbytes
  have hdealt := dealt_streamPages hbytes
  refine ⟨p.imageBytes, p.container, (encode_eq p).trans (if_pos hfits), ?_, hsize, ?_, ?_, ?_, ?_⟩
  · exact parse_imageBytes (hsize ▸ hsmall) (hsize ▸ hlarge) hfits hall hne
  · rw [container, length_entries hbytes, hstreams, List.length_cons]
  · intro i s hs
    have hs' : p.streams[i + 1]? = some s := by
      rwa [hstreams, List.getElem?_cons_succ]
    refine ⟨isValid_container hbytes hs', fun bs hbs => ?_, fun hscattered e he => ?_⟩
    · have hlt : bs.length < PageSize.nilLength := by
        have h := hlength s (List.mem_of_getElem? hs)
        rwa [PlannedStream.bytes, hbs, Option.getD_some] at h
      exact ⟨isValid_container_of_contents hbytes hs' hbs hlt,
        streamLength_container hbytes hs' hbs hlt, contents_container hbytes hs' hbs hlt hfits⟩
    · obtain ⟨pages, _, hplaced, hentry⟩ := exists_entry hbytes hs'
      obtain rfl := Option.some.inj (hentry.symm.trans he)
      exact hplaced.apart hscattered
  · exact hdealt.nodup.sublist hpages
  · exact fun q hq => hsize ▸ hdealt.free q (hpages.subset hq)

/-- A scattered stream, an absent one and one with a single byte. -/
theorem parse_encode_scattered : ∃ image c,
    (([⟨some (List.replicate 1200 7), true⟩, .absent, ⟨some [1], false⟩] : List PlannedStream).foldl add
      (new PageSize.smallest)).encode = some image ∧ Container.parse image.toArray = .ok c
      ∧ c.Carries 1 ⟨some (List.replicate 1200 7), true⟩ ∧ c.Carries 2 .absent
      ∧ c.contents 3 = .ok [1] := by
  obtain ⟨image, c, hencode, hparse, _, _, hcarries, _⟩ := parse_encode PageSize.smallest
    (by decide) (by decide) [⟨some (List.replicate 1200 7), true⟩, .absent, ⟨some [1], false⟩]
    (by decide +kernel) (by decide +kernel)
  exact ⟨image, c, hencode, hparse, hcarries 0 _ rfl, hcarries 1 _ rfl,
    ((hcarries 2 _ rfl).present [1] rfl).2.2⟩

end ImagePlan
end Pdb
