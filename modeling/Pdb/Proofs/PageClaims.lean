import Pdb.Proofs.PageDealing

/-! # Claims, one bit for each page

Whether a page of a file is taken is kept as a bit. The bits of the special pages are set interval by
interval, also in the last interval, which may be cut short; but a page that is claimed is recognised as
special by the low bits of its number (`isSpecialWord`). `ShownBy` relates the bits to claims that are
kept as a list: no request tells the two from each other, so what is busy after any requests are the
special pages and those that have been granted. Main statement: `run_start`.
-/

namespace Pdb

namespace PageSize
variable {size : PageSize}

/-- The bits of a page number that tell the place of the page in its interval. -/
def lowMask (size : PageSize) : UInt32 := (1 <<< UInt32.ofNat size.exponent) - 1

def isFreeMapWord (size : PageSize) (page : UInt32) : Bool :=
  page &&& size.lowMask = 1 ∨ page &&& size.lowMask = 2

def isSpecialWord (size : PageSize) (page : UInt32) : Bool := page = 0 ∨ size.isFreeMapWord page

theorem toNat_lowMask (h : size.exponent < 32) : size.lowMask.toNat = 2 ^ size.exponent - 1 := by
  have hlt : 2 ^ size.exponent < 2 ^ 32 := Nat.pow_lt_pow_right (by decide) h
  have hshift : ((1 : UInt32) <<< UInt32.ofNat size.exponent).toNat = 2 ^ size.exponent := by
    rw [UInt32.toNat_shiftLeft, UInt32.toNat_ofNat_of_lt' (Nat.lt_trans h (by decide)),
      Nat.mod_eq_of_lt h, UInt32.toNat_one, Nat.one_shiftLeft, Nat.mod_eq_of_lt hlt]
  have hpos := Nat.two_pow_pos size.exponent
  rw [lowMask, UInt32.toNat_sub_of_le, hshift, UInt32.toNat_one]
  rw [UInt32.le_iff_toNat_le, hshift, UInt32.toNat_one]
  exact hpos

theorem toNat_and_lowMask (h : size.exponent < 32) (page : UInt32) :
    (page &&& size.lowMask).toNat = page.toNat % size.bytes := by
  rw [UInt32.toNat_and, toNat_lowMask h, Nat.and_two_pow_sub_one_eq_mod, bytes]

theorem isSpecialWord_eq (h : size.exponent < 32) (page : UInt32) :
    size.isSpecialWord page = size.isSpecial page.toNat := by
  simp only [isSpecialWord, isFreeMapWord, isSpecial, isFreeMapPage, ← UInt32.toNat_inj,
    toNat_and_lowMask h]
  rfl

end PageSize

/-- A page that is asked for, for the directory or for a stream. -/
inductive ClaimRequest
  | directory (page : UInt32)
  | stream (stream page : UInt32)
  deriving DecidableEq, Repr

namespace ClaimRequest

def page : ClaimRequest → UInt32
  | .directory page => page
  | .stream _ page => page

/-- The pages of the requests that are answered without a fault. -/
def granted (qs : List ClaimRequest) (answers : List (Except ClaimFault Unit)) : List UInt32 :=
  (qs.zip answers).filterMap fun
    | (q, .ok ()) => some q.page
    | (_, .error _) => none

end ClaimRequest

namespace Claims

def claim (c : Claims) : ClaimRequest → Except ClaimFault Claims
  | .directory page => c.claimDirectoryPage page.toNat
  | .stream stream page => c.claimStreamPage stream.toNat page.toNat

/-- The answer to a request, and the claims afterwards. -/
def perform (c : Claims) (q : ClaimRequest) : Except ClaimFault Unit × Claims :=
  match c.claim q with
  | .ok c' => (.ok (), c')
  | .error fault => (.error fault, c)

def run (c : Claims) : List ClaimRequest → List (Except ClaimFault Unit) × Claims
  | [] => ([], c)
  | q :: qs => ((c.perform q).1 :: ((c.perform q).2.run qs).1, ((c.perform q).2.run qs).2)

end Claims

/-- A bit for each page of a file of `count` pages: whether the page is taken. -/
structure ClaimBits (count : Nat) where
  pageSize : PageSize
  busy : BitVec count

namespace ClaimBits
variable {count : Nat}

/-- Sets the bit of a page. A page beyond the end of the file has none. -/
def mark (busy : BitVec count) (page : Nat) : BitVec count := busy ||| BitVec.twoPow count page

/-- Marks the pages of the free page maps in the intervals from page `first` on. -/
def markMaps (size : PageSize) (busy : BitVec count) (first : Nat) : BitVec count :=
  if first < count then
    markMaps size (mark (mark busy (first + 1)) (first + 2)) (first + size.bytes)
  else busy
termination_by count - first
decreasing_by
  have := size.bytes_pos
  omega

/-- The bits of a file before anything is read. -/
def start (size : PageSize) (count : Nat) : ClaimBits count := ⟨size, markMaps size (mark 0 0) 0⟩

def isBusy (b : ClaimBits count) (page : UInt32) : Bool := b.busy.getLsbD page.toNat

def claimDirectoryPage (b : ClaimBits count) (page : UInt32) : Except ClaimFault Unit × ClaimBits count :=
  if b.pageSize.isSpecialWord page then (.error (.special page.toNat), b)
  else if count ≤ page.toNat then (.error (.outOfRange page.toNat), b)
  else if b.isBusy page then (.error (.claimedTwice page.toNat), b)
  else (.ok (), { b with busy := mark b.busy page.toNat })

def claimStreamPage (b : ClaimBits count) (stream page : UInt32) :
    Except ClaimFault Unit × ClaimBits count :=
  if page = 0 then (.error (.streamPageZero stream.toNat), b)
  else if count ≤ page.toNat then (.error (.streamPageOutOfRange stream.toNat page.toNat), b)
  else (.ok (), { b with busy := mark b.busy page.toNat })

def perform (b : ClaimBits count) : ClaimRequest → Except ClaimFault Unit × ClaimBits count
  | .directory page => b.claimDirectoryPage page
  | .stream stream page => b.claimStreamPage stream page

/-- The answers to requests one after another, and the bits afterwards. -/
def run (b : ClaimBits count) : List ClaimRequest → List (Except ClaimFault Unit) × ClaimBits count
  | [] => ([], b)
  | q :: qs => ((b.perform q).1 :: ((b.perform q).2.run qs).1, ((b.perform q).2.run qs).2)

/-! ### The special pages -/

section
variable {size : PageSize} {busy : BitVec count} {first page : Nat}

theorem getLsbD_mark (busy : BitVec count) (marked page : Nat) :
    (mark busy marked).getLsbD page ↔ busy.getLsbD page ∨ page < count ∧ page = marked := by
  rw [mark, BitVec.getLsbD_or, BitVec.getLsbD_twoPow]
  simp only [Bool.or_eq_true, Bool.and_eq_true, decide_eq_true_eq]
  grind

/-- The pages of an interval that are marked are those of the maps. -/
theorem isFreeMapPage_of_interval (hfirst : size.bytes ∣ first) (hle : first ≤ page)
    (hlt : page < first + size.bytes) :
    size.isFreeMapPage page ↔ page = first + 1 ∨ page = first + 2 := by
  obtain ⟨k, rfl⟩ := hfirst
  obtain ⟨r, rfl⟩ := Nat.exists_eq_add_of_le hle
  have hmod : (size.bytes * k + r) % size.bytes = r := by
    rw [Nat.mul_add_mod, Nat.mod_eq_of_lt (by omega)]
  simp [PageSize.isFreeMapPage, hmod]

/-- By induction on the intervals that are left. -/
theorem getLsbD_markMaps (hsize : 3 ≤ size.bytes) (hfirst : size.bytes ∣ first) :
    (markMaps size busy first).getLsbD page ↔ busy.getLsbD page
      ∨ page < count ∧ first ≤ page ∧ size.isFreeMapPage page := by
  fun_induction markMaps size busy first with
  | case1 busy first hlt ih =>
    rw [ih (Nat.dvd_add_self_right.2 hfirst), getLsbD_mark, getLsbD_mark, or_assoc, or_assoc]
    refine or_congr_right ?_
    by_cases hin : first ≤ page ∧ page < first + size.bytes
    · rw [isFreeMapPage_of_interval hfirst hin.1 hin.2]
      omega
    · -- what is marked now lies in the interval, and the page does not
      by_cases hmap : size.isFreeMapPage page
      · simp only [hmap, and_true]
        omega
      · simp only [hmap, Bool.false_eq_true, and_false, or_false, iff_false]
        omega
  | case2 busy first hend =>
    have hnone : ¬ (page < count ∧ first ≤ page ∧ size.isFreeMapPage page) := by omega
    rw [or_iff_left hnone]

theorem isBusy_start (hsize : 3 ≤ size.bytes) (page : Nat) :
    (start size count).busy.getLsbD page ↔ page < count ∧ size.isSpecial page := by
  rw [start, getLsbD_markMaps hsize (Nat.dvd_zero _), getLsbD_mark, PageSize.isSpecial]
  simp [and_or_left]

end
end ClaimBits

/-! ### Claims as a list -/

namespace Claims
variable {c : Claims} {page stream : UInt32}

theorem perform_directory (c : Claims) (page : UInt32) : c.perform (.directory page)
    = if c.pageSize.isSpecial page.toNat then (.error (.special page.toNat), c)
      else if c.pageCount ≤ page.toNat then (.error (.outOfRange page.toNat), c)
      else if c.isBusy page.toNat then (.error (.claimedTwice page.toNat), c)
      else (.ok (), { c with claimed := page.toNat :: c.claimed }) := by
  rw [perform, claim, claimDirectoryPage]
  split_ifs <;> rfl

theorem perform_stream (c : Claims) (stream page : UInt32) : c.perform (.stream stream page)
    = if page = 0 then (.error (.streamPageZero stream.toNat), c)
      else if c.pageCount ≤ page.toNat then
        (.error (.streamPageOutOfRange stream.toNat page.toNat), c)
      else (.ok (), { c with claimed := page.toNat :: c.claimed }) := by
  have hzero : page.toNat = 0 ↔ page = 0 := UInt32.toNat_inj (b := 0)
  rw [perform, claim, claimStreamPage]
  simp only [hzero]
  split_ifs <;> rfl

/-- A request is granted, and its page is claimed then, or it changes nothing. -/
theorem perform_cases (c : Claims) (q : ClaimRequest) :
    c.perform q = (.ok (), { c with claimed := q.page.toNat :: c.claimed })
      ∨ ∃ fault, c.perform q = (.error fault, c) := by
  cases q with
  | directory page =>
    rw [perform_directory]
    split_ifs
    exacts [.inr ⟨_, rfl⟩, .inr ⟨_, rfl⟩, .inr ⟨_, rfl⟩, .inl rfl]
  | stream stream page =>
    rw [perform_stream]
    split_ifs
    exacts [.inr ⟨_, rfl⟩, .inr ⟨_, rfl⟩, .inl rfl]

/-- What has been claimed by requests one after another are the pages that have been granted. -/
theorem run_eq (c : Claims) (qs : List ClaimRequest) : (c.run qs).2
    = { c with
        claimed := ((ClaimRequest.granted qs (c.run qs).1).map UInt32.toNat).reverse ++ c.claimed } := by
  induction qs generalizing c with
  | nil => rfl
  | cons q qs ih =>
    rw [run, ih]
    obtain hq | ⟨fault, hq⟩ := c.perform_cases q
    · simp [hq, ClaimRequest.granted]
    · simp [hq, ClaimRequest.granted]

theorem isBusy_iff : c.isBusy page.toNat ↔
    page.toNat < c.pageCount ∧ (c.pageSize.isSpecial page.toNat ∨ page.toNat ∈ c.claimed) := by
  rw [isBusy, decide_eq_true_iff]

theorem directory_eq_ok : (c.perform (.directory page)).1 = .ok () ↔
    page.toNat < c.pageCount ∧ ¬ c.pageSize.isSpecial page.toNat ∧ page.toNat ∉ c.claimed := by
  rw [perform_directory]
  split_ifs with hspecial hout hbusy
  · exact iff_of_false nofun fun h => h.2.1 hspecial
  · exact iff_of_false nofun fun h => Nat.not_le.2 h.1 hout
  · rw [isBusy_iff] at hbusy
    exact iff_of_false nofun fun h => hbusy.2.elim h.2.1 h.2.2
  · rw [isBusy_iff] at hbusy
    have hlt := Nat.not_le.1 hout
    exact iff_of_true rfl ⟨hlt, hspecial, fun hmem => hbusy ⟨hlt, .inr hmem⟩⟩

theorem stream_eq_ok : (c.perform (.stream stream page)).1 = .ok () ↔
    page ≠ 0 ∧ page.toNat < c.pageCount := by
  rw [perform_stream]
  split_ifs with hzero hout
  · exact iff_of_false nofun fun h => h.1 hzero
  · exact iff_of_false nofun fun h => Nat.not_le.2 h.2 hout
  · exact iff_of_true rfl ⟨hzero, Nat.not_le.1 hout⟩

end Claims

namespace ClaimBits
variable {count : Nat} {b : ClaimBits count} {c : Claims}

/-- The bits are set for the pages that are taken by the claims. -/
structure ShownBy (b : ClaimBits count) (c : Claims) : Prop where
  exponent_lt : c.pageSize.exponent < 32
  pageSize_eq : b.pageSize = c.pageSize
  pageCount_eq : c.pageCount = count
  busy_eq : ∀ page, b.busy.getLsbD page = c.isBusy page

theorem ShownBy.mark (h : b.ShownBy c) (page : Nat) :
    ShownBy { b with busy := mark b.busy page } { c with claimed := page :: c.claimed } := by
  refine ⟨h.exponent_lt, h.pageSize_eq, h.pageCount_eq, fun p => ?_⟩
  obtain rfl := h.pageCount_eq
  rw [Bool.eq_iff_iff, getLsbD_mark, h.busy_eq]
  simp only [Claims.isBusy, decide_eq_true_eq, List.mem_cons]
  tauto

/-- Bits and claims answer alike, and the bits are still those of the claims. -/
theorem ShownBy.perform (h : b.ShownBy c) (q : ClaimRequest) :
    (b.perform q).1 = (c.perform q).1 ∧ (b.perform q).2.ShownBy (c.perform q).2 := by
  obtain rfl := h.pageCount_eq
  cases q with
  | directory page =>
    rw [ClaimBits.perform, claimDirectoryPage, Claims.perform_directory, h.pageSize_eq,
      PageSize.isSpecialWord_eq h.exponent_lt, isBusy, h.busy_eq]
    split_ifs
    exacts [⟨rfl, h⟩, ⟨rfl, h⟩, ⟨rfl, h⟩, ⟨rfl, h.pageSize_eq ▸ h.mark page.toNat⟩]
  | stream stream page =>
    rw [ClaimBits.perform, claimStreamPage, Claims.perform_stream]
    split_ifs
    exacts [⟨rfl, h⟩, ⟨rfl, h⟩, ⟨rfl, h.mark page.toNat⟩]

theorem ShownBy.run (h : b.ShownBy c) (qs : List ClaimRequest) :
    (b.run qs).1 = (c.run qs).1 ∧ (b.run qs).2.ShownBy (c.run qs).2 := by
  induction qs generalizing b c with
  | nil => exact ⟨rfl, h⟩
  | cons q qs ih =>
    obtain ⟨hanswer, hnext⟩ := h.perform q
    obtain ⟨hanswers, hafter⟩ := ih hnext
    exact ⟨by rw [ClaimBits.run, Claims.run, hanswer, hanswers], hafter⟩

theorem shownBy_start {size : PageSize} (hsmall : PageSize.smallest.exponent ≤ size.exponent)
    (hlarge : size.exponent ≤ PageSize.largest.exponent) (count : Nat) :
    (start size count).ShownBy (.start size count) := by
  have hbytes := PageSize.le_bytes hsmall
  refine ⟨Nat.lt_of_le_of_lt hlarge (by decide), rfl, rfl, fun page => ?_⟩
  rw [Bool.eq_iff_iff, isBusy_start (by omega)]
  simp [Claims.start, Claims.isBusy]

/-- Bits are set only where nothing can fail any more. -/
theorem perform_of_error {q : ClaimRequest} {fault : ClaimFault} (h : (b.perform q).1 = .error fault) :
    (b.perform q).2 = b := by
  cases q with
  | directory page =>
    rw [perform, claimDirectoryPage] at h ⊢
    split_ifs at h ⊢ <;> rfl
  | stream stream page =>
    rw [perform, claimStreamPage] at h ⊢
    split_ifs at h ⊢ <;> rfl

/-- In a file of any number of pages the bits that are set at first are those of the special pages. After
any requests, the busy pages are the special ones and those that have been granted. A page is granted to
the directory if it is in the file and is not busy, and to a stream if it is in the file and is not
the first one. A request that is refused changes nothing. -/
theorem run_start {size : PageSize} (hsmall : PageSize.smallest.exponent ≤ size.exponent)
    (hlarge : size.exponent ≤ PageSize.largest.exponent) (count : Nat) :
    (∀ page : UInt32, page.toNat < count →
      (start size count).isBusy page = size.isSpecialWord page)
    ∧ ∀ qs : List ClaimRequest,
      let b := ((start size count).run qs).2
      let granted := ClaimRequest.granted qs ((start size count).run qs).1
      (∀ page, b.isBusy page ↔ page.toNat < count ∧ (size.isSpecialWord page ∨ page ∈ granted))
      ∧ (∀ page, (b.claimDirectoryPage page).1 = .ok () ↔
        page.toNat < count ∧ ¬ size.isSpecialWord page ∧ page ∉ granted)
      ∧ (∀ stream page, (b.claimStreamPage stream page).1 = .ok () ↔
        page ≠ 0 ∧ page.toNat < count)
      ∧ (∀ q fault, (b.perform q).1 = .error fault → (b.perform q).2 = b)
      ∧ ((start size count).run qs).1 = ((Claims.start size count).run qs).1
      ∧ ∀ page, b.isBusy page = ((Claims.start size count).run qs).2.isBusy page.toNat := by
  have hshown := shownBy_start hsmall hlarge count
  have hspecial (page : UInt32) : size.isSpecialWord page = size.isSpecial page.toNat :=
    PageSize.isSpecialWord_eq hshown.exponent_lt page
  refine ⟨fun page hpage => ?_, fun qs => ?_⟩
  · rw [hspecial, isBusy, hshown.busy_eq, Bool.eq_iff_iff, Claims.isBusy_iff]
    simp [Claims.start, hpage]
  · obtain ⟨hanswers, hafter⟩ := hshown.run qs
    intro b granted
    have hclaims := (Claims.start size count).run_eq qs
    rw [← hanswers] at hclaims
    have hclaimed (page : UInt32) : page.toNat ∈ (granted.map UInt32.toNat).reverse ++ []
        ↔ page ∈ granted := by
      simp [UInt32.toNat_inj]
    refine ⟨fun page => ?_, fun page => ?_, fun stream page => ?_, fun q fault => perform_of_error,
      hanswers, fun page => hafter.busy_eq page.toNat⟩
    · rw [isBusy, hafter.busy_eq, Claims.isBusy_iff, hclaims, hspecial, ← hclaimed page]
      rfl
    · rw [← hclaimed page, hspecial]
      refine (iff_of_eq (congrArg (· = .ok ()) (hafter.perform (.directory page)).1)).trans ?_
      rw [Claims.directory_eq_ok, hclaims]
      rfl
    · refine (iff_of_eq (congrArg (· = .ok ()) (hafter.perform (.stream stream page)).1)).trans ?_
      rw [Claims.stream_eq_ok, hclaims]
      rfl

/-- The third interval ends in front of the page of its second map. A page of a stream is not granted to
the directory, but to another stream. -/
theorem run_start_shortInterval :
    PageSize.smallest.exponent ≤ 9 ∧ 9 ≤ PageSize.largest.exponent
    ∧ let b := ((start ⟨9⟩ 1026).run [.stream 7 4]).2
      b.isBusy 1025 ∧ ¬ b.isBusy 1026 ∧ b.isBusy 4
      ∧ (b.claimDirectoryPage 4).1 ≠ .ok () ∧ (b.claimDirectoryPage 5).1 = .ok ()
      ∧ (b.claimStreamPage 8 4).1 = .ok () := by
  have hsmall : PageSize.smallest.exponent ≤ (PageSize.mk 9).exponent := by decide
  have hlarge : (PageSize.mk 9).exponent ≤ PageSize.largest.exponent := by decide
  obtain ⟨-, hrun⟩ := run_start hsmall hlarge 1026
  obtain ⟨-, -, hstream, -⟩ := hrun []
  have hanswers : ((start ⟨9⟩ 1026).run [.stream 7 4]).1 = [.ok ()] :=
    congrArg ([·]) ((hstream 7 4).2 (by decide))
  have hafter := hrun [.stream 7 4]
  rw [hanswers] at hafter
  obtain ⟨hbusy, hdirectory, hstream, -⟩ := hafter
  exact ⟨hsmall, hlarge, (hbusy 1025).2 (by decide), (hbusy 1026).not.2 (by decide),
    (hbusy 4).2 (by decide), (hdirectory 4).not.2 (by decide), (hdirectory 5).2 (by decide),
    (hstream 8 4).2 (by decide)⟩

end ClaimBits
end Pdb
