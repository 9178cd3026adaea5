import Mathlib.Algebra.Order.Floor.Div
import Pdb.Proofs.CheckedDirectory

/-! # The page table

The pages of all streams stand one behind another in one list, and a stream is found in it by the
places at which streams start. Those of stream 0 are taken out again. `PageTable.Lists` relates such
a table to the entries of the directory, and `Layout.checks_hold` puts together that no check goes
wrong from the first byte of a file to the last request for bytes of a stream.
-/

namespace Pdb

/-- The pages of all streams one behind another. Those of a stream are from its start on, up to the
start of the next one. -/
structure PageTable where
  sizes : List Nat
  pages : List Nat
  starts : List Nat

structure Layout where
  image : Array UInt8
  pageSize : PageSize
  activeMap : Nat
  pageCount : Nat
  table : PageTable
  /-- The pages of the map of the directory, and those of the directory. -/
  map : List Nat
  directory : List Nat

namespace PageTable
open Check Checked Container
variable {size : PageSize} {c : Claims} {count : Nat} {es : List StreamEntry}

/-! ### The streams -/

/-- Deals out the page numbers of the directory. Places in the list of pages are kept as words. -/
def deal (size : PageSize) (count : Nat) : (stream : Nat) → (c : Claims) →
    (sizes rest pages starts : List Nat) → Checked ContainerFault (List Nat × List Nat)
  | _, _, [], _, pages, starts => return (pages, starts ++ [pages.length % 2 ^ 32])
  | stream, c, length :: sizes, rest, pages, starts => do
    let n := size.pagesFor length
    if rest.length < n then throw (.streamSize stream length)
    let own ← slice rest 0 n
    let next ← slice rest n rest.length
    let c ← if stream = 0 then pure c else total (claimStream count stream c own)
    deal size count (stream + 1) c sizes next (pages ++ own) (starts ++ [pages.length % 2 ^ 32])

/-- Takes the pages of stream 0 away from what the starts count. -/
def shift (stop : Nat) : List Nat → Option (List Nat)
  | [] => some []
  | start :: starts => do return start :: (← starts.mapM (minus · stop))

/-- The table of the streams that the words of a directory list. -/
def read (size : PageSize) (count : Nat) (c : Claims) (directory : List Nat) :
    Checked ContainerFault PageTable := do
  let streams ← fetch directory 0
  if streams = 0 then throw .noStreams
  if directory.length < 1 + streams then throw .streamCount
  let sizes ← slice directory 1 (1 + streams)
  let rest ← slice directory (1 + streams) directory.length
  let _ ← minus (← minus directory.length streams) 1
  let (pages, starts) ← deal size count 0 c sizes rest [] []
  let _ ← fetch sizes 0
  let stop ← fetch starts 1
  let pages ← slice pages stop pages.length
  let starts ← shift stop starts
  return { sizes := sizes.set 0 0, pages, starts }

/-- Where the pages of streams begin if those of the first one begin at `base`, and where the last
ones end. -/
def startsFrom (base : Nat) : List StreamEntry → List Nat
  | [] => [base]
  | e :: es => base :: startsFrom (base + e.pages.length) es

/-- A stream has the pages that its size needs, all of them in the file and none of them page 0. -/
structure Fits (size : PageSize) (count : Nat) (e : StreamEntry) : Prop where
  length_pages : e.pages.length = size.pagesFor e.length
  inRange : ∀ p ∈ e.pages, 1 ≤ p ∧ p < count

/-- The streams of a table. Stream 0 is empty. -/
structure Lists (size : PageSize) (count : Nat) (t : PageTable) (es : List StreamEntry) : Prop where
  sizes : t.sizes = es.map (·.length)
  pages : t.pages = es.flatMap (·.pages)
  starts : t.starts = startsFrom 0 es
  head : es.head? = some ⟨0, []⟩
  fits : ∀ e ∈ es, Fits size count e
  words : ∀ e ∈ es, e.length < 2 ^ 32

theorem inRange_of_claimStream {stream : Nat} {ps : List Nat} {c' : Claims}
    (h : claimStream count stream c ps = .ok c') : ∀ p ∈ ps, 1 ≤ p ∧ p < count := by
  induction ps generalizing c with
  | nil => exact fun _ hp => absurd hp List.not_mem_nil
  | cons p ps ih =>
    obtain ⟨hlt, h⟩ := of_ite_eq_ok h nofun
    by_cases h0 : p = 0
    · rw [Claims.claimStreamPage, if_pos h0] at h
      cases h
    obtain ⟨c₁, -, h⟩ := exists_of_bind_eq_ok h
    exact List.forall_mem_cons.2 ⟨⟨Nat.pos_of_ne_zero h0, Nat.not_le.1 hlt⟩, ih h⟩

/-- By induction on the sizes. -/
theorem meets_deal {stream : Nat} {sizes rest pages starts : List Nat} (hstream : stream ≠ 0)
    (hword : pages.length + rest.length < 2 ^ 32) :
    Meets (fun r es => r = (pages ++ es.flatMap (·.pages), starts ++ startsFrom pages.length es)
        ∧ es.map (·.length) = sizes ∧ ∀ e ∈ es, Fits size count e)
      (deal size count stream c sizes rest pages starts)
      (dealPages size count stream c sizes rest) := by
  induction sizes generalizing stream c rest pages starts with
  | nil =>
    rw [deal, dealPages, Nat.mod_eq_of_lt (by omega)]
    exact meets_pure ⟨by simp [startsFrom], rfl, fun _ he => absurd he List.not_mem_nil⟩
  | cons length sizes ih =>
    rw [deal, dealPages]
    by_cases hroom : rest.length < size.pagesFor length
    · simp only [hroom, if_true]
      exact meets_throw _
    simp only [hroom, hstream, if_false]
    rw [lift_bind (slice_of_le (Nat.zero_le _) (Nat.not_lt.1 hroom)),
      lift_bind (slice_of_le (Nat.not_lt.1 hroom) le_rfl), List.drop_zero, List.take_length,
      Nat.mod_eq_of_lt (by omega)]
    refine Meets.bind (meets_total (R := fun c' c'' => c' = c''
      ∧ ∀ p ∈ rest.take (size.pagesFor length), 1 ≤ p ∧ p < count)
      fun c' hc' => ⟨rfl, inRange_of_claimStream hc'⟩) ?_
    rintro c' _ ⟨rfl, hrange⟩
    have hown : (rest.take (size.pagesFor length)).length = size.pagesFor length := by
      rw [List.length_take]
      omega
    refine (ih (Nat.succ_ne_zero _) ?_).bind_right ?_
    · rw [List.length_append, hown, List.length_drop]
      omega
    · rintro _ es ⟨rfl, hsizes, hfits⟩
      refine ⟨_, rfl, ?_, ?_, List.forall_mem_cons.2 ⟨⟨hown, hrange⟩, hfits⟩⟩
      · simp [startsFrom]
      · rw [List.map_cons, hsizes]

theorem mapM_minus_startsFrom (base stop : Nat) (es : List StreamEntry) :
    (startsFrom (base + stop) es).mapM (minus · stop) = some (startsFrom base es) := by
  induction es generalizing base with
  | nil =>
    rw [startsFrom, List.mapM_cons, minus_of_le (Nat.le_add_left ..), Nat.add_sub_cancel]
    rfl
  | cons e es ih =>
    rw [startsFrom, List.mapM_cons, minus_of_le (Nat.le_add_left ..), Nat.add_sub_cancel,
      Nat.add_right_comm, ih]
    rfl

theorem head?_startsFrom (base : Nat) (es : List StreamEntry) :
    (startsFrom base es).head? = some base := by
  cases es <;> rfl

theorem fits_empty : Fits size count ⟨0, []⟩ := by
  refine ⟨?_, fun _ hp => absurd hp List.not_mem_nil⟩
  have hb := size.bytes_pos
  rw [PageSize.pagesFor, if_neg (by decide), PageSize.pagesHolding]
  refine (Nat.div_eq_of_lt ?_).symm
  show 0 + size.bytes - 1 < size.bytes
  omega

/-- The pages of stream 0 are dealt out, but its entry has none. -/
theorem meets_deal_zero {l : Nat} {ls rest : List Nat} (hword : rest.length < 2 ^ 32) :
    Meets (fun r es => ∃ own es', es = ⟨0, []⟩ :: es'
        ∧ r = (own ++ es'.flatMap (·.pages), 0 :: startsFrom own.length es')
        ∧ es'.map (·.length) = ls ∧ ∀ e ∈ es', Fits size count e)
      (deal size count 0 c (l :: ls) rest [] []) (dealPages size count 0 c (l :: ls) rest) := by
  rw [deal, dealPages]
  by_cases hroom : rest.length < size.pagesFor l
  · simp only [hroom, if_true]
    exact meets_throw _
  simp only [hroom, if_false, if_true]
  rw [lift_bind (slice_of_le (Nat.zero_le _) (Nat.not_lt.1 hroom)),
    lift_bind (slice_of_le (Nat.not_lt.1 hroom) le_rfl), List.drop_zero, List.take_length]
  have hne : 0 + 1 ≠ 0 := Nat.succ_ne_zero 0
  refine (meets_deal hne ?_).bind_right ?_
  · rw [List.nil_append, ← List.length_append, List.take_append_drop]
    exact hword
  · rintro _ es ⟨rfl, hsizes, hfits⟩
    exact ⟨_, rfl, _, es, rfl, rfl, hsizes, hfits⟩

/-- The table lists the streams of the directory, without the pages of stream 0. -/
theorem meets_read {directory : List Nat} (hne : directory ≠ []) (hword : directory.length < 2 ^ 32)
    (hwords : ∀ n ∈ directory, n < 2 ^ 32) :
    Meets (Lists size count) (read size count c directory) (streamEntries size count c directory) := by
  obtain ⟨n, ds, rfl⟩ := List.exists_cons_of_ne_nil hne
  have hfirst : fetch (n :: ds) 0 = some n := rfl
  rw [read, streamEntries, lift_bind hfirst]
  by_cases h0 : n = 0
  · simp only [h0, if_true]
    exact meets_throw _
  by_cases hcount : ds.length < n
  · have hlt : ds.length + 1 < 1 + n := by omega
    simp only [h0, hcount, List.length_cons, hlt, if_false, if_true]
    exact meets_throw _
  have hlt : ¬ ds.length + 1 < 1 + n := by omega
  have hsizes : slice (n :: ds) 1 (1 + n) = some (ds.take n) := by
    rw [slice_of_le (Nat.le_add_right ..) (Nat.not_lt.1 hlt), Nat.add_comm 1 n]
    rfl
  have hrest : slice (n :: ds) (1 + n) (ds.length + 1) = some (ds.drop n) := by
    rw [slice_of_le (Nat.not_lt.1 hlt) le_rfl, Nat.add_comm 1 n, ← List.length_cons,
      List.take_length]
    rfl
  simp only [h0, hcount, List.length_cons, hlt, if_false]
  rw [lift_bind hsizes, lift_bind hrest, lift_bind (minus_of_le (by omega)),
    lift_bind (minus_of_le (by omega))]
  obtain ⟨l, ls, hcons⟩ : ∃ l ls, ds.take n = l :: ls :=
    List.exists_cons_of_ne_nil (List.ne_nil_of_length_pos (by rw [List.length_take]; omega))
  rw [hcons]
  have hdrop : (ds.drop n).length < 2 ^ 32 := by
    rw [List.length_cons] at hword
    rw [List.length_drop]
    omega
  refine (meets_deal_zero hdrop).bind_left ?_
  rintro _ _ ⟨own, es, rfl, rfl, hlengths, hfits⟩
  have hstop : fetch (0 :: startsFrom own.length es) 1 = some own.length := by
    rw [← head?_startsFrom own.length es, List.head?_eq_getElem?]
    rfl
  have hpages : slice (own ++ es.flatMap (·.pages)) own.length (own ++ es.flatMap (·.pages)).length
      = some (es.flatMap (·.pages)) := by
    rw [slice_of_le (by rw [List.length_append]; omega) le_rfl, List.take_length, List.drop_left]
  have hstarts : shift own.length (0 :: startsFrom own.length es) = some (0 :: startsFrom 0 es) := by
    have hmap := mapM_minus_startsFrom 0 own.length es
    rw [Nat.zero_add] at hmap
    rw [shift, hmap]
    rfl
  refine ⟨{ sizes := (l :: ls).set 0 0, pages := es.flatMap (·.pages), starts := 0 :: startsFrom 0 es },
    ?_, ?_⟩
  · dsimp only
    rw [lift_bind (fetch_of_lt (Nat.succ_pos _)), lift_bind hstop, lift_bind hpages,
      lift_bind hstarts]
  · refine ⟨by rw [List.set_cons_zero, ← hlengths]; rfl, rfl, rfl, rfl,
      List.forall_mem_cons.2 ⟨fits_empty, hfits⟩, List.forall_mem_cons.2 ⟨by decide, fun e he => ?_⟩⟩
    have hmem : e.length ∈ ds.take n :=
      hcons ▸ List.mem_cons_of_mem l (hlengths ▸ List.mem_map_of_mem he)
    exact hwords _ (List.mem_cons_of_mem n (List.mem_of_mem_take hmem))

/-! ### Entries -/

/-- The streams with their own pages. -/
def entriesFrom (pages : List Nat) : (sizes starts : List Nat) → List StreamEntry
  | size :: sizes, start :: stop :: starts =>
    ⟨size, (pages.take stop).drop start⟩ :: entriesFrom pages sizes (stop :: starts)
  | _, _ => []

def entries (t : PageTable) : List StreamEntry := entriesFrom t.pages t.sizes t.starts

theorem entriesFrom_startsFrom (pre : List Nat) (es : List StreamEntry) :
    entriesFrom (pre ++ es.flatMap (·.pages)) (es.map (·.length)) (startsFrom pre.length es) = es := by
  induction es generalizing pre with
  | nil => rfl
  | cons e es ih =>
    have hrest := ih (pre ++ e.pages)
    rw [List.append_assoc, List.length_append] at hrest
    have hown : ((pre ++ (e.pages ++ es.flatMap (·.pages))).take (pre.length + e.pages.length)).drop
        pre.length = e.pages := by
      rw [List.take_length_add_append, List.take_left, List.drop_left]
    obtain ⟨starts, hstarts⟩ : ∃ starts, startsFrom (pre.length + e.pages.length) es
        = (pre.length + e.pages.length) :: starts :=
      List.head?_eq_some_iff.1 (head?_startsFrom _ es)
    rw [List.flatMap_cons, List.map_cons, startsFrom, hstarts, entriesFrom, hown, ← hstarts, hrest]

/-! ### Places -/

theorem length_startsFrom (base : Nat) (es : List StreamEntry) :
    (startsFrom base es).length = es.length + 1 := by
  induction es generalizing base with
  | nil => rfl
  | cons e es ih => rw [startsFrom, List.length_cons, ih, List.length_cons]

theorem getElem?_startsFrom (base : Nat) {n : Nat} (h : n ≤ es.length) :
    (startsFrom base es)[n]? = some (base + ((es.take n).flatMap (·.pages)).length) := by
  induction es generalizing base n with
  | nil =>
    obtain rfl := Nat.le_zero.1 h
    rfl
  | cons e es ih =>
    cases n with
    | zero => rfl
    | succ n =>
      rw [startsFrom, List.getElem?_cons_succ, ih _ (Nat.le_of_succ_le_succ h), List.take_succ_cons,
        List.flatMap_cons, List.length_append, Nat.add_assoc]

theorem le_of_mem_startsFrom {base start : Nat} (h : start ∈ startsFrom base es) : base ≤ start := by
  induction es generalizing base with
  | nil => exact (List.mem_singleton.1 h).ge
  | cons e es ih =>
    rcases List.mem_cons.1 h with rfl | h
    · exact le_rfl
    · exact Nat.le_trans (Nat.le_add_right ..) (ih h)

theorem pairwise_startsFrom (base : Nat) (es : List StreamEntry) :
    (startsFrom base es).Pairwise (· ≤ ·) := by
  induction es generalizing base with
  | nil => exact List.pairwise_singleton ..
  | cons e es ih =>
    exact List.pairwise_cons.2
      ⟨fun _ h => Nat.le_trans (Nat.le_add_right ..) (le_of_mem_startsFrom h), ih _⟩

theorem length_flatMap_take_succ {n : Nat} (hn : n < es.length) :
    ((es.take (n + 1)).flatMap (·.pages)).length
      = ((es.take n).flatMap (·.pages)).length + es[n].pages.length := by
  rw [List.take_succ_eq_append_getElem hn, List.flatMap_append, List.length_append,
    List.flatMap_singleton]

/-- The pages of a stream. -/
def pagesOf (t : PageTable) (n : Nat) : List Nat :=
  (t.pages.take (t.starts.getD (n + 1) 0)).drop (t.starts.getD n 0)

section
variable {t : PageTable} {n : Nat} (h : Lists size count t es)
include h

theorem Lists.starts_getElem? (hn : n ≤ es.length) :
    t.starts[n]? = some ((es.take n).flatMap (·.pages)).length := by
  rw [h.starts, getElem?_startsFrom 0 hn, Nat.zero_add]

theorem Lists.pages_eq (hn : n < es.length) :
    t.pages = (es.take n).flatMap (·.pages) ++ (es[n].pages ++ (es.drop (n + 1)).flatMap (·.pages)) := by
  conv_lhs => rw [h.pages, ← List.take_append_drop n es, List.drop_eq_getElem_cons hn,
    List.flatMap_append, List.flatMap_cons]

theorem Lists.pagesOf_eq (hn : n < es.length) : t.pagesOf n = es[n].pages := by
  rw [pagesOf, List.getD_eq_getElem?_getD, List.getD_eq_getElem?_getD, h.starts_getElem? hn,
    h.starts_getElem? (Nat.le_of_lt hn), Option.getD_some, Option.getD_some, length_flatMap_take_succ hn,
    h.pages_eq hn, List.take_length_add_append, List.take_left, List.drop_left]

end

theorem Lists.entries_eq {t : PageTable} (h : Lists size count t es) : t.entries = es := by
  rw [entries, h.pages, h.sizes, h.starts]
  exact entriesFrom_startsFrom [] es

end PageTable

namespace Layout
open Check Checked Container
variable {image : Array UInt8}

/-! ### The whole file -/

def container (l : Layout) : Container where
  image := l.image
  pageSize := l.pageSize
  activeMap := l.activeMap
  pageCount := l.pageCount
  streams := l.table.entries

/-- Reads a file with checks. -/
def parse (image : Array UInt8) : Checked ContainerFault Layout := do
  let h ← total (header image)
  let wanted := h.pageSize.pagesFor h.directoryLength
  ensure (4 * wanted < 2 ^ 32)
  let mapPages := h.pageSize.pagesFor (4 * wanted)
  let page0 ← slice image.toList 0 (min image.size h.pageSize.bytes)
  let tail ← slice page0 headerLength page0.length
  if tail.length < 4 * mapPages then throw .directoryTooLarge
  let map := words (tail.take (4 * mapPages))
  let (claims, directory) ← claimMap image h.pageSize wanted (.start h.pageSize h.pageCount) [] map
  let listed ← directoryWords image h.pageSize h.directoryLength directory
  let table ← PageTable.read h.pageSize h.pageCount claims listed
  return { image, pageSize := h.pageSize, activeMap := h.activeMap, pageCount := h.pageCount, table,
           map, directory }

/-- A layout of the file of a container. -/
structure Of (l : Layout) (c : Container) : Prop where
  container_eq : l.container = c
  lists : l.table.Lists l.pageSize l.pageCount c.streams
  distinct : (l.map ++ l.directory).Nodup
  inRange : ∀ p ∈ l.map ++ l.directory, p < l.pageCount ∧ l.pageSize.isSpecial p = false
  pageCount_lt : l.pageCount < 2 ^ 32

theorem pred_pagesHolding_mul_lt (size : PageSize) {length : Nat} (h : 0 < length) :
    (size.pagesHolding length - 1) * size.bytes < length := by
  have hle := Nat.div_mul_le_self (length + size.bytes - 1) size.bytes
  rw [← PageSize.pagesHolding] at hle
  rw [Nat.sub_mul, Nat.one_mul]
  have hb := size.bytes_pos
  omega

theorem pagesFor_of_mod (size : PageSize) {length : Nat} (h : length % 4 = 0) :
    size.pagesFor length = size.pagesHolding length := by
  rw [PageSize.pagesFor, PageSize.nilLength, if_neg (by omega)]

theorem smallest_le_bytes {size : PageSize} (h : PageSize.smallest.exponent ≤ size.exponent) :
    512 ≤ size.bytes :=
  Nat.pow_le_pow_right (by decide : 0 < 2) h

theorem four_dvd_bytes {size : PageSize} (h : PageSize.smallest.exponent ≤ size.exponent) :
    4 ∣ size.bytes :=
  Nat.pow_dvd_pow 2 (Nat.le_trans (by decide : 2 ≤ PageSize.smallest.exponent) h)

/-- The first page behind the header begins with the map. -/
theorem exists_tail (image : Array UInt8) {size : PageSize} (hsize : headerLength ≤ size.bytes)
    (himage : headerLength ≤ image.size) : ∃ page0 tail,
      slice image.toList 0 (min image.size size.bytes) = some page0
      ∧ slice page0 headerLength page0.length = some tail
      ∧ tail.length = min image.size size.bytes - headerLength
      ∧ ∀ n ≤ tail.length, tail.take n = piece image headerLength n := by
  have hlength : (image.toList.take (min image.size size.bytes)).length
      = min image.size size.bytes := by
    rw [List.length_take, Array.length_toList]
    omega
  have hmin : headerLength ≤ min image.size size.bytes := Nat.le_min.2 ⟨himage, hsize⟩
  refine ⟨_, _, slice_of_le (Nat.zero_le _) ?_, slice_of_le ?_ le_rfl, ?_, fun n hn => ?_⟩
  · rw [Array.length_toList]
    exact Nat.min_le_left ..
  · rw [List.drop_zero, hlength]
    exact hmin
  · rw [List.take_length, List.drop_zero, List.length_drop, hlength]
  · rw [List.take_length, List.drop_zero, List.length_drop, hlength] at hn
    rw [List.take_length, List.drop_zero, List.drop_take, List.take_take, Nat.min_eq_left hn, piece_eq]

theorem meets_parse (image : Array UInt8) : Meets Of (parse image) (Container.parse image) := by
  rw [parse, parse_eq_bind]
  refine Meets.bind (meets_total (R := fun h h' => h = h' ∧ h.Valid image)
    fun h hh => ⟨rfl, valid_of_header hh⟩) ?_
  rintro h _ ⟨rfl, hvalid⟩
  obtain ⟨k, hk⟩ := four_dvd_bytes hvalid.smallest
  have hsize := smallest_le_bytes hvalid.smallest
  have hmod := hvalid.length_mod
  have hpages := pagesFor_of_mod h.pageSize hmod
  have hmapPages := pagesFor_of_mod h.pageSize
    (Nat.mul_mod_right 4 (h.pageSize.pagesHolding h.directoryLength))
  simp only [parseBody, hpages, hmapPages]
  have hholds := PagedStream.le_pagesHolding_mul h.pageSize h.directoryLength
  have hpred := pred_pagesHolding_mul_lt h.pageSize (Nat.pos_of_ne_zero hvalid.length_ne)
  generalize h.pageSize.pagesHolding h.directoryLength = wanted at hholds hpred ⊢
  have hwanted : 0 < wanted := by
    refine Nat.pos_of_ne_zero fun h0 => hvalid.length_ne ?_
    rw [h0, Nat.zero_mul] at hholds
    exact Nat.le_zero.1 hholds
  have hword : 4 * wanted < 2 ^ 32 := by
    have := Nat.mul_le_mul_left (wanted - 1) hsize
    have := hvalid.length_lt
    omega
  have hmapHolds := PagedStream.le_pagesHolding_mul h.pageSize (4 * wanted)
  have hmapPred := pred_pagesHolding_mul_lt h.pageSize (Nat.mul_pos (Nat.zero_lt_succ 3) hwanted)
  generalize h.pageSize.pagesHolding (4 * wanted) = mapPages at hmapHolds hmapPred ⊢
  obtain ⟨page0, tail, hpage0, htail, hlength, htake⟩ := exists_tail image
    (Nat.le_trans (by decide) hsize) hvalid.image_size
  rw [lift_bind (ensure_of hword), lift_bind hpage0, lift_bind htail]
  by_cases hroom : tail.length < 4 * mapPages
  · have hroom' : min image.size h.pageSize.bytes < headerLength + 4 * mapPages := by omega
    simp only [hroom, hroom', if_true]
    exact meets_throw _
  have hroom' : ¬ min image.size h.pageSize.bytes < headerLength + 4 * mapPages := by
    have := Nat.le_min.2 ⟨hvalid.image_size, Nat.le_trans (by decide) hsize⟩
    omega
  simp only [hroom, hroom', if_false]
  rw [htake _ (Nat.not_lt.1 hroom)]
  have hmap : (words (piece image headerLength (4 * mapPages))).length = mapPages := by
    rw [length_words, ← htake _ (Nat.not_lt.1 hroom), List.length_take]
    omega
  generalize words (piece image headerLength (4 * mapPages)) = map at hmap ⊢
  have hclaims : ClaimsOf h.pageSize h.pageCount (.start h.pageSize h.pageCount) [] :=
    ⟨rfl, rfl, .nil, .nil, fun _ hp => absurd hp List.not_mem_nil⟩
  rw [hk, Nat.mul_left_comm] at hmapHolds hmapPred
  refine (meets_claimMap hk hclaims (Nat.zero_le wanted) ?_ (.inr ?_)).bind ?_
  · rw [hmap, List.length_nil]
    omega
  · rw [hmap, List.length_nil]
    omega
  rintro _ ⟨directory, c⟩ ⟨rfl, hdirectory, hc⟩
  rw [List.nil_append, List.append_nil] at *
  refine (meets_directoryWords (by omega) hmod).bind ?_
  rintro _ bs ⟨rfl, hbs⟩
  rw [hdirectory, List.length_nil, Nat.sub_zero, Nat.min_eq_left hholds] at hbs
  have hcount := length_words bs
  have hlt := hvalid.length_lt
  have hne := hvalid.length_ne
  refine (PageTable.meets_read (List.ne_nil_of_length_pos ?_) ?_ fun n => lt_of_mem_words).bind ?_
  · omega
  · omega
  rintro table es htable
  exact meets_pure ⟨by rw [container, htable.entries_eq], htable, hc.nodup, hc.inRange,
    hvalid.pageCount_lt⟩

/-! ### Opening a stream -/

/-- Opens a stream with checks. -/
def openStream (l : Layout) (n : Nat) : Checked ContainerFault PagedStream :=
  match l.table.sizes[n]? with
  | none => throw (.noSuchStream n)
  | some size => do
    if size = PageSize.nilLength then throw (.nilStream n)
    let start ← fetch l.table.starts n
    let stop ← fetch l.table.starts (n + 1)
    let pages ← slice l.table.pages start stop
    total ((PagedStream.new l.image l.pageSize pages size).mapError .mapping)

/-- The table of a file that has been read, and the pages of its directory. -/
structure Sound (l : Layout) : Prop where
  length_starts : l.table.starts.length = l.table.sizes.length + 1
  sorted : l.table.starts.Pairwise (· ≤ ·)
  first : l.table.starts.head? = some 0
  last : l.table.starts.getLast? = some l.table.pages.length
  /-- Stream 0 is there, and has no pages. -/
  zero : l.table.sizes[0]? = some 0 ∧ l.table.pagesOf 0 = []
  pages : ∀ n size, l.table.sizes[n]? = some size → size ≠ PageSize.nilLength →
    (l.table.pagesOf n).length = size ⌈/⌉ l.pageSize.bytes
      ∧ ∀ p ∈ l.table.pagesOf n, 1 ≤ p ∧ p < l.pageCount
  distinct : (l.map ++ l.directory).Nodup
  inRange : ∀ p ∈ l.map ++ l.directory, p < l.pageCount ∧ l.pageSize.isSpecial p = false

theorem exists_entry_of_openStream {c : Container} {n : Nat} {s : PagedStream}
    (hs : c.openStream n = .ok s) :
    ∃ e, c.streams[n]? = some e ∧ e.length ≠ PageSize.nilLength := by
  rw [Container.openStream, entry] at hs
  cases he : c.streams[n]? with
  | none =>
    rw [he] at hs
    cases hs
  | some e =>
    refine ⟨e, rfl, fun hnil => ?_⟩
    simp only [he, StreamEntry.isNil, hnil, decide_true, if_true] at hs
    cases hs

section
variable {l : Layout} {c : Container} (h : l.Of c)
include h

theorem Of.sizes_getElem? (n : Nat) : l.table.sizes[n]? = c.streams[n]?.map (·.length) := by
  rw [h.lists.sizes, List.getElem?_map]

theorem Of.sound : l.Sound where
  length_starts := by rw [h.lists.starts, PageTable.length_startsFrom, h.lists.sizes, List.length_map]
  sorted := h.lists.starts ▸ PageTable.pairwise_startsFrom 0 c.streams
  first := h.lists.starts ▸ PageTable.head?_startsFrom 0 c.streams
  last := by
    rw [List.getLast?_eq_getElem?, h.lists.starts, PageTable.length_startsFrom, Nat.add_sub_cancel,
      ← h.lists.starts, h.lists.starts_getElem? le_rfl, List.take_length, h.lists.pages]
  zero := by
    obtain ⟨es, hes⟩ := List.head?_eq_some_iff.1 h.lists.head
    have hlt : 0 < c.streams.length := hes ▸ Nat.succ_pos _
    have hfirst : c.streams[0] = ⟨0, []⟩ := by simp only [hes, List.getElem_cons_zero]
    rw [h.sizes_getElem?, List.getElem?_eq_getElem hlt, h.lists.pagesOf_eq hlt, hfirst]
    exact ⟨rfl, rfl⟩
  pages n size hsize hnil := by
    rw [h.sizes_getElem?] at hsize
    obtain ⟨e, he, rfl⟩ := Option.map_eq_some_iff.1 hsize
    obtain ⟨hlt, rfl⟩ := List.getElem?_eq_some_iff.1 he
    have hfits := h.lists.fits _ (List.getElem_mem hlt)
    rw [h.lists.pagesOf_eq hlt, hfits.length_pages, PageSize.pagesFor, if_neg hnil,
      Nat.ceilDiv_eq_add_pred_div]
    exact ⟨rfl, hfits.inRange⟩
  distinct := h.distinct
  inRange := h.inRange

theorem Of.openStream_eq (n : Nat) : ExceptT.run (l.openStream n) = some (c.openStream n) := by
  obtain rfl := h.container_eq
  rw [openStream, h.sizes_getElem?, Container.openStream, entry]
  cases he : l.container.streams[n]? with
  | none => rfl
  | some e =>
    obtain ⟨hlt, rfl⟩ := List.getElem?_eq_some_iff.1 he
    rw [Option.map_some]
    dsimp only
    by_cases hnil : l.container.streams[n].length = PageSize.nilLength
    · simp only [StreamEntry.isNil, hnil, decide_true, if_true]
      rfl
    simp only [StreamEntry.isNil, hnil, decide_false, if_false, Bool.false_eq_true]
    have hstart : fetch l.table.starts n = some _ := h.lists.starts_getElem? (Nat.le_of_lt hlt)
    have hstop : fetch l.table.starts (n + 1) = some _ := h.lists.starts_getElem? hlt
    rw [PageTable.length_flatMap_take_succ hlt] at hstop
    have hpages := h.lists.pages_eq hlt
    have hslice : slice l.table.pages
        ((l.container.streams.take n).flatMap (·.pages)).length
        (((l.container.streams.take n).flatMap (·.pages)).length + l.container.streams[n].pages.length)
          = some l.container.streams[n].pages := by
      rw [slice_of_le (Nat.le_add_right ..), hpages, List.take_length_add_append, List.take_left,
        List.drop_left]
      rw [hpages, List.length_append, List.length_append]
      omega
    rw [lift_bind hstart, lift_bind hstop, lift_bind hslice]
    rfl

/-- An entry that is not absent has as many pages as it needs. -/
theorem Of.openStream_eq_ok {n : Nat} {e : StreamEntry} (he : c.streams[n]? = some e)
    (hnil : e.length ≠ PageSize.nilLength) :
    ∃ s, c.openStream n = .ok s ∧ s.pages = e.pages ∧ s.length = e.length := by
  have hfits := h.lists.fits e (List.mem_of_getElem? he)
  obtain rfl := h.container_eq
  have hentry : l.container.entry n = .ok e := by
    rw [entry, he]
    exact if_neg (by simpa [StreamEntry.isNil] using hnil)
  rw [Container.openStream, hentry]
  show ∃ s, (PagedStream.new l.image l.pageSize e.pages e.length).mapError _ = .ok s ∧ _
  rw [PagedStream.new, if_neg hnil, dif_pos hfits.length_pages]
  exact ⟨_, rfl, rfl, rfl⟩

/-- What is opened can be read without a check going wrong. -/
theorem Of.sound_of_openStream {n : Nat} {s : PagedStream} (hs : c.openStream n = .ok s) :
    s.Sound ∧ ∃ size, l.table.sizes[n]? = some size ∧ size ≠ PageSize.nilLength := by
  obtain ⟨e, he, hnil⟩ := exists_entry_of_openStream hs
  have hmem := List.mem_of_getElem? he
  have hword := h.lists.words e hmem
  have hcount := h.pageCount_lt
  obtain ⟨s', hs', hpages, hlength⟩ := h.openStream_eq_ok he hnil
  obtain rfl := Except.ok.inj (hs.symm.trans hs')
  refine ⟨⟨?_, fun p hp => ?_⟩, e.length, by rw [h.sizes_getElem?, he, Option.map_some], hnil⟩
  · rw [hlength]
    rw [PageSize.nilLength] at hnil ⊢
    omega
  · have := (h.lists.fits e hmem).inRange p (hpages ▸ hp)
    omega

end

/-- No check goes wrong, neither when a file is read nor when its streams are opened and read. The
table of a file that is read has the starts of all streams and of none else; each stream that is not
absent has the pages that its size needs, and exactly these streams can be opened. -/
theorem checks_hold (image : Array UInt8) : ∃ r, ExceptT.run (parse image) = some r
    ∧ r.map container = Container.parse image
    ∧ ∀ l, r = .ok l → l.Sound ∧ ∀ n, ∃ r', ExceptT.run (l.openStream n) = some r'
      ∧ r' = l.container.openStream n
      ∧ ((∃ s, r' = .ok s) ↔ ∃ size, l.table.sizes[n]? = some size ∧ size ≠ PageSize.nilLength)
      ∧ ∀ s, r' = .ok s → ∀ qs, (Reader.new s).checkedRun qs = some ((Reader.new s).run qs) := by
  obtain ⟨r, hr, hmeets⟩ := (meets_parse image).exists_eq
  refine ⟨r, hr, ?_, ?_⟩
  · cases r with
    | error e => exact hmeets.symm
    | ok l =>
      obtain ⟨c, hc, hof⟩ := hmeets
      rw [hc, ← hof.container_eq]
      rfl
  · rintro l rfl
    obtain ⟨c, -, hof⟩ := hmeets
    obtain rfl := hof.container_eq
    refine ⟨hof.sound, fun n => ⟨_, hof.openStream_eq n, rfl, ⟨?_, ?_⟩, ?_⟩⟩
    · rintro ⟨s, hs⟩
      exact (hof.sound_of_openStream hs).2
    · rintro ⟨size, hsize, hnil⟩
      rw [hof.sizes_getElem?] at hsize
      obtain ⟨e, he, rfl⟩ := Option.map_eq_some_iff.1 hsize
      obtain ⟨s, hs, -⟩ := hof.openStream_eq_ok he hnil
      exact ⟨s, hs⟩
    · intro s hs qs
      exact Reader.checkedRun_eq (hof.sound_of_openStream hs).1 qs

end Layout
end Pdb
