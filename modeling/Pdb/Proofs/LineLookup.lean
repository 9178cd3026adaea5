import Pdb.Proofs.LineSequences
import Pdb.Proofs.SortedLookup
import Pdb.Writer.Lines

/-! # Which row covers an address

Rows and terminal entries of all contributions are sorted together, and of the entries at one address
the terminal ones come first. For contributions whose addresses are apart from each other and whose
rows are in front of their ends that is the right order: an entry of one contribution does not stand
between a row of another one and an address that the other one has (`LineSequence.Tidy.exists_contains`),
so the row that is found is the last one of the contribution around the address: `find?_lastRow`.

For a row at or behind the end of its contribution it is the wrong order, for there the terminal entry
comes first and ends nothing. Such a row covers what is behind the end, and no other row does:
`covered_iff_inside`. -/

namespace Pdb

namespace LineEntry

/-- The order in which a line table has its entries. -/
def before (a b : LineEntry) : Bool :=
  a.address < b.address ∨ a.address = b.address ∧ (a.isTerminal ∨ !b.isTerminal)

theorem before_iff {a b : LineEntry} : a.before b ↔ a.address.toNat < b.address.toNat
    ∨ a.address.toNat = b.address.toNat ∧ (a.isTerminal = true ∨ b.isTerminal = false) := by
  simp [before, UInt64.lt_iff_toNat_lt, UInt64.toNat_inj]

theorem sorts_before : Sorts before where
  trans a b c := by
    simp only [before_iff]
    rintro (h | ⟨h, h'⟩) (k | ⟨k, k'⟩)
    · exact .inl (h.trans k)
    · exact .inl (k ▸ h)
    · exact .inl (h ▸ k)
    · refine .inr ⟨h.trans k, ?_⟩
      rcases h' with h' | h' <;> rcases k' with k' | k' <;> simp_all
  total a b := by
    simp only [Bool.or_eq_true, before_iff]
    rcases Nat.lt_trichotomy a.address.toNat b.address.toNat with h | h | h
    · exact .inl (.inl h)
    · cases ha : a.isTerminal with
      | true => exact .inl (.inr ⟨h, .inl rfl⟩)
      | false => exact .inr (.inr ⟨h.symm, .inr rfl⟩)
    · exact .inr (.inl h)

theorem address_le_of_before {a b : LineEntry} (h : a.before b) : a.address ≤ b.address := by
  rw [UInt64.le_iff_toNat_le]
  rcases before_iff.1 h with h | ⟨h, -⟩ <;> omega

/-- At one address terminal entries come first. -/
theorem lt_of_before {a b : LineEntry} (h : a.before b) (ha : a.isTerminal = false)
    (hb : b.isTerminal = true) : a.address.toNat < b.address.toNat := by
  rcases before_iff.1 h with h | ⟨-, h⟩
  · exact h
  · simp [ha, hb] at h

end LineEntry

namespace LineSequence
variable {q : LineSequence} {r : LineRow} {a : UInt64} {e x : LineEntry} {position : UInt32 → Nat}

/-- The address is one of those that the contribution has. -/
def Contains (q : LineSequence) (a : UInt64) : Prop :=
  q.base ≤ a ∧ a.toNat < q.base.toNat + q.size.toNat

/-- The addresses of the contribution and of its rows do not wrap. -/
structure Unwrapped (q : LineSequence) : Prop where
  fits : q.base.toNat + q.size.toNat ≤ 2 ^ 64
  room : ∀ r ∈ q.rows, q.base.toNat + r.record.offset.toNat < 2 ^ 64

/-- The addresses do not wrap, and no row is at or behind the end. -/
structure Tidy (q : LineSequence) : Prop where
  fits : q.base.toNat + q.size.toNat ≤ 2 ^ 64
  inside : ∀ r ∈ q.rows, r.record.offset < q.size

theorem Tidy.unwrapped (hq : q.Tidy) : q.Unwrapped := by
  refine ⟨hq.fits, fun r hr => ?_⟩
  have hfits := hq.fits
  have hlt := UInt32.lt_iff_toNat_lt.1 (hq.inside r hr)
  omega

theorem Unwrapped.toNat_addressOf (hq : q.Unwrapped) (hr : r ∈ q.rows) :
    (q.addressOf r).toNat = q.base.toNat + r.record.offset.toNat := by
  rw [addressOf, UInt64.toNat_add, UInt32.toNat_toUInt64, Nat.mod_eq_of_lt (hq.room r hr)]

theorem Tidy.contains_addressOf (hq : q.Tidy) (hr : r ∈ q.rows) : q.Contains (q.addressOf r) := by
  have hlt := UInt32.lt_iff_toNat_lt.1 (hq.inside r hr)
  rw [Contains, UInt64.le_iff_toNat_le, hq.unwrapped.toNat_addressOf hr]
  omega

theorem mem_entries_iff : x ∈ q.entries position ↔ (∃ r ∈ q.rows, q.entryOf position r = x)
    ∨ x ∈ LineTable.terminal q.base q.size (q.rows.map (q.entryOf position)) := by
  rw [entries, List.mem_append, List.mem_map]

theorem of_mem_terminal (h : x ∈ LineTable.terminal q.base q.size (q.rows.map (q.entryOf position))) :
    x.isTerminal = true ∧ x.address.toNat = (q.base.toNat + q.size.toNat) % 2 ^ 64
      ∧ ∃ r, r ∈ q.rows := by
  obtain ⟨haddress, e, he, -⟩ := LineTable.of_mem_terminal h
  obtain ⟨r, hr, -⟩ := List.mem_map.1 he
  refine ⟨?_, by rw [haddress, UInt64.toNat_add, UInt32.toNat_toUInt64], r, hr⟩
  rw [LineTable.terminal] at h
  split at h
  · exact absurd h List.not_mem_nil
  · rw [List.mem_singleton.1 h]

theorem exists_terminal (hr : r ∈ q.rows) (position : UInt32 → Nat) :
    ∃ x ∈ q.entries position, x.isTerminal = true
      ∧ x.address.toNat = (q.base.toNat + q.size.toNat) % 2 ^ 64 := by
  rw [entries, LineTable.terminal]
  split
  · next hnone =>
    rw [List.getLast?_eq_none_iff, List.map_eq_nil_iff] at hnone
    exact absurd hr (by simp [hnone])
  · refine ⟨_, List.mem_append_right _ List.mem_cons_self, rfl, ?_⟩
    rw [UInt64.toNat_add, UInt32.toNat_toUInt64]

/-- A terminal entry that is not in front of an entry which ends nothing has not wrapped, so there is
an address of its contribution in between. -/
theorem Tidy.exists_contains (hq : q.Tidy) (hx : x ∈ q.entries position) (he : e.isTerminal = false)
    (hle : e.before x) : ∃ b, q.Contains b ∧ e.address ≤ b ∧ b ≤ x.address := by
  rcases mem_entries_iff.1 hx with ⟨r, hr, rfl⟩ | hx
  · exact ⟨q.addressOf r, hq.contains_addressOf hr, LineEntry.address_le_of_before hle, UInt64.le_refl _⟩
  · obtain ⟨hterminal, haddress, r, hr⟩ := of_mem_terminal hx
    have hlt := LineEntry.lt_of_before hle he hterminal
    have hinside := UInt32.lt_iff_toNat_lt.1 (hq.inside r hr)
    have hfits := hq.fits
    have hlast : (x.address - 1).toNat = x.address.toNat - 1 :=
      UInt64.toNat_sub_of_le _ _ (UInt64.le_iff_toNat_le.2 (Nat.one_le_of_lt hlt))
    refine ⟨x.address - 1, ?_⟩
    simp only [Contains, UInt64.le_iff_toNat_le, hlast]
    omega

theorem Tidy.isTerminal_eq_false (hq : q.Tidy) (hx : x ∈ q.entries position) (ha : q.Contains a)
    (hxa : x.address ≤ a) (he : e.isTerminal = false) (hle : e.before x) : x.isTerminal = false := by
  rcases mem_entries_iff.1 hx with ⟨r, -, rfl⟩ | hx
  · rfl
  · obtain ⟨hterminal, haddress, -⟩ := of_mem_terminal hx
    have hlt := LineEntry.lt_of_before hle he hterminal
    have hfits := hq.fits
    have hstop := ha.2
    rw [UInt64.le_iff_toNat_le] at hxa
    omega

/-- The row is the last one of those with the greatest address at or below `a`. -/
def LastAt (q : LineSequence) (a : UInt64) (r : LineRow) : Prop :=
  ∃ front back, q.rows = front ++ r :: back ∧ q.addressOf r ≤ a
    ∧ (∀ x ∈ front, q.addressOf x ≤ a → q.addressOf x ≤ q.addressOf r)
    ∧ ∀ x ∈ back, q.addressOf x ≤ a → q.addressOf x < q.addressOf r

theorem LastAt.unique {r' : LineRow} (h : q.LastAt a r) (h' : q.LastAt a r') : r = r' := by
  obtain ⟨front, back, hrows, hle, hfront, hback⟩ := h
  obtain ⟨front', back', hrows', hle', hfront', hback'⟩ := h'
  rw [hrows, List.append_eq_append_iff] at hrows'
  rcases hrows' with ⟨more, rfl, hmore⟩ | ⟨more, rfl, hmore⟩
  all_goals rcases List.cons_eq_append_iff.1 hmore with ⟨rfl, heq⟩ | ⟨more, rfl, rfl⟩
  · exact (List.cons.inj heq).1.symm
  · exact absurd (hback r' (by simp) hle') (UInt64.not_lt.2 (hfront' r (by simp) hle))
  · exact (List.cons.inj heq).1
  · exact absurd (hback' r (by simp) hle) (UInt64.not_lt.2 (hfront r' (by simp) hle'))

end LineSequence

/-- Contributions whose addresses do not wrap, none of which has an address of another. -/
structure Spread (qs : List LineSequence) : Prop where
  tidy : ∀ q ∈ qs, q.Tidy
  disjoint : qs.Pairwise fun q q' => ∀ a, ¬ (q.Contains a ∧ q'.Contains a)

theorem Spread.eq_of_contains {qs : List LineSequence} (h : Spread qs) {q q' : LineSequence} {a : UInt64}
    (hq : q ∈ qs) (hq' : q' ∈ qs) (ha : q.Contains a) (ha' : q'.Contains a) : q = q' :=
  eq_of_disjoint h.disjoint hq hq' ha ha'

namespace LineTable
variable {t : LineTable} {qs : List LineSequence} {q : LineSequence} {r : LineRow} {a : UInt64}
  {e x : LineEntry} {es : List LineEntry} {position : UInt32 → Nat}

theorem find?_eq (ht : t.entries = sort es) (a : UInt64) :
    t.find? a = ((es.mergeSort LineEntry.before).takeWhile (·.address ≤ a)).getLast?.filter
      (!·.isTerminal) := by
  rw [find?, ht]
  rfl

theorem decide_address_le (x y : LineEntry) (h : x.before y) (hy : decide (y.address ≤ a) = true) :
    decide (x.address ≤ a) = true := by
  rw [decide_eq_true_eq] at hy ⊢
  exact UInt64.le_trans (LineEntry.address_le_of_before h) hy

theorem greatest_of_find? (ht : t.entries = sort es) (h : t.find? a = some e) :
    e ∈ es ∧ e.address ≤ a ∧ e.isTerminal = false ∧ (∀ x ∈ es, x.address ≤ a → x.before e)
      ∧ (es.filter fun x => decide (x.address ≤ a) && e.before x).getLast? = some e := by
  rw [find?_eq ht] at h
  obtain ⟨hlast, hterminal⟩ := Option.filter_eq_some_iff.1 h
  obtain ⟨hmem, hle, hgreatest, hfilter⟩ :=
    LineEntry.sorts_before.of_getLast?_takeWhile_mergeSort decide_address_le hlast
  simp only [decide_eq_true_eq] at hle hgreatest
  exact ⟨hmem, hle, by simpa using hterminal, hgreatest, hfilter⟩

theorem isSome_find? (ht : t.entries = sort es) (hx : x ∈ es) (hle : x.address ≤ a)
    (hall : ∀ e ∈ es, e.address ≤ a → x.before e → e.isTerminal = false) : (t.find? a).isSome := by
  have hsome : ((es.mergeSort LineEntry.before).takeWhile (·.address ≤ a)).getLast?.isSome :=
    (LineEntry.sorts_before.isSome_getLast?_takeWhile_mergeSort decide_address_le).2
      ⟨x, hx, decide_eq_true hle⟩
  obtain ⟨e, hlast⟩ := Option.isSome_iff_exists.1 hsome
  obtain ⟨hmem, hea, hgreatest, -⟩ :=
    LineEntry.sorts_before.of_getLast?_takeWhile_mergeSort decide_address_le hlast
  simp only [decide_eq_true_eq] at hea hgreatest
  have hrow := hall e hmem hea (hgreatest x hx hle)
  rw [find?_eq ht, hlast, Option.filter_some, hrow]
  rfl

/-! ### Rows -/

theorem exists_row (he : e ∈ qs.flatMap (·.entries position)) (hrow : e.isTerminal = false) :
    ∃ q ∈ qs, ∃ r ∈ q.rows, q.entryOf position r = e := by
  obtain ⟨q, hq, he⟩ := List.mem_flatMap.1 he
  rcases LineSequence.mem_entries_iff.1 he with hr | hterminal
  · exact ⟨q, hq, hr⟩
  · exact absurd (LineSequence.of_mem_terminal hterminal).1 (by simp [hrow])

theorem mem_of_row (hq : q ∈ qs) (hr : r ∈ q.rows) :
    q.entryOf position r ∈ qs.flatMap (·.entries position) :=
  List.mem_flatMap.2 ⟨q, hq, LineSequence.mem_entries_iff.2 (.inl ⟨r, hr, rfl⟩)⟩

/-- The terminal entry hides the rows in front of the end of a contribution from all that is behind
it, and it hides no others. -/
theorem lt_stop_iff_of_find? (ht : t.entries = sort (qs.flatMap (·.entries position)))
    (h : t.find? a = some e) (hq : q ∈ qs) (hr : r ∈ q.rows)
    (hwrap : q.Unwrapped) (haddress : e.address = q.addressOf r) :
    a.toNat < q.base.toNat + q.size.toNat ↔ r.record.offset < q.size := by
  obtain ⟨-, hle, -, hgreatest, -⟩ := greatest_of_find? ht h
  have hfits := hwrap.fits
  have he := hwrap.toNat_addressOf hr
  rw [UInt64.le_iff_toNat_le, haddress] at hle
  rw [UInt32.lt_iff_toNat_lt]
  constructor
  · omega
  · intro hlt
    by_contra hbehind
    obtain ⟨x, hx, -, hstop⟩ := LineSequence.exists_terminal hr position
    have ha := a.toNat_lt
    have hxa : x.address ≤ a := UInt64.le_iff_toNat_le.2 (by omega)
    have hxe := LineEntry.address_le_of_before
      (hgreatest x (List.mem_flatMap.2 ⟨q, hq, hx⟩) hxa)
    rw [UInt64.le_iff_toNat_le, haddress] at hxe
    omega

theorem contains_of_find? (hqs : Spread qs) (ht : t.entries = sort (qs.flatMap (·.entries position)))
    (h : t.find? a = some e) (hq : q ∈ qs) (hr : r ∈ q.rows) (he : q.entryOf position r = e) :
    q.Contains a := by
  subst he
  have htidy := hqs.tidy q hq
  have hle := (greatest_of_find? ht h).2.1
  refine ⟨UInt64.le_trans (htidy.contains_addressOf hr).1 hle, ?_⟩
  exact (lt_stop_iff_of_find? ht h hq hr htidy.unwrapped rfl).2 (htidy.inside r hr)

theorem isSome_find?_iff (hqs : Spread qs) (ht : t.entries = sort (qs.flatMap (·.entries position))) :
    (t.find? a).isSome ↔ ∃ q ∈ qs, q.Contains a ∧ ∃ r ∈ q.rows, q.addressOf r ≤ a := by
  constructor
  · intro h
    obtain ⟨e, he⟩ := Option.isSome_iff_exists.1 h
    obtain ⟨hmem, hle, hrow, -⟩ := greatest_of_find? ht he
    obtain ⟨q, hq, r, hr, rfl⟩ := exists_row hmem hrow
    exact ⟨q, hq, contains_of_find? hqs ht he hq hr rfl, r, hr, hle⟩
  · rintro ⟨q, hq, ha, r, hr, hle⟩
    refine isSome_find? ht (mem_of_row hq hr) hle fun e he hea hbefore => ?_
    obtain ⟨q', hq', he⟩ := List.mem_flatMap.1 he
    -- whoever has an entry between the row and `a` has one of the addresses there
    obtain ⟨b, hb', hrb, hbe⟩ := (hqs.tidy q' hq').exists_contains he rfl hbefore
    have hb : q.Contains b := by
      have hbase := ((hqs.tidy q hq).contains_addressOf hr).1
      refine ⟨UInt64.le_trans hbase hrb, ?_⟩
      have hba := UInt64.le_iff_toNat_le.1 (UInt64.le_trans hbe hea)
      exact Nat.lt_of_le_of_lt hba ha.2
    obtain rfl := hqs.eq_of_contains hq hq' hb hb'
    exact (hqs.tidy q hq).isTerminal_eq_false he ha hea rfl hbefore

/-- Between an entry in a contribution and an address of it there is no entry of another one. -/
theorem filter_entries_eq (hqs : Spread qs) (hq : q ∈ qs) (ha : q.Contains a) (he : e.isTerminal = false)
    (hbase : q.base ≤ e.address) :
    (qs.flatMap (·.entries position)).filter (fun x => decide (x.address ≤ a) && e.before x)
      = (q.rows.map (q.entryOf position)).filter fun x => decide (x.address ≤ a) && e.before x := by
  obtain ⟨front, back, rfl⟩ := List.append_of_mem hq
  have hother {q' : LineSequence} (hq' : q' ∈ front ++ q :: back)
      (hdisjoint : ∀ b, ¬ (q.Contains b ∧ q'.Contains b)) :
      (q'.entries position).filter (fun x => decide (x.address ≤ a) && e.before x) = [] := by
    rw [List.filter_eq_nil_iff]
    intro x hx hbetween
    rw [Bool.and_eq_true, decide_eq_true_eq] at hbetween
    obtain ⟨b, hb, heb, hbx⟩ := (hqs.tidy q' hq').exists_contains hx he hbetween.2
    have hba := UInt64.le_iff_toNat_le.1 (UInt64.le_trans hbx hbetween.1)
    exact hdisjoint b ⟨⟨UInt64.le_trans hbase heb, Nat.lt_of_le_of_lt hba ha.2⟩, hb⟩
  obtain ⟨-, hcons, hfront⟩ := List.pairwise_append.1 hqs.disjoint
  have hback := (List.pairwise_cons.1 hcons).1
  rw [List.filter_flatMap, List.flatMap_append, List.flatMap_cons]
  rw [List.flatMap_eq_nil_iff.2 fun q' hq' => hother (by simp [hq'])
    fun b hb => hfront q' hq' q List.mem_cons_self b hb.symm]
  rw [List.flatMap_eq_nil_iff.2 fun q' hq' => hother (by simp [hq']) (hback q' hq')]
  rw [LineSequence.entries, List.filter_append, List.nil_append, List.append_nil]
  refine List.append_right_eq_self.2 (List.filter_eq_nil_iff.2 fun x hx hbetween => ?_)
  rw [Bool.and_eq_true, decide_eq_true_eq] at hbetween
  have hmem := LineSequence.mem_entries_iff.2 (.inr hx)
  have hrow := (hqs.tidy q hq).isTerminal_eq_false hmem ha hbetween.1 he hbetween.2
  exact absurd (LineSequence.of_mem_terminal hx).1 (by simp [hrow])

theorem lastAt_of_find? (hqs : Spread qs) (ht : t.entries = sort (qs.flatMap (·.entries position)))
    (h : t.find? a = some e) (hq : q ∈ qs) (ha : q.Contains a) :
    ∃ r ∈ q.rows, q.LastAt a r ∧ q.entryOf position r = e := by
  obtain ⟨hmem, hle, hrow, hgreatest, hlast⟩ := greatest_of_find? ht h
  have hbase : q.base ≤ e.address := by
    obtain ⟨q', hq', r, hr, rfl⟩ := exists_row hmem hrow
    obtain rfl := hqs.eq_of_contains hq' hq (contains_of_find? hqs ht h hq' hr rfl) ha
    exact ((hqs.tidy q' hq').contains_addressOf hr).1
  rw [filter_entries_eq hqs hq ha hrow hbase, List.filter_map, List.getLast?_map,
    Option.map_eq_some_iff] at hlast
  obtain ⟨r, hr, rfl⟩ := hlast
  obtain ⟨-, front, back, hrows, hback⟩ := getLast?_filter_eq_some_iff.1 hr
  have hin {x : LineRow} (hx : x ∈ q.rows) (hxa : q.addressOf x ≤ a) : q.addressOf x ≤ q.addressOf r :=
    LineEntry.address_le_of_before (hgreatest _ (mem_of_row hq hx) hxa)
  refine ⟨r, by simp [hrows], ⟨front, back, hrows, hle, fun x hx hxa => hin (by simp [hrows, hx]) hxa,
    fun x hx hxa => ?_⟩, rfl⟩
  -- of two rows at one address the later one is found
  have hnot := hback x hx
  simp only [Function.comp_apply, Bool.and_eq_true, decide_eq_true_eq, not_and] at hnot
  have hne := hnot hxa
  rw [LineEntry.before_iff] at hne
  rw [UInt64.lt_iff_toNat_lt]
  by_contra hge
  refine hne ?_
  rcases Nat.lt_or_eq_of_le (Nat.not_lt.1 hge) with hlt | heq
  · exact .inl hlt
  · exact .inr ⟨heq, .inr rfl⟩

/-! ### Tables that have been built -/

/-- The entry is that of a row, and has the file that the block of the row names. -/
structure Shows (t : LineTable) (lineData : Bytes) (names : Names) (q : LineSequence) (r : LineRow)
    (e : LineEntry) : Prop where
  address : e.address = q.addressOf r
  line : e.line = r.record.line
  isStatement : e.isStatement = r.record.isStatement
  isTerminal : e.isTerminal = false
  file : ∃ name, nameAt? (checksums? (Subsection.list lineData)) names r.file.toNat = some name
    ∧ t.fileName? e = some name

variable {lineData : Bytes} {names : Names} {place : UInt16 → UInt32 → Option UInt64}

/-- The end of one contribution is the beginning of another, two rows have one address, and there are a
hidden line and a contribution without an address. -/
def adjoiningLines : LineList :=
  { checksums := [⟨1, 0, []⟩, ⟨3, 0, []⟩] : LineList }
    |>.addLines 1 0x200 0x10 [⟨8, [(0, 7), (4, 0xfeefee), (8, 8)]⟩]
    |>.addLines 1 0x1f0 0x10 [⟨0, [(0, 10), (6, 11), (6, 12)]⟩, ⟨8, [(12, 3)]⟩]
    |>.addLines 9 0 0x10 [⟨0, [(0, 99)]⟩]

/-- The names at 1 and 3. -/
def twoNames : Names where
  texts := [0, 97, 0, 98, 0]
  hashCount := 0
  nameCount := 2

def oneSection (segment : UInt16) (offset : UInt32) : Option UInt64 :=
  if segment = 1 then some (0x1000 + offset.toUInt64) else none

theorem sequences_adjoiningLines : sequences adjoiningLines.encode oneSection = [
    ⟨0x1200, 0x10, [⟨8, 0, 0x80000007⟩, ⟨8, 8, 0x80000008⟩]⟩,
    ⟨0x11f0, 0x10, [⟨0, 0, 0x8000000a⟩, ⟨0, 6, 0x8000000b⟩, ⟨0, 6, 0x8000000c⟩, ⟨8, 12, 0x80000003⟩]⟩] := by
  decide +kernel

theorem spread_adjoiningLines : Spread (sequences adjoiningLines.encode oneSection) := by
  rw [sequences_adjoiningLines]
  refine ⟨?_, ?_⟩
  · rw [List.forall_mem_cons, List.forall_mem_singleton]
    exact ⟨⟨by decide, by decide⟩, ⟨by decide, by decide⟩⟩
  · rw [List.pairwise_pair]
    rintro a ⟨⟨hbase, -⟩, ⟨-, hstop⟩⟩
    exact absurd hstop (Nat.not_lt.2 (UInt64.le_iff_toNat_le.1 hbase))

/-- The rows of a contribution are the lines of its blocks, without the numbers for code that is not to
be stepped into and for code that has no source. -/
theorem mem_rows_iff (c : LineContribution) (r : LineRow) : r ∈ c.rows
    ↔ (∃ b ∈ LineBlock.list c.blocks, b.file = r.file ∧ r.record ∈ b.lines)
      ∧ r.record.line ≠ 0xf00f00 ∧ r.record.line ≠ 0xfeefee := by
  have hshown (l : LineRecord) : (!l.isHidden) = true ↔ l.line ≠ 0xf00f00 ∧ l.line ≠ 0xfeefee := by
    rw [LineRecord.isHidden, Bool.not_eq_true', decide_eq_false_iff_not, not_or]
  simp only [LineContribution.rows, List.mem_flatMap, List.mem_map, List.mem_filter, hshown]
  constructor
  · rintro ⟨b, hb, l, ⟨hl, hline⟩, rfl⟩
    exact ⟨⟨b, hb, rfl, hl⟩, hline⟩
  · rintro ⟨⟨b, hb, hfile, hl⟩, hline⟩
    exact ⟨b, hb, r.record, ⟨hl, hline⟩, hfile ▸ rfl⟩

/-- No address leads to a line with one of these numbers. -/
theorem line_of_find? (h : build lineData names place = .ok t) (he : t.find? a = some e) :
    e.line ≠ 0xf00f00 ∧ e.line ≠ 0xfeefee := by
  obtain ⟨position, ht, -⟩ := exists_positions h
  obtain ⟨hmem, -, hrow, -⟩ := greatest_of_find? ht he
  obtain ⟨q, hq, r, hr, rfl⟩ := exists_row hmem hrow
  obtain ⟨c, -, hc⟩ := List.mem_filterMap.1 hq
  obtain ⟨base, -, rfl⟩ := Option.map_eq_some_iff.1 hc
  exact ((mem_rows_iff c r).1 hr).2

/-- If the contributions are apart from each other, and their rows in front of their ends, an address
leads to the last row of the contribution around it. -/
theorem find?_lastRow (h : build lineData names place = .ok t) (hqs : Spread (sequences lineData place))
    (a : UInt64) :
    ((t.find? a).isSome ↔
      ∃ q ∈ sequences lineData place, q.Contains a ∧ ∃ r ∈ q.rows, q.addressOf r ≤ a)
    ∧ (∀ e, t.find? a = some e → ∀ q ∈ sequences lineData place, q.Contains a →
      ∃ r ∈ q.rows, q.LastAt a r ∧ t.Shows lineData names q r e)
    ∧ ∃ position, t.entries.Perm ((sequences lineData place).flatMap (·.entries position)) := by
  obtain ⟨position, ht, hfiles⟩ := exists_positions h
  refine ⟨isSome_find?_iff hqs ht, fun e he q hq ha => ?_, position, ?_⟩
  · obtain ⟨r, hr, hlast, rfl⟩ := lastAt_of_find? hqs ht he hq ha
    exact ⟨r, hr, hlast, rfl, rfl, rfl, rfl, hfiles q hq r hr⟩
  · rw [ht]
    exact List.mergeSort_perm _ _

theorem find?_lastRow_adjoining : ∃ t, build adjoiningLines.encode twoNames oneSection = .ok t
    ∧ Spread (sequences adjoiningLines.encode oneSection)
    ∧ (∃ e, t.find? 0x11f8 = some e ∧ e.line = 12 ∧ t.fileName? e = some [97])
    ∧ (∃ e, t.find? 0x1200 = some e ∧ e.line = 7 ∧ t.fileName? e = some [98])
    ∧ t.find? 0x1210 = none := by
  have hok : (build adjoiningLines.encode twoNames oneSection).isOk := by decide +kernel
  cases h : build adjoiningLines.encode twoNames oneSection with
  | error e => simp [h, Except.isOk, Except.toBool] at hok
  | ok t =>
    have hall := find?_lastRow h spread_adjoiningLines
    have hfound {a : UInt64} {q : LineSequence} {r : LineRow} {name : Bytes}
        (hq : q ∈ sequences adjoiningLines.encode oneSection) (ha : q.Contains a) (hr : q.LastAt a r)
        (hname : nameAt? (checksums? (Subsection.list adjoiningLines.encode)) twoNames r.file.toNat
          = some name) :
        ∃ e, t.find? a = some e ∧ e.line = r.record.line ∧ t.fileName? e = some name := by
      obtain ⟨hsome, hrow, -⟩ := hall a
      obtain ⟨front, back, hrows, hle, -⟩ := id hr
      obtain ⟨e, he⟩ := Option.isSome_iff_exists.1 (hsome.2 ⟨q, hq, ha, r, by simp [hrows], hle⟩)
      obtain ⟨r', -, hr', hshows⟩ := hrow e he q hq ha
      obtain rfl := hr'.unique hr
      obtain ⟨name', hname', hfile⟩ := hshows.file
      rw [hname] at hname'
      cases hname'
      exact ⟨e, he, hshows.line, hfile⟩
    rw [sequences_adjoiningLines] at hall hfound
    refine ⟨t, rfl, spread_adjoiningLines, ?_, ?_, ?_⟩
    · refine hfound (a := 0x11f8) (r := ⟨0, 6, 0x8000000c⟩) (List.mem_cons_of_mem _ List.mem_cons_self)
        ⟨by decide, by decide⟩ ?_ (by decide +kernel)
      exact ⟨[⟨0, 0, 0x8000000a⟩, ⟨0, 6, 0x8000000b⟩], [⟨8, 12, 0x80000003⟩], rfl, by decide, by decide, by decide⟩
    · refine hfound (a := 0x1200) (r := ⟨8, 0, 0x80000007⟩) List.mem_cons_self ⟨by decide, by decide⟩ ?_
        (by decide +kernel)
      exact ⟨[], [⟨8, 8, 0x80000008⟩], rfl, by decide, by decide, by decide⟩
    · rw [← Option.not_isSome_iff_eq_none, (hall 0x1210).1]
      simp [LineSequence.Contains]

/-- A row at the end of a contribution without bytes, and one at the end of a contribution that has
another row. -/
def linesAtEnd : LineList :=
  { checksums := [⟨1, 0, []⟩] : LineList }
    |>.addLines 1 0x10 0 [⟨0, [(0, 7)]⟩]
    |>.addLines 1 0x40 8 [⟨0, [(0, 8), (8, 9)]⟩]

def rowAt (address : UInt64) (line : Nat) : LineEntry := ⟨address, line, 0, true, false⟩

def endAt (address : UInt64) (line : Nat) : LineEntry := ⟨address, line, 0, false, true⟩

theorem sequences_linesAtEnd : sequences linesAtEnd.encode oneSection = [
    ⟨0x1010, 0, [⟨0, 0, 0x80000007⟩]⟩,
    ⟨0x1040, 8, [⟨0, 0, 0x80000008⟩, ⟨0, 8, 0x80000009⟩]⟩] := by
  decide +kernel

theorem unwrapped_linesAtEnd : ∀ q ∈ sequences linesAtEnd.encode oneSection, q.Unwrapped := by
  rw [sequences_linesAtEnd, List.forall_mem_cons, List.forall_mem_singleton]
  exact ⟨⟨by decide, by decide⟩, ⟨by decide, by decide⟩⟩

theorem nameAt?_linesAtEnd :
    nameAt? (checksums? (Subsection.list linesAtEnd.encode)) twoNames 0 = some [97] := by
  decide +kernel

/-- A terminal entry comes to the front of the row at its address. -/
theorem sort_linesAtEnd :
    sort [rowAt 0x1010 7, endAt 0x1010 7, rowAt 0x1040 8, rowAt 0x1048 9, endAt 0x1048 9]
      = [endAt 0x1010 7, rowAt 0x1010 7, rowAt 0x1040 8, endAt 0x1048 9, rowAt 0x1048 9] :=
  LineEntry.sorts_before.mergeSort_eq (by decide) (by decide) (by decide)

theorem build_linesAtEnd : build linesAtEnd.encode twoNames oneSection = .ok
    ⟨[[97]], [endAt 0x1010 7, rowAt 0x1010 7, rowAt 0x1040 8, endAt 0x1048 9, rowAt 0x1048 9]⟩ := by
  let subsections := Subsection.list linesAtEnd.encode
  have hadd : (addAll (checksums? subsections) twoNames oneSection ⟨⟨[], []⟩, []⟩
      (subsections.filter (·.kind = .lines))).map (·.table) = .ok ⟨[[97]],
        [rowAt 0x1010 7, endAt 0x1010 7, rowAt 0x1040 8, rowAt 0x1048 9, endAt 0x1048 9]⟩ := by
    decide +kernel
  obtain ⟨p, hp, htable⟩ := exists_of_map_eq_ok hadd
  show (addAll (checksums? subsections) twoNames oneSection _ _ >>= _) = _
  rw [hp, ← sort_linesAtEnd]
  show Except.ok { p.table with entries := sort p.table.entries } = _
  rw [htable]

/-- A row covers addresses in front of the end of its contribution only, if and only if it is itself in
front of the end. -/
theorem covered_iff_inside (h : build lineData names place = .ok t)
    (hwrap : ∀ q ∈ sequences lineData place, q.Unwrapped) (he : t.find? a = some e) :
    (∃ q ∈ sequences lineData place, ∃ r ∈ q.rows, t.Shows lineData names q r e)
    ∧ ∀ q ∈ sequences lineData place, ∀ r ∈ q.rows, t.Shows lineData names q r e →
      (a.toNat < q.base.toNat + q.size.toNat ↔ r.record.offset < q.size) := by
  obtain ⟨position, ht, hfiles⟩ := exists_positions h
  obtain ⟨hmem, -, hrow, -⟩ := greatest_of_find? ht he
  constructor
  · obtain ⟨q, hq, r, hr, rfl⟩ := exists_row hmem hrow
    exact ⟨q, hq, r, hr, rfl, rfl, rfl, rfl, hfiles q hq r hr⟩
  · intro q hq r hr hshows
    exact lt_stop_iff_of_find? ht he hq hr (hwrap q hq) hshows.address

theorem covered_iff_inside_atEnd : ∃ t, build linesAtEnd.encode twoNames oneSection = .ok t
    ∧ (∀ q ∈ sequences linesAtEnd.encode oneSection, q.Unwrapped)
    ∧ ∃ e, t.find? 0x1044 = some e
      ∧ ∃ q ∈ sequences linesAtEnd.encode oneSection, ∃ r ∈ q.rows, t.Shows linesAtEnd.encode twoNames q r e
        ∧ 0x1044 < q.base.toNat + q.size.toNat := by
  refine ⟨_, build_linesAtEnd, unwrapped_linesAtEnd, rowAt 0x1040 8, by decide, ?_⟩
  have hinside := (covered_iff_inside (a := 0x1044) build_linesAtEnd unwrapped_linesAtEnd (e := rowAt 0x1040 8)
    (by decide)).2
  rw [sequences_linesAtEnd] at hinside ⊢
  have hq := List.mem_cons_of_mem ⟨0x1010, 0, [⟨0, 0, 0x80000007⟩]⟩
    (List.mem_singleton_self (⟨0x1040, 8, [⟨0, 0, 0x80000008⟩, ⟨0, 8, 0x80000009⟩]⟩ : LineSequence))
  refine ⟨_, hq, _, List.mem_cons_self, (and_iff_left_of_imp fun hshows => ?_).2 ?_⟩
  · exact (hinside _ hq _ List.mem_cons_self hshows).2 (by decide)
  · exact ⟨rfl, by decide +kernel, rfl, rfl, [97], nameAt?_linesAtEnd, rfl⟩

/-- The row of a contribution without bytes covers an address, and a row at the end of a contribution
covers all that is behind it. -/
theorem covers_behind_end : ∃ t, build linesAtEnd.encode twoNames oneSection = .ok t
    ∧ (∀ q ∈ sequences linesAtEnd.encode oneSection, q.Unwrapped)
    ∧ (∃ q ∈ sequences linesAtEnd.encode oneSection, q.size = 0 ∧ ∃ r ∈ q.rows, ∃ e,
      t.find? 0x1010 = some e ∧ t.Shows linesAtEnd.encode twoNames q r e
      ∧ ¬ 0x1010 < q.base.toNat + q.size.toNat)
    ∧ ∃ q ∈ sequences linesAtEnd.encode oneSection, ∃ r ∈ q.rows, r.record.offset = q.size ∧ ∃ e,
      t.find? 0x2000 = some e ∧ t.Shows linesAtEnd.encode twoNames q r e
      ∧ ¬ 0x2000 < q.base.toNat + q.size.toNat := by
  refine ⟨_, build_linesAtEnd, unwrapped_linesAtEnd, ?_⟩
  rw [sequences_linesAtEnd]
  constructor
  · refine ⟨_, List.mem_cons_self, rfl, _, List.mem_cons_self, rowAt 0x1010 7, by decide, ?_, by decide⟩
    exact ⟨rfl, by decide +kernel, rfl, rfl, [97], nameAt?_linesAtEnd, rfl⟩
  · refine ⟨_, List.mem_cons_of_mem _ List.mem_cons_self, _, List.mem_cons_of_mem _ List.mem_cons_self,
      rfl, rowAt 0x1048 9, by decide, ?_, by decide⟩
    exact ⟨rfl, by decide +kernel, rfl, rfl, [97], nameAt?_linesAtEnd, rfl⟩

end LineTable
end Pdb
