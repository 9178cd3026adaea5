import Pdb.Proofs.Codec
import Pdb.Proofs.RecordOffsets
import Pdb.Proofs.StreamBytes
import Pdb.TypeStream

/-! # Records by index and records in a row

The records of a type stream are found in two ways: by index, with a scan that looks at lengths only,
and in a row, by cutting one record after another from the bytes. Nothing is asked of the stream but
that its bytes can be read (`Spans`), wherever its pages are. A step of the scan and a step of the walk
take the same record off the front (`scanFrames_of_decode`), and so both stop at the same place, but
for one case: the offsets of the scan are words, and it is given up where a sum of them is not
(`OverrunsAt`). Main statement: `scan_iff`.
-/

namespace Pdb

/-! ### Records in a row -/

namespace RawRecord
open Decoder
variable {bs rest : Bytes} {r : RawRecord} {rs : List RawRecord} {pos : Nat}

/-- The length that the first record claims. -/
def frame (bs : Bytes) : Nat := Bytes.leNat (bs.take 2)

theorem frame_lt (bs : Bytes) : frame bs < 2 ^ 16 := by
  have hle : 256 ^ (bs.take 2).length ≤ 256 ^ 2 :=
    Nat.pow_le_pow_right (by decide) (List.length_take_le 2 bs)
  exact (Bytes.leNat_lt _).trans_le hle

theorem u16_eq (h : 2 ≤ bs.length) : u16 bs = some (UInt16.ofNat (frame bs), bs.drop 2) := by
  have htake : take 2 bs = some (bs.take 2, bs.drop 2) := if_pos (by rw [List.length_take]; omega)
  show (word 2 bs).bind _ = _
  rw [word, htake]
  rfl

theorem decode_eq (h : 2 ≤ bs.length) : decode bs = body (frame bs) (bs.drop 2) := by
  rw [← UInt16.toNat_ofNat_of_lt' (frame_lt bs)]
  exact congrArg (Option.bind · _) (u16_eq h)

theorem size_of_decode (h : decode bs = some (r, rest)) : r.size = 2 + frame bs := by
  have hlength := length_of_decode h
  rw [decode_eq (by rw [hlength, size]; omega)] at h
  have hbody := (length_of_body h).1
  rw [size]
  omega

/-- There is a record at the front unless the length is too small to be one or reaches behind the
bytes. -/
theorem decode_isSome_iff (bs : Bytes) :
    (decode bs).isSome ↔ 2 ≤ frame bs ∧ 2 + frame bs ≤ bs.length := by
  constructor
  · rw [Option.isSome_iff_exists]
    rintro ⟨⟨r, rest⟩, h⟩
    have hlength := length_of_decode h
    have hsize := size_of_decode h
    rw [size] at hsize hlength
    omega
  · rintro ⟨hle, hend⟩
    have hkind : u16 (bs.drop 2) = some (_, (bs.drop 2).drop 2) :=
      u16_eq (by rw [List.length_drop]; omega)
    have hdata : take (frame bs - 2) ((bs.drop 2).drop 2) = some (_, _) :=
      if_pos (by rw [List.length_take, List.length_drop, List.length_drop]; omega)
    rw [decode_eq (by omega), body, if_neg (by omega)]
    show ((u16 (bs.drop 2)).bind _).isSome
    rw [hkind]
    show ((take (frame bs - 2) ((bs.drop 2).drop 2)).bind _).isSome
    rw [hdata]
    rfl

theorem first?_take_size (h : decode bs = some (r, rest)) : first? (bs.take r.size) = some r := by
  have hlength := length_of_decode h
  obtain ⟨front, rfl, hfront⟩ := rawRecordLocal.split h
  rw [List.length_append] at hlength
  have htake : (front ++ rest).take r.size = front := List.take_left' (by omega)
  rw [htake, first?, ← List.append_nil front, hfront, Option.map_some]

theorem walk_rest_of_decode (h : decode bs = some (r, rest)) : (walk bs).2 = (walk rest).2 := by
  rw [walk, many_eq, h]
  rfl

theorem walk_rest_of_decode_eq_none (h : decode bs = none) : (walk bs).2 = bs := by
  rw [walk, many_eq, h]

/-- Records that have been written one behind another. -/
theorem walk_flatMap (h : ∀ r ∈ rs, r.FitsFrame) : walk (rs.flatMap encode) = (rs, []) :=
  many_flatMap decode_progress rs (fun r hr => reads_decode (h r hr)) rfl

/-- Where records start that stand one behind another. -/
def offsets (pos : Nat) : List RawRecord → List Nat
  | [] => []
  | r :: rs => pos :: offsets (pos + r.size) rs

theorem eq_of_head?_offsets {p : Nat} (h : (offsets pos rs)[0]? = some p) : p = pos := by
  cases rs with
  | nil => exact nomatch h
  | cons r rs => exact (Option.some.inj h).symm

theorem le_of_mem_offsets {p : Nat} (h : p ∈ offsets pos rs) : pos ≤ p := by
  induction rs generalizing pos with
  | nil => exact nomatch h
  | cons r rs ih =>
    rcases List.mem_cons.1 h with rfl | htail
    · exact Nat.le_refl _
    · exact (Nat.le_add_right ..).trans (ih htail)

theorem offsets_ascending (pos : Nat) (rs : List RawRecord) : (offsets pos rs).Pairwise (· < ·) := by
  induction rs generalizing pos with
  | nil => exact .nil
  | cons r rs ih =>
    refine .cons (fun p hp => ?_) (ih _)
    exact Nat.lt_of_lt_of_le (Nat.lt_add_of_pos_right (Nat.succ_pos _)) (le_of_mem_offsets hp)

end RawRecord

/-! ### The scan -/

namespace PagedStream
open RawRecord
variable {s : PagedStream} {pos stop limit n : Nat} {bs rest : Bytes} {r : RawRecord}

/-- The bytes between two offsets can be read, and are these. -/
structure Spans (s : PagedStream) (pos stop : Nat) (bs : Bytes) : Prop where
  le : pos ≤ stop
  stop_lt : stop < 2 ^ 32
  read_eq : s.read pos (stop - pos) = .ok bs

/-- The scan for records in front of `stop` comes to a sum at `pos` that is no word: there is no word
behind the four bytes of a frame, or behind a record. -/
def OverrunsAt (s : PagedStream) (stop pos : Nat) : Prop :=
  2 ^ 32 ≤ pos + 4
    ∨ pos + 4 ≤ stop ∧ ∃ len, s.frameLength pos = .ok len ∧ 2 ≤ len ∧ 2 ^ 32 ≤ pos + 2 + len

theorem lt_of_frameLength {len : Nat} (h : s.frameLength pos = .ok len) : len < 2 ^ 16 := by
  obtain ⟨bs, hcopy, rfl⟩ := exists_of_map_eq_ok h
  have hlength := (length_read ((s.read_eq_copy pos 2).trans hcopy)).1
  exact (Bytes.leNat_lt bs).trans_le (by rw [hlength]; decide)

theorem length_scanFrames_le {starts : List Nat} {behind : Nat}
    (h : s.scanFrames stop limit pos = some (starts, behind)) : starts.length ≤ limit := by
  induction limit generalizing pos starts with
  | zero =>
    cases h
    exact Nat.le_refl _
  | succ limit ih =>
    rw [scanFrames] at h
    split_ifs at h
    · cases h
      exact Nat.zero_le _
    split at h
    · cases h
      exact Nat.zero_le _
    split_ifs at h
    · cases h
      exact Nat.zero_le _
    · cases h
      exact Nat.zero_le _
    obtain ⟨⟨rest, _⟩, hrest, heq⟩ := Option.map_eq_some_iff.1 h
    cases heq
    exact Nat.succ_le_succ (ih hrest)

/-- A record that ends in front of `stop`. -/
theorem scanFrames_succ {len : Nat} (hlen : s.frameLength pos = .ok len) (hle : 2 ≤ len)
    (hend : pos + 2 + len ≤ stop) (hstop : stop < 2 ^ 32) (limit : Nat) :
    s.scanFrames stop (limit + 1) pos
      = (s.scanFrames stop limit (pos + 2 + len)).map fun (starts, behind) => (pos :: starts, behind) := by
  rw [scanFrames, if_neg (by omega), if_neg (by omega), hlen]
  dsimp only
  rw [if_neg (by omega), if_neg (by omega), if_neg (by omega)]

theorem scanFrames_of_overrunsAt (h : s.OverrunsAt stop pos) (limit : Nat) :
    s.scanFrames stop (limit + 1) pos = none := by
  rw [scanFrames]
  rcases h with h | ⟨hfront, len, hlen, hle, h⟩
  · rw [if_pos h]
  · split_ifs
    · rfl
    · omega
    · rw [hlen]
      dsimp only
      rw [if_neg (by omega), if_pos h]

theorem recordAt?_eq_first? {len : Nat} (hlen : s.frameLength pos = .ok len)
    (hread : s.read pos (len + 2) = .ok bs) : s.recordAt? pos = .ok (RawRecord.first? bs) := by
  rw [recordAt?, hlen]
  simp only [bind, Except.bind, hread]
  rfl

namespace Spans

theorem length_eq (h : s.Spans pos stop bs) : pos + bs.length = stop := by
  rw [(length_read h.read_eq).1, Nat.add_sub_cancel' h.le]

theorem copy_eq (h : s.Spans pos stop bs) (hn : n ≤ bs.length) : s.copy pos n = .ok (bs.take n) := by
  have hlength := h.length_eq
  exact copy_within (i := 0) h.read_eq (by omega)

theorem drop (h : s.Spans pos stop bs) (hn : n ≤ bs.length) :
    s.Spans (pos + n) stop (bs.drop n) := by
  have hlength := h.length_eq
  refine ⟨by omega, h.stop_lt, ?_⟩
  rw [read_eq_copy, copy_within h.read_eq (by omega), List.take_of_length_le]
  rw [List.length_drop]
  omega

theorem next (h : s.Spans pos stop bs) (hr : decode bs = some (r, rest)) :
    s.Spans (pos + r.size) stop rest := by
  have hlength := length_of_decode hr
  rw [← drop_size hr]
  exact h.drop (by omega)

theorem frameLength_eq (h : s.Spans pos stop bs) (hlength : 2 ≤ bs.length) :
    s.frameLength pos = .ok (frame bs) := by
  rw [frameLength, h.copy_eq hlength]
  rfl

theorem recordAt?_eq (h : s.Spans pos stop bs) (hr : decode bs = some (r, rest)) :
    s.recordAt? pos = .ok (some r) := by
  have hlength := length_of_decode hr
  have hsize := size_of_decode hr
  have hread : s.read pos (frame bs + 2) = .ok (bs.take r.size) := by
    rw [Nat.add_comm, ← hsize, read_eq_copy, h.copy_eq (by omega)]
  rw [recordAt?_eq_first? (h.frameLength_eq (by omega)) hread, first?_take_size hr]

theorem scanFrames_of_decode (h : s.Spans pos stop bs) (hr : decode bs = some (r, rest))
    (limit : Nat) : s.scanFrames stop (limit + 1) pos
      = (s.scanFrames stop limit (pos + r.size)).map fun (starts, behind) => (pos :: starts, behind) := by
  have hlength := h.length_eq
  have hsize := size_of_decode hr
  have hrest := length_of_decode hr
  have hframe : 2 ≤ frame bs := ((decode_isSome_iff bs).1 (hr ▸ rfl)).1
  rw [scanFrames_succ (h.frameLength_eq (by omega)) hframe (by omega) h.stop_lt, hsize, Nat.add_assoc]

/-- Where there is no record the scan stops, unless it overruns. -/
theorem scanFrames_of_decode_eq_none (h : s.Spans pos stop bs) (hr : decode bs = none)
    (hover : ¬ s.OverrunsAt stop pos) (limit : Nat) : s.scanFrames stop limit pos = some ([], pos) := by
  have hlength := h.length_eq
  have hnone : ¬ (2 ≤ frame bs ∧ 2 + frame bs ≤ bs.length) := by
    rw [← decode_isSome_iff, hr]
    exact Bool.false_ne_true
  cases limit with
  | zero => rfl
  | succ limit =>
    rw [scanFrames, if_neg fun hword => hover (.inl hword)]
    split
    · rfl
    next hfront =>
    split
    · rfl
    next len hlen =>
    have hword : 2 ≤ len → ¬ 2 ^ 32 ≤ pos + 2 + len := fun hle hword =>
      hover (.inr ⟨by omega, len, hlen, hle, hword⟩)
    obtain rfl := Except.ok.inj (hlen.symm.trans (h.frameLength_eq (by omega)))
    split_ifs <;> first | rfl | omega

/-- What comes of the scan by the records of the walk: it finds where they start, unless it overruns
behind them. -/
theorem scanFrames_eq (h : s.Spans pos stop bs) :
    ((walk bs).1.length < limit ∧ s.OverrunsAt stop (stop - (walk bs).2.length)
      → s.scanFrames stop limit pos = none)
    ∧ (¬ ((walk bs).1.length < limit ∧ s.OverrunsAt stop (stop - (walk bs).2.length)) →
      ∃ behind, s.scanFrames stop limit pos = some (offsets pos ((walk bs).1.take limit), behind)) := by
  induction bs using walk_induct generalizing pos limit with
  | stop bs hnone =>
    have hpos : stop - bs.length = pos := by rw [← h.length_eq, Nat.add_sub_cancel]
    rw [walk_of_decode_eq_none hnone, walk_rest_of_decode_eq_none hnone, hpos, List.take_nil, offsets]
    cases limit with
    | zero => exact ⟨fun hlt => absurd hlt.1 (Nat.not_lt_zero _), fun _ => ⟨pos, rfl⟩⟩
    | succ limit =>
      refine ⟨fun hover => scanFrames_of_overrunsAt hover.2 limit, fun hover => ⟨pos, ?_⟩⟩
      exact h.scanFrames_of_decode_eq_none hnone (fun hover' => hover ⟨Nat.succ_pos _, hover'⟩) _
  | record bs r rest hr ih =>
    rw [walk_of_decode hr, walk_rest_of_decode hr]
    cases limit with
    | zero => exact ⟨fun hlt => absurd hlt.1 (Nat.not_lt_zero _), fun _ => ⟨pos, rfl⟩⟩
    | succ limit =>
      rw [h.scanFrames_of_decode hr, List.take_succ_cons, offsets, List.length_cons,
        Nat.succ_lt_succ_iff]
      obtain ⟨hnone, hsome⟩ := @ih (pos + r.size) limit (h.next hr)
      refine ⟨fun hover => by rw [hnone hover]; rfl, fun hover => ?_⟩
      obtain ⟨behind, hbehind⟩ := hsome hover
      exact ⟨behind, by rw [hbehind]; rfl⟩

theorem map_recordAt?_offsets (h : s.Spans pos stop bs) (n : Nat) :
    (offsets pos ((walk bs).1.take n)).map s.recordAt? = ((walk bs).1.take n).map (.ok ∘ some) := by
  induction bs using walk_induct generalizing pos n with
  | stop bs hnone => rw [walk_of_decode_eq_none hnone, List.take_nil]; rfl
  | record bs r rest hr ih =>
    rw [walk_of_decode hr]
    cases n with
    | zero => rfl
    | succ n =>
      rw [List.take_succ_cons, offsets, List.map_cons, List.map_cons, h.recordAt?_eq hr,
        ih (h.next hr)]
      rfl

/-- Each record ends in front of `stop`, and the next one starts there. -/
theorem ends_of_offsets (h : s.Spans pos stop bs) {i p : Nat}
    (hp : (offsets pos ((walk bs).1.take n))[i]? = some p) :
    pos ≤ p ∧ ∃ len, s.frameLength p = .ok len ∧ p + 2 + len ≤ stop
      ∧ ∀ next, (offsets pos ((walk bs).1.take n))[i + 1]? = some next → next = p + 2 + len := by
  induction bs using walk_induct generalizing pos n i with
  | stop bs hnone =>
    rw [walk_of_decode_eq_none hnone, List.take_nil] at hp
    exact nomatch hp
  | record bs r rest hr ih =>
    rw [walk_of_decode hr] at hp ⊢
    have hlength := h.length_eq
    have hsize := size_of_decode hr
    have hrest := length_of_decode hr
    cases n with
    | zero => exact nomatch hp
    | succ n =>
      rw [List.take_succ_cons, offsets] at hp ⊢
      cases i with
      | zero =>
        cases hp
        refine ⟨Nat.le_refl _, _, h.frameLength_eq (by omega), by omega, fun next hnext => ?_⟩
        have hpos := eq_of_head?_offsets hnext
        omega
      | succ i =>
        obtain ⟨hle, hends⟩ := ih (h.next hr) hp
        exact ⟨(Nat.le_add_right ..).trans hle, hends⟩

end Spans
end PagedStream

/-! ### Type streams -/

theorem TypeIndex.toNat_ofNat {n : Nat} (h : n < 2 ^ 32) : (ofNat n).toNat = n :=
  UInt32.toNat_ofNat_of_lt' h

namespace TypeStream
open PagedStream RawRecord
variable {s : TypeStream} {l : RecordList} {bs : Bytes}

/-- The records by index are those of a walk over the bytes, and each one starts where the one in
front of it ends. -/
structure InStep (s : TypeStream) (bs : Bytes) : Prop where
  record_eq (ti : TypeIndex) : s.first.toNat ≤ ti.toNat →
    (s.record ti).toOption = ((walk bs).1.take s.count)[ti.toNat - s.first.toNat]?
  ascending : s.starts.Pairwise (· < ·)
  ends {l : RecordList} {i pos : Nat} : s.list? = some l → s.starts[i]? = some pos →
    l.start ≤ pos ∧ ∃ len, l.stream.frameLength pos = .ok len ∧ pos + 2 + len ≤ l.stop
      ∧ ∀ next, s.starts[i + 1]? = some next → next = pos + 2 + len

theorem isPrimitive_eq_false {ti : TypeIndex} (h : s.first.toNat ≤ ti.toNat) :
    s.isPrimitive ti = false :=
  decide_eq_false (UInt32.not_lt.2 h)

theorem toOption_record (hlist : s.list? = some l) {ti : TypeIndex} (h : s.first.toNat ≤ ti.toNat) :
    (s.record ti).toOption
      = (s.starts.map l.stream.recordAt?)[ti.toNat - s.first.toNat]?.bind (·.toOption.join) := by
  have hstarts : l.records[ti.toNat - s.first.toNat]?
      = (s.starts.map l.stream.recordAt?)[ti.toNat - s.first.toNat]? := by
    rw [starts, hlist, Option.map_some, Option.getD_some, l.records_eq, Array.getElem?_map,
      List.getElem?_map, Array.getElem?_toList]
  rw [record, isPrimitive_eq_false h, hlist, ← hstarts]
  dsimp only [Bool.false_eq_true, if_false]
  rcases l.records[ti.toNat - s.first.toNat]? with _ | _ | _ | r <;> rfl

theorem inStep_of_empty (hlist : s.list? = none) (hlast : s.last = s.first) : s.InStep bs := by
  have hcount : s.count = 0 := by rw [count, hlast, Nat.sub_self]
  refine ⟨fun ti hti => ?_, ?_, fun hl => ?_⟩
  · rw [record, isPrimitive_eq_false hti, hlist, hcount]
    rfl
  · rw [starts, hlist]
    exact .nil
  · cases hlist.symm.trans hl

theorem inStep_of_starts_eq (hlist : s.list? = some l) (hspans : l.stream.Spans l.start l.stop bs)
    (hstarts : s.starts = offsets l.start ((walk bs).1.take s.count)) : s.InStep bs := by
  refine ⟨fun ti hti => ?_, hstarts ▸ offsets_ascending _ _, fun {l' i pos} hlist' hpos => ?_⟩
  · rw [toOption_record hlist hti, hstarts, hspans.map_recordAt?_offsets, List.getElem?_map]
    cases ((walk bs).1.take s.count)[ti.toNat - s.first.toNat]? <;> rfl
  · obtain rfl := Option.some.inj (hlist.symm.trans hlist')
    rw [hstarts] at hpos ⊢
    exact hspans.ends_of_offsets hpos

end TypeStream

namespace RecordList
open PagedStream
variable {stream : PagedStream} {start stop limit : Nat}

theorem scan?_eq_none_iff :
    scan? stream start stop limit = none ↔ stream.scanFrames stop limit start = none := by
  rw [scan?]
  split
  next h => simp only [h]
  next h => simp only [h, reduceCtorEq]

theorem scan?_cases {l : RecordList} (h : scan? stream start stop limit = some l) :
    l.stream = stream ∧ l.start = start ∧ l.stop = stop ∧ l.limit = limit := by
  rw [scan?] at h
  split at h
  · cases h
  · cases h
    exact ⟨rfl, rfl, rfl, rfl⟩

end RecordList

namespace UnscannedTypes
open PagedStream RawRecord
variable {u : UnscannedTypes} {kind : TypeStreamKind} {stream : PagedStream} {bs : Bytes}

/-- The bytes that the records are in. -/
def recordBytes (u : UnscannedTypes) : Except StreamFault Bytes :=
  match u.range? with
  | none => .ok []
  | some (stream, start, stop) => stream.read start (stop - start)

/-- The scan goes on behind the last record of the walk, and comes to a sum there that is no word. -/
def Overruns (u : UnscannedTypes) (bs : Bytes) : Prop :=
  ∃ stream start stop, u.range? = some (stream, start, stop) ∧ (walk bs).1.length < u.count
    ∧ stream.OverrunsAt stop (stop - (walk bs).2.length)

/-- What is known of the records of a stream whose header has been accepted. -/
structure Ranges (u : UnscannedTypes) (stream : PagedStream) (start stop : Nat) : Prop where
  range?_eq : u.range? = some (stream, start, stop)
  le : start ≤ stop
  stop_lt : stop < 2 ^ 32
  stop_le : stop ≤ stream.length

theorem parse_cases (h : parse kind stream = .ok u) : u.range? = none ∧ u.last = u.first
    ∨ u.first.toNat ≤ u.last.toNat ∧ ∃ start stop, u.Ranges stream start stop := by
  rw [parse] at h
  split_ifs at h with hempty
  · cases h
    exact .inl ⟨rfl, rfl⟩
  obtain ⟨bytes, -, hafter⟩ := exists_of_bind_eq_ok h
  obtain ⟨⟨header, _⟩, -, hchecks⟩ := exists_of_bind_eq_ok hafter
  clear h hafter
  obtain ⟨hrange, h⟩ := of_ite_eq_ok hchecks (by rintro ⟨⟩)
  by_cases hsimple : header.first.isSimple = true
  · rw [dif_pos hsimple] at h
    cases h
  rw [dif_neg hsimple] at h
  obtain ⟨-, h⟩ := of_ite_eq_ok h (by rintro ⟨⟩)
  obtain ⟨hword, h⟩ := of_ite_eq_ok h (by rintro ⟨⟩)
  obtain ⟨hlong, h⟩ := of_ite_eq_ok h (by rintro ⟨⟩)
  cases h
  have hle : header.first.toNat ≤ header.last.toNat := UInt32.not_lt.1 hrange
  exact .inr ⟨hle, _, _, rfl, Nat.le_add_right .., Nat.not_le.1 hword, Nat.not_lt.1 hlong⟩

theorem parse_eq {header : TypeStreamHeader} {bytes after : Bytes} (hlength : stream.length ≠ 0)
    (hread : stream.read 0 TypeStreamHeader.length = .ok bytes)
    (hdecode : TypeStreamHeader.decode bytes = some (header, after))
    (hrange : header.first.toNat ≤ header.last.toNat) (hsimple : header.first.isSimple = false)
    (hstart : TypeStreamHeader.length ≤ header.headerBytes.toNat)
    (hword : header.headerBytes.toNat + header.recordBytes.toNat < 2 ^ 32)
    (hfits : header.headerBytes.toNat + header.recordBytes.toNat ≤ stream.length) :
    parse kind stream = .ok {
      kind, first := header.first, last := header.last,
      range? := some (stream, header.headerBytes.toNat,
        header.headerBytes.toNat + header.recordBytes.toNat)
      first_isSimple := hsimple } := by
  have hrange : ¬ header.last.val < header.first.val := UInt32.not_lt.2 hrange
  simp only [parse, hread, hdecode, Fault.orMalformed, Except.mapError, bind, Except.bind, pure, Except.pure]
  rw [if_neg hlength, if_neg hrange, dif_neg (Bool.eq_false_iff.1 hsimple), if_neg (Nat.not_lt.2 hstart),
    if_neg (Nat.not_le.2 hword), if_neg (Nat.not_lt.2 hfits)]

/-- The stream is the one with this header, and with a list of the records in the range. -/
structure Lists (u : UnscannedTypes) (s : TypeStream) : Prop where
  eq_withList : s = u.withList s.list?
  range?_eq : s.list?.map (fun l => (l.stream, l.start, l.stop)) = u.range?
  limit_eq {l : RecordList} : s.list? = some l → l.limit = u.count

theorem lists_of_scan {s : TypeStream} (h : u.scan = .ok s) : u.Lists s := by
  rw [scan] at h
  split at h
  next hrange =>
    cases h
    exact ⟨rfl, hrange.symm, fun hlist => nomatch hlist⟩
  next stream start stop hrange =>
    split at h
    · cases h
    next l hl =>
      cases h
      obtain ⟨rfl, rfl, rfl, hlimit⟩ := RecordList.scan?_cases hl
      refine ⟨rfl, hrange.symm, fun hlist => ?_⟩
      cases hlist
      exact hlimit

namespace Ranges
variable {start stop : Nat}

theorem spans (h : u.Ranges stream start stop) (hbs : u.recordBytes = .ok bs) :
    stream.Spans start stop bs := by
  rw [recordBytes, h.range?_eq] at hbs
  exact ⟨h.le, h.stop_lt, hbs⟩

theorem overruns_iff (h : u.Ranges stream start stop) : u.Overruns bs
    ↔ (walk bs).1.length < u.count ∧ stream.OverrunsAt stop (stop - (walk bs).2.length) := by
  refine ⟨?_, fun hover => ⟨stream, start, stop, h.range?_eq, hover⟩⟩
  rintro ⟨_, _, _, hrange, hover⟩
  cases hrange.symm.trans h.range?_eq
  exact hover

theorem scan_of_overruns (h : u.Ranges stream start stop) (hbs : u.recordBytes = .ok bs)
    (hover : u.Overruns bs) : u.scan = .error .overflow := by
  have hnone := RecordList.scan?_eq_none_iff.2 ((h.spans hbs).scanFrames_eq.1 (h.overruns_iff.1 hover))
  rw [scan, h.range?_eq]
  dsimp only
  rw [hnone]
  rfl

theorem exists_scan (h : u.Ranges stream start stop) (hbs : u.recordBytes = .ok bs)
    (hover : ¬ u.Overruns bs) :
    ∃ l, u.scan = .ok (u.withList (some l)) ∧ (u.withList (some l)).InStep bs := by
  have hspans := h.spans hbs
  obtain ⟨behind, hframes⟩ := hspans.scanFrames_eq.2 (h.overruns_iff.not.1 hover)
  obtain ⟨l, hl⟩ := Option.ne_none_iff_exists'.1
    (RecordList.scan?_eq_none_iff.not.2 (hframes ▸ Option.some_ne_none _))
  obtain ⟨rfl, rfl, rfl, hlimit⟩ := RecordList.scan?_cases hl
  refine ⟨l, ?_, TypeStream.inStep_of_starts_eq rfl hspans ?_⟩
  · rw [scan, h.range?_eq]
    dsimp only
    rw [hl]
    rfl
  · rw [← hlimit] at hframes
    have hstarts := congrArg Prod.fst (Option.some.inj (l.scanFrames_eq.symm.trans hframes))
    exact hstarts.trans (by rw [hlimit]; rfl)

end Ranges

/-- An overrun takes a stream that ends less than a record below the last word. -/
theorem not_overruns_of_length (h : parse kind stream = .ok u) (hlength : stream.length + 2 ^ 16 < 2 ^ 32) :
    ¬ u.Overruns bs := by
  rcases parse_cases h with ⟨hnone, -⟩ | ⟨-, start, stop, hranges⟩
  · rintro ⟨_, _, _, hrange, -⟩
    exact nomatch hnone.symm.trans hrange
  · rw [hranges.overruns_iff]
    rintro ⟨-, hover⟩
    have hle := hranges.stop_le
    rcases hover with hword | ⟨hfront, len, hlen, -, hword⟩
    · omega
    · have hlt := lt_of_frameLength hlen
      omega

/-- In any stream whose header is accepted and whose records can be read, the scan finds the records
of a walk over the bytes by their indexes, up to the number in the header, and they are back to back.
It overflows in one case only: at most `2 ^ 16` bytes below the last word the walk ends early. -/
theorem scan_iff (h : parse kind stream = .ok u) (hbs : u.recordBytes = .ok bs) :
    (u.Overruns bs → u.scan = .error .overflow)
    ∧ (¬ u.Overruns bs → ∃ s, u.scan = .ok s ∧ u.Lists s ∧ s.InStep bs)
    ∧ (stream.length + 2 ^ 16 < 2 ^ 32 → ¬ u.Overruns bs) := by
  refine ⟨fun hover => ?_, fun hover => ?_, not_overruns_of_length h⟩
  · obtain ⟨_, _, _, hrange, -⟩ := id hover
    rcases parse_cases h with ⟨hnone, -⟩ | ⟨-, start, stop, hranges⟩
    · exact nomatch hnone.symm.trans hrange
    · exact hranges.scan_of_overruns hbs hover
  · rcases parse_cases h with ⟨hnone, hlast⟩ | ⟨-, start, stop, hranges⟩
    · have hscan : u.scan = .ok (u.withList none) := by
        rw [scan, hnone]
        rfl
      exact ⟨_, hscan, lists_of_scan hscan, TypeStream.inStep_of_empty rfl hlast⟩
    · obtain ⟨l, hscan, hstep⟩ := hranges.exists_scan hbs hover
      exact ⟨_, hscan, lists_of_scan hscan, hstep⟩

/-- Two records and the front of a third one, on two pages in reverse order. The header counts all
three. -/
def scattered : PagedStream :=
  let header : TypeStreamHeader := ⟨TypeStreamHeader.currentVersion, 56, ⟨0x1000⟩, ⟨0x1003⟩, 20⟩
  let bs := header.encode ++ List.replicate 36 0
    ++ [10, 0, 1, 0x12, 1, 0, 0, 0, 0x74, 0, 0, 0, 2, 0, 6, 0x12, 6, 0, 1, 0x10]
  ⟨⟨bs.drop 64 ++ List.replicate 52 0 ++ bs.take 64⟩, ⟨6⟩, [1, 0], 76, by decide⟩

theorem scan_iff_scattered : ∃ u bs, parse .types scattered = .ok u ∧ u.recordBytes = .ok bs
    ∧ walk bs = ([⟨0x1201, [1, 0, 0, 0, 0x74, 0, 0, 0]⟩, ⟨0x1206, []⟩], [6, 0, 1, 0x10])
    ∧ u.count = 3 ∧ ¬ u.Overruns bs ∧ ∃ s, u.scan = .ok s ∧ u.Lists s ∧ s.InStep bs := by
  have hparse : (parse .types scattered).toOption.map (fun u => (u.recordBytes.toOption, u.count))
      = some (some [10, 0, 1, 0x12, 1, 0, 0, 0, 0x74, 0, 0, 0, 2, 0, 6, 0x12, 6, 0, 1, 0x10], 3) := by
    decide +kernel
  obtain ⟨u, hu, hread⟩ := Option.map_eq_some_iff.1 hparse
  obtain ⟨hbs, hcount⟩ := Prod.mk.inj hread
  obtain ⟨-, hscan, hshort⟩ := scan_iff (ok_of_toOption hu) (ok_of_toOption hbs)
  have hover := hshort (by decide)
  exact ⟨u, _, ok_of_toOption hu, ok_of_toOption hbs, by decide +kernel, hcount, hover, hscan hover⟩

/-- The front of `overrunning`: a header by which the records start and end four bytes below the last
word. -/
def overrunningHeader : Bytes :=
  (TypeStreamHeader.mk 0x10010036 0xfffffffc ⟨0x1000⟩ ⟨0x1002⟩ 0).encode ++ List.replicate 36 0

/-- A stream that ends one byte below the last word. All of its pages are the same one. -/
def overrunning : PagedStream where
  image := ⟨overrunningHeader ++ (List.replicate 65476 0 ++ [2, 0, 0, 0])⟩
  pageSize := .largest
  pages := List.replicate 65536 0
  length := 0xfffffffe
  pages_length := List.length_replicate

theorem byte?_overrunning {pos : Nat} (h : pos < 65536) : overrunning.byte? pos
    = (overrunningHeader ++ (List.replicate 65476 0 ++ [2, 0, 0, 0]))[pos]? := by
  have hpage : overrunning.pages[pos / overrunning.pageSize.bytes]? = some 0 :=
    List.getElem?_replicate_of_lt (show pos / 65536 < 65536 by omega)
  have hstart : overrunning.pageSize.pageStart 0 = 0 := Nat.zero_mul _
  have hoffset : overrunning.pageSize.offsetInPage pos = pos := Nat.mod_eq_of_lt h
  rw [byte?, hpage, Option.bind_some, hstart, Nat.zero_add, hoffset, ← Array.getElem?_toList]
  rfl

theorem read_header_overrunning :
    overrunning.read 0 TypeStreamHeader.length = .ok overrunningHeader := by
  have hlength : overrunningHeader.length = TypeStreamHeader.length := rfl
  rw [read_eq_copy]
  refine copy_eq_of_byte? (by decide) (by decide) hlength fun i hi => ?_
  have hlt : i < 65536 := hi.trans (by decide)
  rw [Nat.zero_add, byte?_overrunning hlt, List.getElem?_append_left (hlength.symm ▸ hi)]

/-- What the header of `overrunning` tells. -/
def overrunningTypes : UnscannedTypes :=
  ⟨.types, ⟨0x1000⟩, ⟨0x1002⟩, some (overrunning, 0xfffffffc, 0xfffffffc), rfl⟩

theorem parse_overrunning : parse .types overrunning = .ok overrunningTypes :=
  parse_eq (by decide) read_header_overrunning (TypeStreamHeader.reads_decode _ _) (by decide) rfl
    (by decide) (by decide) (by decide)

/-- There are no records, and a header that counts two. None of the two is found to be out of bounds:
the offset behind the frame of the first one is no word. -/
theorem scan_overrunning : parse .types overrunning = .ok overrunningTypes
    ∧ overrunningTypes.recordBytes = .ok [] ∧ (walk []).1 = [] ∧ overrunningTypes.count = 2
    ∧ overrunningTypes.scan = .error .overflow
    ∧ ¬ ∃ s, overrunningTypes.scan = .ok s ∧ s.InStep [] := by
  have hbytes : overrunning.read 0xfffffffc 0 = .ok [] := by
    rw [read_eq_copy]
    exact copy_eq_of_byte? (by decide) (by decide) rfl fun i hi => absurd hi (Nat.not_lt_zero i)
  have hwalk : walk [] = ([], []) :=
    Prod.ext (walk_of_decode_eq_none rfl) (walk_rest_of_decode_eq_none rfl)
  have hranges : overrunningTypes.Ranges overrunning 0xfffffffc 0xfffffffc :=
    ⟨rfl, Nat.le_refl _, by decide, by decide⟩
  have hover : overrunningTypes.Overruns [] := by
    rw [hranges.overruns_iff, hwalk]
    exact ⟨by decide, .inl (by decide)⟩
  have hfault := hranges.scan_of_overruns hbytes hover
  refine ⟨parse_overrunning, hbytes, congrArg Prod.fst hwalk, rfl, hfault, ?_⟩
  rintro ⟨s, hs, -⟩
  exact nomatch hfault.symm.trans hs

end UnscannedTypes

namespace TypeStream
open UnscannedTypes
variable {s : TypeStream} {kind : TypeStreamKind} {stream : PagedStream}

theorem exists_of_parse (h : parse kind stream = .ok s) :
    ∃ u, UnscannedTypes.parse kind stream = .ok u ∧ u.scan = .ok s :=
  exists_of_bind_eq_ok h

theorem first_add_size_le (h : parse kind stream = .ok s) :
    s.first.toNat + s.size ≤ s.last.toNat := by
  obtain ⟨u, hparse, hscan⟩ := exists_of_parse h
  obtain ⟨hs, hrange, hlimit⟩ := lists_of_scan hscan
  have hfirst : s.first = u.first := by rw [hs, withList]
  have hlast : s.last = u.last := by rw [hs, withList]
  rw [hfirst, hlast]
  rcases parse_cases hparse with ⟨hnone, hempty⟩ | ⟨hle, start, stop, hranges⟩
  · have hlist : s.list? = none := Option.map_eq_none_iff.1 (hrange.trans hnone)
    rw [size, hlist, hempty]
    exact Nat.le_refl _
  · obtain ⟨l, hl, -⟩ := Option.map_eq_some_iff.1 (hrange.trans hranges.range?_eq)
    have hcount : l.starts.toList.length ≤ l.limit :=
      PagedStream.length_scanFrames_le l.scanFrames_eq
    rw [hlimit hl, Array.length_toList, UnscannedTypes.count] at hcount
    have hsize : s.size = l.starts.size := by
      rw [size, hl]
      rfl
    omega

end TypeStream
end Pdb
