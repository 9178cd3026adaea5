import Pdb.Proofs.NumericLeaf
import Pdb.Proofs.RecordWalk

/-! # Records taken off one by one

An iteration over the records of a buffer takes the record at the front off with each call, and a call
that finds none there changes nothing, so that it will not find one later either. What the calls have
taken, written again, and the bytes that are left are always the buffer (`taken_append_rest`). A
`RecordCursor` tells the offset of a record from how many bytes have been taken. That is the offset which
`RawRecord.withOffsets` adds up from lengths (`answer_of_ok`), unless it is no word, and then the call
panics. Main statement: `walk_partitions`.
-/

namespace Pdb
open Decoder

namespace RawRecord
variable {bs rest : Bytes} {r : RawRecord}

/-- At the front are a length of at least two and as many bytes behind it. -/
def AtFront (bs : Bytes) : Prop := ∃ low high body rest, bs = low :: high :: (body ++ rest)
  ∧ body.length = low.toNat + 256 * high.toNat ∧ 2 ≤ body.length

theorem frame_cons_cons (low high : UInt8) (bs : Bytes) :
    frame (low :: high :: bs) = low.toNat + 256 * high.toNat := by
  simp [frame, Bytes.leNat]

theorem decode_isSome_iff_atFront (bs : Bytes) : (decode bs).isSome ↔ AtFront bs := by
  rw [decode_isSome_iff]
  match bs with
  | [] => simp [AtFront]
  | [_] => simp [AtFront]; omega
  | low :: high :: bs =>
    rw [frame_cons_cons]
    constructor
    · rintro ⟨hle, hend⟩
      simp only [List.length_cons] at hend
      have hbody : (bs.take (low.toNat + 256 * high.toNat)).length = low.toNat + 256 * high.toNat := by
        rw [List.length_take]
        omega
      exact ⟨low, high, _, _, by rw [List.take_append_drop], hbody, by omega⟩
    · rintro ⟨_, _, body, rest, heq, hlength, hle⟩
      cases heq
      simp only [List.length_cons, List.length_append]
      omega

/-- A record that is written again is what has been taken off. -/
theorem eq_encode_append (h : decode bs = some (r, rest)) : bs = r.encode ++ rest := by
  obtain ⟨⟨len, after⟩, hlen, hbody⟩ := Option.bind_eq_some_iff.1 h
  obtain ⟨hsize, -⟩ := length_of_body hbody
  dsimp only at hbody
  rw [body] at hbody
  split_ifs at hbody
  · cases hbody
  obtain ⟨⟨kind, after'⟩, hkind, hrest⟩ := Option.bind_eq_some_iff.1 hbody
  obtain ⟨⟨data, last⟩, hdata, hr⟩ := Option.bind_eq_some_iff.1 hrest
  cases hr
  obtain ⟨rfl, -⟩ := take_eq_some hdata
  dsimp only at hsize
  rw [Numeric.eq_of_u16 hlen, Numeric.eq_of_u16 hkind, encode, hsize, UInt16.ofNat_toNat]
  simp only [List.append_assoc]

/-- The records of a walk, written again, and the bytes it stops at are the buffer. -/
theorem walk_append_rest (bs : Bytes) : (walk bs).1.flatMap encode ++ (walk bs).2 = bs := by
  induction bs using walk_induct with
  | stop bs hnone => rw [walk_of_decode_eq_none hnone, walk_rest_of_decode_eq_none hnone]; rfl
  | record bs r rest hr ih =>
    rw [walk_of_decode hr, walk_rest_of_decode hr, List.flatMap_cons, List.append_assoc, ih,
      ← eq_encode_append hr]

theorem map_snd_withOffsets (base : UInt32) (rs : List RawRecord) :
    (withOffsets base rs).map (·.2) = rs := by
  induction rs generalizing base with
  | nil => rfl
  | cons r rs ih => rw [withOffsets, List.map_cons, ih]

/-! ### Calls -/

/-- The bytes that are left after `n` calls. -/
def after (bs : Bytes) : Nat → Bytes
  | 0 => bs
  | n + 1 => after (next bs).2 n

theorem next_of_decode (h : decode bs = some (r, rest)) : next bs = (some r, rest) := by
  rw [next, h]

theorem next_of_decode_eq_none (h : decode bs = none) : next bs = (none, bs) := by
  rw [next, h]

theorem next_eq_none_iff : (next bs).1 = none ↔ decode bs = none := by
  unfold next
  split <;> simp_all

theorem after_of_next_eq_none (h : (next bs).1 = none) (n : Nat) : after bs n = bs := by
  have hnext := next_of_decode_eq_none (next_eq_none_iff.1 h)
  induction n with
  | zero => rfl
  | succ n ih => rw [after, hnext, ih]

theorem stops_iff : (next bs).1 = none ↔ bs = [] ∨ ¬ AtFront bs := by
  rw [next_eq_none_iff, ← decode_isSome_iff_atFront, Bool.not_eq_true, Option.isSome_eq_false_iff,
    Option.isNone_iff_eq_none]
  constructor
  · exact .inr
  · rintro (hempty | hnone)
    · rw [hempty]; rfl
    · exact hnone

/-- At every moment the records that have been taken and the bytes that are left are the buffer. -/
theorem taken_append_rest (bs : Bytes) (n : Nat) :
    ((walk bs).1.take n).flatMap encode ++ after bs n = bs := by
  induction n generalizing bs with
  | zero => simp [after]
  | succ n ih =>
    cases h : decode bs with
    | none =>
      rw [after_of_next_eq_none (next_eq_none_iff.2 h), walk_of_decode_eq_none h]
      simp
    | some front =>
      obtain ⟨r, rest⟩ := front
      rw [walk_of_decode h, after, next_of_decode h, List.take_succ_cons, List.flatMap_cons,
        List.append_assoc, ih, ← eq_encode_append h]

theorem answer_eq (bs : Bytes) (n : Nat) : (next (after bs n)).1 = (walk bs).1[n]? := by
  induction n generalizing bs with
  | zero =>
    cases h : decode bs with
    | none => rw [walk_of_decode_eq_none h, after, next_of_decode_eq_none h]; rfl
    | some front => rw [walk_of_decode h, after, next_of_decode h]; rfl
  | succ n ih =>
    cases h : decode bs with
    | none =>
      have hnone := next_eq_none_iff.2 h
      rw [walk_of_decode_eq_none h, after_of_next_eq_none hnone, hnone]
      rfl
    | some front =>
      rw [walk_of_decode h, after, next_of_decode h, ih]
      rfl

theorem rest_of_next_eq_none {n : Nat} (h : (next (after bs n)).1 = none) :
    after bs n = (walk bs).2 := by
  have htaken : (walk bs).1.take n = (walk bs).1 := by
    rw [answer_eq, List.getElem?_eq_none_iff] at h
    exact List.take_of_length_le h
  have hrest := taken_append_rest bs n
  rw [htaken] at hrest
  exact List.append_cancel_left (hrest.trans (walk_append_rest bs).symm)

end RawRecord

namespace RecordCursor
open RawRecord
variable {c : RecordCursor} {offset : UInt32} {e : Fault} {r : RawRecord} {rest : Bytes} {n : Nat}

/-! ### Calls with offsets -/

/-- The iteration after `n` calls. -/
def after (c : RecordCursor) : Nat → RecordCursor
  | 0 => c
  | n + 1 => c.next.2.after n

theorem next_of_error (h : c.offset = .error e) : c.next = (.error e, c) := by
  rw [next, h]

theorem next_of_ok (h : c.offset = .ok offset) : c.next
    = (.ok ((RawRecord.next c.rest).1.map (offset, ·)), { c with rest := (RawRecord.next c.rest).2 }) := by
  rw [next, h]

theorem after_of_error (h : c.offset = .error e) (n : Nat) : c.after n = c := by
  induction n with
  | zero => rfl
  | succ n ih => rw [after, next_of_error h, ih]

theorem offset_of_ok (h : c.offset = .ok offset) :
    offset = c.base + UInt32.ofNat (c.length - c.rest.length) := by
  rw [RecordCursor.offset] at h
  split_ifs at h
  exact (Except.ok.inj h).symm

/-- There is an offset as long as that of the end would be one. -/
theorem offset_of_lt (h : c.base.toNat + c.length < 2 ^ 32) :
    c.offset = .ok (c.base + UInt32.ofNat (c.length - c.rest.length)) := by
  have hmod : (c.length - c.rest.length) % 2 ^ 32 ≤ c.length - c.rest.length := Nat.mod_le _ _
  exact if_pos (by omega)

theorem add_size (hle : c.rest.length ≤ c.length) (h : decode c.rest = some (r, rest)) :
    c.base + UInt32.ofNat (c.length - rest.length)
      = c.base + UInt32.ofNat (c.length - c.rest.length) + UInt32.ofNat r.size := by
  have hlength := length_of_decode h
  have htaken : c.length - rest.length = c.length - c.rest.length + r.size := by omega
  rw [htaken, UInt32.ofNat_add, UInt32.add_assoc]

/-- Where a call does not panic, it answers a record of the walk with the sum of the lengths in front of
it. By induction on the calls before, none of which has panicked: a panic would come again. -/
theorem answer_of_ok {answer : Option (UInt32 × RawRecord)} (hle : c.rest.length ≤ c.length)
    (h : (c.after n).next.1 = .ok answer) : answer
      = (withOffsets (c.base + UInt32.ofNat (c.length - c.rest.length)) (walk c.rest).1)[n]? := by
  induction n generalizing c with
  | zero =>
    cases hoffset : c.offset with
    | error e =>
      rw [after, next_of_error hoffset] at h
      cases h
    | ok offset =>
      rw [after, next_of_ok hoffset] at h
      cases h
      rw [offset_of_ok hoffset]
      cases hdecode : decode c.rest with
      | none => rw [walk_of_decode_eq_none hdecode, next_of_decode_eq_none hdecode]; rfl
      | some front => rw [walk_of_decode hdecode, next_of_decode hdecode]; rfl
  | succ n ih =>
    cases hoffset : c.offset with
    | error e =>
      rw [after_of_error hoffset, next_of_error hoffset] at h
      cases h
    | ok offset =>
      rw [after, next_of_ok hoffset] at h
      cases hdecode : decode c.rest with
      | none =>
        rw [next_of_decode_eq_none hdecode] at h
        rw [ih hle h, walk_of_decode_eq_none hdecode]
        rfl
      | some front =>
        obtain ⟨r, rest⟩ := front
        have hlength := length_of_decode hdecode
        rw [next_of_decode hdecode] at h
        have hanswer := ih (by dsimp only; omega) h
        dsimp only at hanswer
        rw [hanswer, add_size hle hdecode, walk_of_decode hdecode]
        rfl

theorem exists_answer (h : c.base.toNat + c.length < 2 ^ 32) (n : Nat) :
    ∃ answer, (c.after n).next.1 = .ok answer := by
  induction n generalizing c with
  | zero => exact ⟨_, by rw [after, next_of_ok (offset_of_lt h)]⟩
  | succ n ih =>
    rw [after, next_of_ok (offset_of_lt h)]
    exact ih h

/-- A whole iteration answers the records of a walk with their offsets. -/
theorem all_eq (h : c.base.toNat + c.length < 2 ^ 32) (hle : c.rest.length ≤ c.length) : c.all
    = .ok (withOffsets (c.base + UInt32.ofNat (c.length - c.rest.length)) (walk c.rest).1) := by
  obtain ⟨base, length, rest⟩ := c
  dsimp only at h hle ⊢
  induction rest using walk_induct with
  | stop rest hnone =>
    rw [all, offset_of_lt h, walk_of_decode_eq_none hnone]
    dsimp only
    split
    · rfl
    · simp_all
  | record rest r left hdecode ih =>
    have hlength := length_of_decode hdecode
    have hsize := add_size (c := ⟨base, length, rest⟩) hle hdecode
    rw [all, offset_of_lt h, walk_of_decode hdecode, withOffsets]
    dsimp only at hsize ⊢
    split
    · simp_all
    · next _ _ h' =>
      cases hdecode.symm.trans h'
      rw [ih (by omega), hsize]
      rfl

theorem zero_taken (base : UInt32) (n : Nat) : base + UInt32.ofNat (n - n) = base := by
  rw [Nat.sub_self]
  exact UInt32.add_zero base

/-- The records of a buffer, written again, and what is left are the buffer, at the end as after any
number of calls. A call finds no record exactly where there is none at the front, and then all later
ones find none. A call with offsets that does not panic answers the same record. None panics as long as
offsets are words, and then each record stands at its offset. -/
theorem walk_partitions (base : UInt32) (bs : Bytes) :
    (walk bs).1.flatMap encode ++ (walk bs).2 = bs
    ∧ (∀ n, let left := RawRecord.after bs n
      ((walk bs).1.take n).flatMap encode ++ left = bs
      ∧ (RawRecord.next left).1 = (walk bs).1[n]?
      ∧ ((RawRecord.next left).1 = none ↔ left = [] ∨ ¬ AtFront left)
      ∧ ((RawRecord.next left).1 = none → left = (walk bs).2 ∧ ∀ k, RawRecord.after left k = left))
    ∧ (withOffsets base (walk bs).1).map (·.2) = (walk bs).1
    ∧ (∀ n answer, ((start base bs).after n).next.1 = .ok answer →
      answer = (withOffsets base (walk bs).1)[n]?)
    ∧ (base.toNat + bs.length < 2 ^ 32 → (start base bs).all = .ok (withOffsets base (walk bs).1)
      ∧ (∀ n, ((start base bs).after n).next.1 = .ok (withOffsets base (walk bs).1)[n]?)
      ∧ ∀ offset r, (offset, r) ∈ withOffsets base (walk bs).1 →
        base ≤ offset ∧ first? (bs.drop (offset.toNat - base.toNat)) = some r) := by
  have hanswer : ∀ n answer, ((start base bs).after n).next.1 = .ok answer →
      answer = (withOffsets base (walk bs).1)[n]? := by
    intro n answer h
    have hanswer : answer = (withOffsets (base + UInt32.ofNat (bs.length - bs.length)) (walk bs).1)[n]? :=
      answer_of_ok (Nat.le_refl _) h
    rwa [zero_taken] at hanswer
  refine ⟨walk_append_rest bs, fun n => ?_, map_snd_withOffsets base _, hanswer, fun hword => ?_⟩
  · exact ⟨taken_append_rest bs n, answer_eq bs n, stops_iff,
      fun hnone => ⟨rest_of_next_eq_none hnone, after_of_next_eq_none hnone⟩⟩
  · refine ⟨?_, fun n => ?_, fun offset r hmem => ?_⟩
    · have hall : _ = Except.ok (withOffsets (base + UInt32.ofNat (bs.length - bs.length)) (walk bs).1) :=
        all_eq (c := start base bs) hword (Nat.le_refl _)
      rwa [zero_taken] at hall
    · obtain ⟨answer, h⟩ := exists_answer (c := start base bs) hword n
      rw [h, hanswer n answer h]
    · obtain ⟨k, hoffset, -, hfirst⟩ := first?_of_mem_withOffsets hword hmem
      have hk : offset.toNat - base.toNat = k := by omega
      exact ⟨UInt32.le_iff_toNat_le.2 (by omega), hk ▸ hfirst⟩

/-- The symbols of a module, the last one with an impossible length. -/
def strayTail : Bytes :=
  [6, 0, 0x4c, 0x11, 0x34, 0x12, 0, 0, 2, 0, 0x06, 0, 1, 0, 0xaa, 0xaa]

theorem walk_partitions_strayTail : (walk strayTail).2 = [1, 0, 0xaa, 0xaa]
    ∧ (∀ k, RawRecord.after (RawRecord.after strayTail 2) k = RawRecord.after strayTail 2)
    ∧ ((start 4 strayTail).after 2).next.1 = .ok none
    ∧ first? (strayTail.drop (12 - 4)) = some ⟨0x0006, []⟩ := by
  obtain ⟨-, hcalls, -, -, hoffsets⟩ := walk_partitions 4 strayTail
  obtain ⟨-, hanswer, -, hnone⟩ := hcalls 2
  obtain ⟨hrest, hlater⟩ := hnone (by decide)
  obtain ⟨-, hplaced, hfirst⟩ := hoffsets (by decide)
  have hmem : (12, ⟨0x0006, []⟩) ∈ withOffsets 4 (walk strayTail).1 :=
    List.mem_of_getElem? ((Except.ok.inj (hplaced 1)).symm.trans (by decide))
  exact ⟨hrest.symm.trans (by decide), hlater, by decide, (hfirst _ _ hmem).2⟩

end RecordCursor
end Pdb
