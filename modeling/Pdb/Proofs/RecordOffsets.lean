import Pdb.ModuleStream
import Pdb.Proofs.Codec
import Pdb.Proofs.PagedStream

/-! # Records at their offsets

A record takes exactly its own length off the front of the bytes (`drop_size`), so each record is
found at the offset that it is listed with: `first?_of_mem_withOffsets`. A symbol of a module is read
again by its offset (`recordAt_of_mem`), since what a stream hands out ends below `2 ^ 32`.
-/

namespace Pdb
open Decoder

namespace RawRecord
variable {bs rest : Bytes} {r : RawRecord}

theorem length_of_u16 {n : UInt16} (h : u16 bs = some (n, rest)) : bs.length = 2 + rest.length := by
  obtain ⟨⟨m, after⟩, hword, hn⟩ := Option.bind_eq_some_iff.1 h
  cases hn
  obtain ⟨⟨p, q⟩, htake, hq⟩ := Option.map_eq_some_iff.1 hword
  cases hq
  obtain ⟨rfl, hp⟩ := take_eq_some htake
  rw [List.length_append, hp]

theorem length_of_body {len : Nat} (h : body len bs = some (r, rest)) :
    r.data.length + 2 = len ∧ bs.length = len + rest.length := by
  rw [body] at h
  split_ifs at h with hlen
  · cases h
  obtain ⟨⟨kind, after⟩, hkind, h⟩ := Option.bind_eq_some_iff.1 h
  obtain ⟨⟨data, last⟩, hdata, hr⟩ := Option.bind_eq_some_iff.1 h
  cases hr
  obtain ⟨rfl, hp⟩ := take_eq_some hdata
  have hafter := length_of_u16 hkind
  rw [List.length_append] at hafter
  dsimp only
  omega

theorem length_of_decode (h : decode bs = some (r, rest)) : bs.length = r.size + rest.length := by
  obtain ⟨⟨len, after⟩, hlen, hbody⟩ := Option.bind_eq_some_iff.1 h
  have hfront := length_of_u16 hlen
  obtain ⟨hsize, hafter⟩ := length_of_body hbody
  rw [size]
  omega

theorem drop_size (h : decode bs = some (r, rest)) : bs.drop r.size = rest := by
  have hlength := length_of_decode h
  obtain ⟨p, rfl, -⟩ := rawRecordLocal.split h
  rw [List.length_append] at hlength
  rw [List.drop_left' (by omega)]

theorem walk_of_decode (h : decode bs = some (r, rest)) : (walk bs).1 = r :: (walk rest).1 := by
  rw [walk, many_eq, h]
  rfl

theorem walk_of_decode_eq_none (h : decode bs = none) : (walk bs).1 = [] := by
  rw [walk, many_eq, h]

/-- Along a walk, from the bytes that it stops at. -/
@[elab_as_elim]
theorem walk_induct {motive : Bytes → Prop} (stop : ∀ bs, decode bs = none → motive bs)
    (record : ∀ bs r rest, decode bs = some (r, rest) → motive rest → motive bs) (bs : Bytes) :
    motive bs := many_induct decode_progress stop record bs

/-- The next offset is a word, too. -/
theorem toNat_add_size {base : UInt32} (hword : base.toNat + bs.length < 2 ^ 32)
    (h : decode bs = some (r, rest)) : (base + UInt32.ofNat r.size).toNat = base.toNat + r.size := by
  have hlength := length_of_decode h
  rw [UInt32.toNat_add, UInt32.toNat_ofNat_of_lt' (by rw [UInt32.size]; omega)]
  exact Nat.mod_eq_of_lt (by omega)

/-- A record that is listed with an offset stands there. Offsets do not wrap if the last one is a
word. -/
theorem first?_of_mem_withOffsets {base offset : UInt32} (hword : base.toNat + bs.length < 2 ^ 32)
    (h : (offset, r) ∈ withOffsets base (walk bs).1) :
    ∃ k, offset.toNat = base.toNat + k ∧ k ≤ bs.length ∧ first? (bs.drop k) = some r := by
  induction bs using walk_induct generalizing base with
  | stop bs hnone =>
    rw [walk_of_decode_eq_none hnone] at h
    exact nomatch h
  | record bs q rest hdecode ih =>
    rw [walk_of_decode hdecode, withOffsets] at h
    have hlength := length_of_decode hdecode
    have hsize : 0 < q.size := Nat.succ_pos _
    rcases List.mem_cons.1 h with heq | htail
    · cases heq
      refine ⟨0, rfl, Nat.zero_le _, ?_⟩
      rw [List.drop_zero, first?, hdecode, Option.map_some]
    · have hnext := toNat_add_size hword hdecode
      obtain ⟨k, hoffset, hk, hfirst⟩ := ih (by omega) htail
      refine ⟨q.size + k, by omega, by omega, ?_⟩
      rw [← List.drop_drop, drop_size hdecode, hfirst]

end RawRecord

namespace ModuleStream
variable {m : ModuleStream} {bs : Bytes} {r : RawRecord}

/-- The symbols stand behind the signature, and end below `2 ^ 32`. -/
theorem length_symbolData (h : m.symbolData = .ok bs) : 4 + bs.length < 2 ^ 32 := by
  rw [symbolData] at h
  split_ifs at h with hshort
  · rw [← Except.ok.inj h]
    decide
  · obtain ⟨hlength, hend⟩ := PagedStream.length_read (ok_of_mapError h)
    rwa [hlength]

/-- A symbol that is listed with an offset is the one that is read there. -/
theorem recordAt_of_mem {rs : List (UInt32 × RawRecord)} (h : m.records = .ok rs) {offset : UInt32}
    (hmem : (offset, r) ∈ rs) : m.recordAt offset.toNat = .ok r := by
  obtain ⟨bs, hdata, h⟩ := exists_of_bind_eq_ok h
  cases h
  have hbase : (4 : UInt32).toNat = 4 := rfl
  obtain ⟨k, hoffset, hk, hfirst⟩ := RawRecord.first?_of_mem_withOffsets
    (hbase.symm ▸ length_symbolData hdata) hmem
  rw [hbase] at hoffset
  have hdrop : offset.toNat - signatureLength = k := Nat.sub_eq_of_eq_add' hoffset
  have hrange : ¬ (offset.toNat < signatureLength ∨ bs.length < k) := by
    rw [signatureLength]
    omega
  rw [recordAt, hdata]
  simp only [hrange, hdrop, hfirst, if_false, bind, Except.bind, pure, Except.pure]

end ModuleStream
end Pdb
