import Pdb.Globals
import Pdb.Proofs.RecordWalk
import Pdb.Writer.Symbols
import Pdb.Writer.Types

/-! # Records in written streams

`PagedStream.Holds` is all that is known of a stream that has been written: its pages lie in the
image, and cut together they are the bytes. Then a record that stands somewhere in the bytes is read
at its offset (`recordAt_eq`), the scan of a type stream finds the records that have been written one
behind another, and each index that a `TypeList` has given leads to its record (`exists_scan`).
-/

namespace Pdb
open Decoder

theorem RawRecord.leNat_frame {r : RawRecord} (h : r.FitsFrame) :
    Bytes.leNat (Bytes.ofU16 (UInt16.ofNat (r.data.length + 2))) = r.data.length + 2 := by
  have hlength : (UInt16.ofNat (r.data.length + 2)).toNat = r.data.length + 2 :=
    UInt16.toNat_ofNat_of_lt' h
  rw [Bytes.ofU16, Bytes.leNat_leBytes, hlength]
  exact Nat.mod_eq_of_lt h

namespace PagedStream

/-- A stream on pages of the image, which hold the bytes. -/
structure Holds (s : PagedStream) (bs : Bytes) : Prop where
  inImage : s.InImage
  length_lt : s.length < PageSize.nilLength
  contents_eq : s.contents = bs

namespace Holds
variable {s : PagedStream} {bs pre mid post : Bytes}

theorem length_eq (h : s.Holds bs) : s.length = bs.length := by
  rw [← h.contents_eq, length_contents h.inImage (Nat.ne_of_lt h.length_lt)]

theorem copy_eq (h : s.Holds bs) {offset size : Nat} (hle : offset + size ≤ bs.length) :
    s.copy offset size = .ok ((bs.drop offset).take size) := by
  rw [PagedStream.copy_eq h.inImage h.length_lt (h.length_eq ▸ hle), h.contents_eq]

theorem read_eq (h : s.Holds bs) {offset size : Nat} (hle : offset + size ≤ bs.length) :
    s.read offset size = .ok ((bs.drop offset).take size) := by
  rw [read_eq_ok h.inImage h.length_lt (h.length_eq ▸ hle), h.contents_eq]

/-- The bytes between two parts. -/
theorem take_drop_mid : ((pre ++ mid ++ post).drop pre.length).take mid.length = mid := by
  rw [List.append_assoc, List.drop_left, List.take_left]

theorem copy_mid (h : s.Holds (pre ++ mid ++ post)) : s.copy pre.length mid.length = .ok mid := by
  rw [h.copy_eq (by simp), take_drop_mid]

theorem read_mid (h : s.Holds (pre ++ mid ++ post)) : s.read pre.length mid.length = .ok mid := by
  rw [h.read_eq (by simp), take_drop_mid]

theorem read_front (h : s.Holds (mid ++ post)) : s.read 0 mid.length = .ok mid := by
  have hmid : s.Holds ([] ++ mid ++ post) := h
  exact hmid.read_mid

end Holds

/-! ### One record -/

section
variable {s : PagedStream} {pre post : Bytes} {r : RawRecord} (h : s.Holds (pre ++ r.encode ++ post))
  (hr : r.FitsFrame)
include h

theorem copy_frame : s.copy pre.length 2 = .ok (Bytes.ofU16 (UInt16.ofNat (r.data.length + 2))) := by
  have hsplit : pre ++ r.encode ++ post = pre ++ Bytes.ofU16 (UInt16.ofNat (r.data.length + 2))
      ++ (Bytes.ofU16 r.kind ++ r.data ++ post) := by
    simp only [RawRecord.encode, List.append_assoc]
  rw [hsplit] at h
  have hcopy := h.copy_mid
  rwa [Bytes.ofU16, Bytes.length_leBytes] at hcopy

theorem read_record : s.read pre.length (r.data.length + 2 + 2) = .ok r.encode := by
  have hread := h.read_mid
  rwa [RawRecord.length_encode] at hread

include hr

/-- A global symbol. -/
theorem recordAt_eq : (Globals.mk (some s)).recordAt pre.length = .ok r := by
  simp only [Globals.recordAt, copy_frame h, RawRecord.leNat_frame hr, Except.mapError, bind, Except.bind,
    read_record h, RawRecord.first?_encode hr]
  rfl

end

end PagedStream

/-! ### Type streams -/

theorem TypeIndex.isSimple_minBegin : minBegin.isSimple = false := rfl

namespace TypeList
variable {t : TypeList} {s : PagedStream}

def header (t : TypeList) : TypeStreamHeader where
  version := TypeStreamHeader.currentVersion
  headerBytes := UInt32.ofNat TypeStreamHeader.length
  first := .minBegin
  last := t.next
  recordBytes := UInt32.ofNat t.recordBytes.length

theorem encode_eq (t : TypeList) : t.encode = t.header.encode ++ hashHeader ++ t.recordBytes := rfl

theorem length_header (t : TypeList) :
    (t.header.encode ++ hashHeader).length = TypeStreamHeader.length := by
  simp only [TypeStreamHeader.encode, TypeIndex.encode, Bytes.ofU32, List.length_append,
    Bytes.length_leBytes]
  rfl

theorem length_records_le (t : TypeList) : 4 * t.records.length ≤ t.recordBytes.length := by
  rw [recordBytes]
  induction t.records with
  | nil => exact Nat.zero_le _
  | cons r rs ih =>
    have hlength := r.length_encode
    rw [List.flatMap_cons, List.length_append, List.length_cons]
    omega

/-- Each record is found in a type stream by the index that it has been given. -/
def FoundIn (t : TypeList) (types : TypeStream) : Prop :=
  ∀ i r, t.records[i]? = some r → types.record (.ofNat (TypeIndex.minBegin.toNat + i)) = .ok r

/-- What the header of the stream `s` tells. -/
def unscanned (t : TypeList) (kind : TypeStreamKind) (s : PagedStream) : UnscannedTypes where
  kind := kind
  first := .minBegin
  last := t.next
  range? := some (s, TypeStreamHeader.length, TypeStreamHeader.length + t.recordBytes.length)
  first_isSimple := TypeIndex.isSimple_minBegin

section
variable (hs : s.Holds t.encode)
include hs

theorem length_records_lt : TypeIndex.minBegin.toNat + t.records.length < 2 ^ 32 := by
  have hlt := hs.length_lt
  have hcount := t.length_records_le
  have hminBegin : TypeIndex.minBegin.toNat = 4096 := rfl
  rw [hs.length_eq, encode_eq, List.length_append, PageSize.nilLength] at hlt
  omega

theorem toNat_next : t.next.toNat = TypeIndex.minBegin.toNat + t.records.length :=
  UInt32.toNat_ofNat_of_lt' (length_records_lt hs)

theorem parse_unscanned (kind : TypeStreamKind) :
    UnscannedTypes.parse kind s = .ok (t.unscanned kind s) := by
  have hlength : s.length = TypeStreamHeader.length + t.recordBytes.length := by
    rw [hs.length_eq, encode_eq, List.length_append, length_header]
  have hlt := hs.length_lt
  rw [PageSize.nilLength] at hlt
  have hread : s.read 0 TypeStreamHeader.length = .ok (t.header.encode ++ hashHeader) := by
    rw [encode_eq] at hs
    have hfront := hs.read_front
    rwa [length_header] at hfront
  have hdecode : TypeStreamHeader.decode (t.header.encode ++ hashHeader) = some (t.header, hashHeader) :=
    t.header.reads_decode hashHeader
  have hrange : t.header.first.toNat ≤ t.header.last.toNat :=
    (Nat.le_add_right ..).trans_eq (toNat_next hs).symm
  have hbytes : t.header.recordBytes.toNat = t.recordBytes.length := by
    have hword : t.recordBytes.length < 2 ^ 32 := by omega
    exact UInt32.toNat_ofNat_of_lt' hword
  have hstart : t.header.headerBytes.toNat = TypeStreamHeader.length := rfl
  have hpos : 0 < TypeStreamHeader.length := by decide
  rw [UnscannedTypes.parse_eq (by omega) hread hdecode hrange TypeIndex.isSimple_minBegin
    (Nat.le_of_eq hstart.symm) (by omega) (by omega), hbytes]
  rfl

theorem recordBytes_unscanned (kind : TypeStreamKind) :
    (t.unscanned kind s).recordBytes = .ok t.recordBytes := by
  have hmid : s.Holds (t.header.encode ++ hashHeader ++ t.recordBytes ++ []) := by
    rwa [List.append_nil]
  have hread := hmid.read_mid
  rw [length_header] at hread
  rw [UnscannedTypes.recordBytes, unscanned]
  dsimp only
  rw [Nat.add_sub_cancel_left, hread]

/-- The scan finds the records. -/
theorem exists_scan (hrs : ∀ r ∈ t.records, r.FitsFrame) (kind : TypeStreamKind) :
    ∃ types, (t.unscanned kind s).scan = .ok types ∧ t.FoundIn types := by
  have hwalk : RawRecord.walk t.recordBytes = (t.records, []) := RawRecord.walk_flatMap hrs
  have hcount : (t.unscanned kind s).count = t.records.length := by
    show t.next.toNat - TypeIndex.minBegin.toNat = _
    rw [toNat_next hs, Nat.add_sub_cancel_left]
  have hover : ¬ (t.unscanned kind s).Overruns t.recordBytes := by
    rintro ⟨_, _, _, -, hlt, -⟩
    rw [hwalk, hcount] at hlt
    exact Nat.lt_irrefl _ hlt
  obtain ⟨-, hscan, -⟩ := UnscannedTypes.scan_iff (parse_unscanned hs kind) (recordBytes_unscanned hs kind)
  obtain ⟨types, htypes, hlists, hstep⟩ := hscan hover
  refine ⟨types, htypes, fun i r hr => ok_of_toOption ?_⟩
  obtain ⟨hi, -⟩ := List.getElem?_eq_some_iff.1 hr
  have hindex : (TypeIndex.ofNat (TypeIndex.minBegin.toNat + i)).toNat = TypeIndex.minBegin.toNat + i :=
    TypeIndex.toNat_ofNat ((Nat.add_lt_add_left hi _).trans (length_records_lt hs))
  have hfirst : types.first = .minBegin := congrArg TypeStream.first hlists.eq_withList
  have hnumber : types.count = t.records.length :=
    (congrArg TypeStream.count hlists.eq_withList).trans hcount
  rw [hstep.record_eq _ (by rw [hfirst, hindex]; exact Nat.le_add_right ..), hwalk, hnumber,
    List.take_length, hfirst, hindex, Nat.add_sub_cancel_left, hr]

end

end TypeList
end Pdb
