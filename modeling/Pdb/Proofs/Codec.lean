import Pdb.Database

/-! # Reading what has been written in front of anything

`Reads d bs x` says that the decoder `d` takes the bytes `bs` off for the value `x`, whatever stands
behind them. It is built along a decoder: a sequence of decoders reads the bytes one behind another
(`Reads.bind`), and `many` reads a list of values to the end (`many_flatMap`). Each structure of a
database with a decoder and an encoder has its `reads_decode`.
-/

namespace Pdb

namespace Decoder
variable {α β : Type} {d : Decoder α} {f : α → Decoder β} {bs cs : Bytes} {x : α} {y : β}

def Reads (d : Decoder α) (bs : Bytes) (x : α) : Prop := ∀ r, d (bs ++ r) = some (x, r)

namespace Reads

theorem pure (x : α) : Reads (pure x) [] x := fun _ => rfl

theorem bind (h : Reads d bs x) (h' : Reads (f x) cs y) : Reads (d >>= f) (bs ++ cs) y := by
  intro r
  show (d (bs ++ cs ++ r)).bind (fun v => f v.1 v.2) = _
  rw [List.append_assoc, h, Option.bind_some]
  exact h' r

/-- The last part of a sequence. -/
theorem bind_last (h : Reads d bs x) (h' : Reads (f x) [] y) : Reads (d >>= f) bs y := by
  have hbind := h.bind h'
  rwa [List.append_nil] at hbind

theorem of_eq {z : α} (h : Reads d bs x) (hz : x = z) : Reads d bs z := hz ▸ h

theorem map (g : α → β) (h : Reads d bs x) : Reads (g <$> d) bs (g x) := by
  intro r
  show (d (bs ++ r)).bind (fun v => some (g v.1, v.2)) = _
  rw [h, Option.bind_some]

theorem end_ (h : Reads d bs x) : d bs = some (x, []) := by
  have hnil := h []
  rwa [List.append_nil] at hnil

end Reads

theorem reads_take (h : bs.length = n) : Reads (take n) bs bs := take_append h

theorem reads_skip (h : bs.length = n) : Reads (skip n) bs () := by
  intro r
  rw [skip, take_append h]
  rfl

theorem reads_word (w : Nat) {n : Nat} (h : n < 256 ^ w) : Reads (word w) (Bytes.leBytes w n) n := by
  intro r
  rw [word, take_append (Bytes.length_leBytes w n), Option.map_some, Bytes.leNat_leBytes,
    Nat.mod_eq_of_lt h]

theorem reads_u16 (n : UInt16) : Reads u16 (Bytes.ofU16 n) n := by
  have h := (reads_word 2 (n := n.toNat) n.toNat_lt).map UInt16.ofNat
  rwa [UInt16.ofNat_toNat] at h

theorem reads_u32 (n : UInt32) : Reads u32 (Bytes.ofU32 n) n := by
  have h := (reads_word 4 (n := n.toNat) n.toNat_lt).map UInt32.ofNat
  rwa [UInt32.ofNat_toNat] at h

/-- A word that has been written as a natural number. -/
theorem reads_leBytes {n : Nat} (h : n < 2 ^ 32) : Reads u32 (Bytes.leBytes 4 n) (UInt32.ofNat n) :=
  (reads_word 4 h).map UInt32.ofNat

theorem reads_i32 (n : Int32) : Reads i32 (Bytes.ofU32 n.toUInt32) n := by
  have h := (reads_u32 n.toUInt32).map UInt32.toInt32
  rwa [Int32.toInt32_toUInt32] at h

theorem reads_text (h : 0 ∉ bs) : Reads text (Bytes.ofText bs) bs := by
  intro r
  rw [Bytes.ofText, List.append_assoc]
  exact text_append h r

/-- Along the values that `many` reads, from the bytes that it stops at. -/
theorem many_induct {d : Decoder α} (hd : Progress d) {motive : Bytes → Prop}
    (stop : ∀ bs, d bs = none → motive bs)
    (value : ∀ bs x r, d bs = some (x, r) → motive r → motive bs) (bs : Bytes) : motive bs := by
  induction hn : bs.length using Nat.strongRecOn generalizing bs with
  | ind n ih =>
    subst hn
    cases h : d bs with
    | none => exact stop bs h
    | some front => exact value bs front.1 front.2 h (ih _ (hd _ _ _ h) _ rfl)

/-- What is read from longer bytes is what is read from the shorter ones, and then from what was left of
them and the bytes behind, if the decoder does not mind them. -/
theorem many_append {d : Decoder α} (hd : Progress d)
    (happend : ∀ bs x r, d bs = some (x, r) → ∀ suffix, d (bs ++ suffix) = some (x, r ++ suffix))
    (bs suffix : Bytes) : many d hd (bs ++ suffix)
      = ((many d hd bs).1 ++ (many d hd ((many d hd bs).2 ++ suffix)).1,
        (many d hd ((many d hd bs).2 ++ suffix)).2) := by
  induction bs using many_induct hd with
  | stop bs h =>
    rw [many_eq d hd bs, h]
    rfl
  | value bs x r h ih =>
    rw [many_eq d hd bs, h, many_eq d hd (bs ++ suffix), happend bs x r h]
    simp only [ih, List.cons_append]

/-- Values one behind another are read to the end. -/
theorem many_flatMap {d : Decoder α} (hd : Progress d) {encode : α → Bytes} (xs : List α)
    (h : ∀ x ∈ xs, Reads d (encode x) x) (hnil : d [] = none) :
    many d hd (xs.flatMap encode) = (xs, []) := by
  induction xs with
  | nil => rw [many_eq, List.flatMap_nil, hnil]
  | cons x xs ih =>
    rw [many_eq, List.flatMap_cons, h x List.mem_cons_self]
    simp only [ih fun y hy => h y (List.mem_cons_of_mem x hy)]

end Decoder

open Decoder

theorem StreamIndex.reads_decode (i : StreamIndex) : Reads decode i.encode i :=
  (reads_u16 i.val).map StreamIndex.mk

theorem StreamIndex.get?_ofOption {n : Nat} (h : n < 2 ^ 16 - 1) : (ofOption (some n)).get? = some n := by
  have hword : n < 2 ^ 16 := by omega
  have hval : (ofOption (some n)).val.toNat = n := UInt16.toNat_ofNat_of_lt' hword
  have hne : ofOption (some n) ≠ nil := by
    intro heq
    rw [heq] at hval
    exact Nat.ne_of_lt h hval.symm
  rw [get?, if_neg hne, hval]

theorem TypeIndex.reads_decode (ti : TypeIndex) : Reads decode ti.encode ti :=
  (reads_u32 ti.val).map TypeIndex.mk

theorem Guid.reads_decode (g : Guid) : Reads decode g.encode g := by
  have htail : g.tail.length = 8 := by
    rw [tail, List.length_reverse, Bytes.ofU64, Bytes.length_leBytes]
  have hdata : UInt64.ofNat (Bytes.leNat g.tail.reverse) = g.data4 := by
    rw [tail, List.reverse_reverse, Bytes.ofU64, Bytes.leNat_leBytes]
    exact (congrArg UInt64.ofNat (Nat.mod_eq_of_lt g.data4.toNat_lt)).trans UInt64.ofNat_toNat
  have hguid : { g with data4 := UInt64.ofNat (Bytes.leNat g.tail.reverse) } = g := by rw [hdata]
  simp only [encode, List.append_assoc]
  exact (reads_u32 g.data1).bind <| (reads_u16 g.data2).bind <| (reads_u16 g.data3).bind <|
    (reads_take htail).bind_last <| .of_eq (.pure _) hguid

theorem Contribution.reads_decode (c : Contribution) : Reads decode c.encode c := by
  simp only [encode, List.append_assoc]
  exact (reads_u16 c.section_).bind <| (reads_skip (by rfl)).bind <| (reads_i32 c.offset).bind <|
    (reads_i32 c.size).bind <| (reads_u32 c.characteristics).bind <| (reads_u16 c.module).bind <|
    (reads_skip (by rfl)).bind <| (reads_u32 c.dataCrc).bind <|
    (reads_u32 c.relocationCrc).bind_last <| .pure c

theorem Section.reads_decode {s : Section} (h : s.rawName.length = 8) : Reads decode s.encode s := by
  simp only [encode, List.append_assoc]
  exact (reads_take h).bind <| (reads_u32 s.virtualSize).bind <| (reads_u32 s.virtualAddress).bind <|
    (reads_u32 s.rawDataSize).bind <| (reads_u32 s.rawDataStart).bind <|
    (reads_u32 s.relocationsStart).bind <| (reads_u32 s.lineNumbersStart).bind <|
    (reads_u16 s.relocationCount).bind <| (reads_u16 s.lineNumberCount).bind <|
    (reads_u32 s.characteristics).bind_last <| .pure s

theorem TypeStreamHeader.reads_decode (h : TypeStreamHeader) : Reads decode h.encode h := by
  simp only [encode, List.append_assoc]
  exact (reads_u32 h.version).bind <| (reads_u32 h.headerBytes).bind <|
    h.first.reads_decode.bind <| h.last.reads_decode.bind <| (reads_u32 h.recordBytes).bind_last <|
    .pure h

theorem DebugInfoHeader.reads_decode (h : DebugInfoHeader) : Reads decode h.encode h := by
  -- An equation for a definition with so many parts takes too long to make.
  delta encode
  simp only [List.append_assoc]
  refine (reads_i32 h.signature).bind <| (reads_u32 h.version).bind <| (reads_u32 h.age).bind <|
    h.globalIndex.reads_decode.bind <| (reads_u16 h.buildNumber).bind <|
    h.publicIndex.reads_decode.bind ?_
  refine (reads_u16 h.toolVersion).bind <| h.globals.reads_decode.bind <|
    (reads_u16 h.toolBuild).bind <| (reads_i32 h.modulesLength).bind <|
    (reads_i32 h.contributionsLength).bind <| (reads_i32 h.sectionMapLength).bind ?_
  refine (reads_i32 h.sourcesLength).bind <| (reads_i32 h.typeServersLength).bind <|
    (reads_u32 h.typeServer).bind <| (reads_i32 h.optionalLength).bind <|
    (reads_i32 h.editLength).bind ?_
  exact (reads_u16 h.flags).bind <| (reads_u16 h.machine).bind <|
    (reads_skip (by rfl)).bind_last <| .pure h

namespace ModuleEntry

/-- The bytes of an entry without its padding. -/
def bodyBytes (m : ModuleEntry) : Bytes :=
  Bytes.zeros 4 ++ m.contribution.encode ++ Bytes.ofU16 m.flags ++ m.stream.encode
    ++ Bytes.ofU32 m.symbolBytes ++ Bytes.ofU32 m.oldLineBytes ++ Bytes.ofU32 m.lineBytes
    ++ Bytes.ofU16 m.fileCount ++ Bytes.zeros 14 ++ Bytes.ofText m.name
    ++ Bytes.ofText m.objectFile

theorem encode_eq (m : ModuleEntry) :
    m.encode = m.bodyBytes ++ Bytes.zeros (Bytes.padTo4 m.bodyBytes.length) := rfl

theorem reads_decodeBody {m : ModuleEntry} (hname : 0 ∉ m.name) (hobject : 0 ∉ m.objectFile) :
    Reads decodeBody m.bodyBytes m := by
  simp only [bodyBytes, List.append_assoc]
  exact (reads_skip (by rfl)).bind <| m.contribution.reads_decode.bind <| (reads_u16 m.flags).bind <|
    m.stream.reads_decode.bind <| (reads_u32 m.symbolBytes).bind <| (reads_u32 m.oldLineBytes).bind <|
    (reads_u32 m.lineBytes).bind <| (reads_u16 m.fileCount).bind <| (reads_skip (by rfl)).bind <|
    (reads_text hname).bind <| (reads_text hobject).bind_last <| .pure m

/-- The padding is found by the length of the entry in front of it. -/
theorem reads_decode {m : ModuleEntry} (hname : 0 ∉ m.name) (hobject : 0 ∉ m.objectFile) :
    Reads decode m.encode m := by
  intro r
  have hbody := reads_decodeBody hname hobject (Bytes.zeros (Bytes.padTo4 m.bodyBytes.length) ++ r)
  have hlength (n : Nat) : (m.bodyBytes ++ (Bytes.zeros n ++ r)).length - (Bytes.zeros n ++ r).length
      = m.bodyBytes.length := by
    rw [List.length_append, Nat.add_sub_cancel]
  have hpadding (n : Nat) : (Bytes.zeros n ++ r).drop n = r := List.drop_left' List.length_replicate
  rw [encode_eq, List.append_assoc, decode, hbody]
  simp only [Option.bind_eq_bind, Option.bind_some, Option.pure_def, hlength, hpadding]

end ModuleEntry

namespace RawRecord

/-- The length of the record is a 16-bit number. -/
def FitsFrame (r : RawRecord) : Prop := r.data.length + 2 < 2 ^ 16

instance : DecidablePred FitsFrame := fun _ => Nat.decLt _ _

theorem length_encode (r : RawRecord) : r.encode.length = r.data.length + 4 := by
  simp only [encode, Bytes.ofU16, List.length_append, Bytes.length_leBytes]
  omega

theorem reads_decode {r : RawRecord} (h : r.FitsFrame) : Reads decode r.encode r := by
  have hlength : (UInt16.ofNat (r.data.length + 2)).toNat = r.data.length + 2 :=
    UInt16.toNat_ofNat_of_lt' h
  have hbody : Reads (body (r.data.length + 2)) (Bytes.ofU16 r.kind ++ r.data) r := by
    rw [body, if_neg (by omega)]
    exact (reads_u16 r.kind).bind <| (reads_take (Nat.add_sub_cancel ..).symm).bind_last <| .pure r
  rw [encode, List.append_assoc]
  refine (reads_u16 _).bind ?_
  rw [hlength]
  exact hbody

theorem first?_encode {r : RawRecord} (h : r.FitsFrame) : first? r.encode = some r := by
  rw [first?, (reads_decode h).end_, Option.map_some]

end RawRecord
end Pdb
