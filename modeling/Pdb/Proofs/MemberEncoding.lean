import Pdb.Proofs.Codec
import Pdb.Proofs.VtableOffset

/-! # Member lists are read as they were written

Members and numbers have no length in front of them; only the leaf codes tell how far they go. What an
encoder has to keep to is `WellFormed`: the bytes of a number have the form of its leaf, names have no
NUL, and a function has a vtable offset if its attribute word says so. That is also all that the
decoder lets through (`Member.wellFormed_of_mem`). No member starts with a byte of padding, so that
padding can be passed over by its bytes alone, and a list with any padding behind each member is read
to its end (`Member.listWithRest_flatMap`).
-/

namespace Pdb
open Decoder

/-! ### Numbers -/

namespace Numeric

/-- Whether the bytes are of a form, with nothing behind. -/
def Form.Fits : Form → Bytes → Prop
  | .fixed n, bs => bs.length = n
  | .counted, bs => bs.length = 2 + Bytes.leNat (bs.take 2)
  | .terminated, bs => bs.getLast? = some 0 ∧ 0 ∉ bs.dropLast

instance : (form : Form) → DecidablePred form.Fits
  | .fixed _ => fun _ => inferInstanceAs (Decidable (_ = _))
  | .counted => fun _ => inferInstanceAs (Decidable (_ = _))
  | .terminated => fun _ => inferInstanceAs (Decidable (_ ∧ _))

/-- The leaf code is known, and the bytes behind it are of its form. -/
def WellFormed (n : Numeric) : Prop := ∃ form ∈ form? n.leaf, form.Fits n.payload

instance : DecidablePred WellFormed := fun n =>
  inferInstanceAs (Decidable (∃ form ∈ form? n.leaf, form.Fits n.payload))

/-- A counted form is a 16-bit length with as many bytes behind. -/
theorem Form.exists_counted {bs : Bytes} (h : counted.Fits bs) :
    ∃ (n : UInt16) (rest : Bytes), rest.length = n.toNat ∧ bs = Bytes.ofU16 n ++ rest := by
  have hlength : bs.length = 2 + Bytes.leNat (bs.take 2) := h
  have hhead : (bs.take 2).length = 2 := by
    rw [List.length_take]
    omega
  have hword : Bytes.leNat (bs.take 2) < 2 ^ 16 := by
    have hlt := Bytes.leNat_lt (bs.take 2)
    rwa [hhead] at hlt
  have hcount : (UInt16.ofNat (Bytes.leNat (bs.take 2))).toNat = Bytes.leNat (bs.take 2) :=
    UInt16.toNat_ofNat_of_lt' hword
  refine ⟨UInt16.ofNat (Bytes.leNat (bs.take 2)), bs.drop 2, ?_, ?_⟩
  · rw [hcount, List.length_drop, hlength, Nat.add_sub_cancel_left]
  · have hbytes := Bytes.leBytes_leNat (bs.take 2)
    rw [hhead] at hbytes
    rw [Bytes.ofU16, hcount, hbytes, List.take_append_drop]

theorem Form.fits_counted {n : UInt16} {bs : Bytes} (h : bs.length = n.toNat) :
    counted.Fits (Bytes.ofU16 n ++ bs) := by
  have hhead : (Bytes.ofU16 n ++ bs).take 2 = Bytes.ofU16 n :=
    List.take_left' (Bytes.length_leBytes 2 n.toNat)
  have hcount : Bytes.leNat (Bytes.ofU16 n) = n.toNat := by
    rw [Bytes.ofU16, Bytes.leNat_leBytes]
    exact Nat.mod_eq_of_lt n.toNat_lt
  show (Bytes.ofU16 n ++ bs).length = 2 + Bytes.leNat ((Bytes.ofU16 n ++ bs).take 2)
  rw [hhead, hcount, List.length_append, h, Bytes.ofU16, Bytes.length_leBytes]

theorem Form.reads_payload {form : Form} {bs : Bytes} (h : form.Fits bs) :
    Reads form.payload bs bs := by
  cases form with
  | fixed n => exact reads_take h
  | counted =>
    obtain ⟨n, rest, hrest, rfl⟩ := Form.exists_counted h
    exact (reads_u16 n).bind <| (reads_take hrest).bind_last <| .pure (Bytes.ofU16 n ++ rest)
  | terminated =>
    obtain ⟨hlast, hname⟩ := h
    obtain ⟨front, rfl⟩ := List.getLast?_eq_some_iff.1 hlast
    rw [List.dropLast_concat] at hname
    exact (reads_text hname).map Bytes.ofText

theorem reads_decode {n : Numeric} (h : n.WellFormed) : Reads decode n.encode n := by
  obtain ⟨form, hform, hfits⟩ := h
  refine ((reads_u16 n.leaf.code).map Leaf.mk).bind ?_
  rw [show form? ⟨n.leaf.code⟩ = some form from hform]
  exact (Form.reads_payload hfits).map (Numeric.mk n.leaf)

theorem Form.yields_payload (form : Form) : Yields form.payload form.Fits := by
  cases form with
  | fixed n => exact fun bs p r h => (take_eq_some h).2
  | counted =>
    refine .bind_any fun n => ?_
    have htake : Yields (take n.toNat) fun bs => bs.length = n.toNat :=
      fun bs p r h => (take_eq_some h).2
    exact htake.bind fun bs hbs => .pure (fits_counted hbs)
  | terminated =>
    have htext : Yields Decoder.text fun s => terminated.Fits (Bytes.ofText s) := by
      intro bs s r h
      refine ⟨List.getLast?_concat, ?_⟩
      rw [Bytes.ofText, List.dropLast_concat]
      exact (text_eq_some h).2
    exact htext.map

theorem yields_decode : Yields decode WellFormed := by
  refine .bind_any fun leaf => ?_
  split
  · exact .fail
  · next form hform =>
    refine .map fun bs payload r h => ?_
    exact ⟨form, hform, form.yields_payload bs payload r h⟩

end Numeric

/-! ### Members -/

theorem MemberAttributes.reads_decode (a : MemberAttributes) : Reads decode a.encode a :=
  (reads_u16 a.bits).map MemberAttributes.mk

theorem reads_vtableOffsetIf {a : MemberAttributes} {offset : Option UInt32}
    (h : offset.isSome = a.hasVtableOffset) :
    Reads (vtableOffsetIf a) ((offset.map Bytes.ofU32).getD []) offset := by
  rw [vtableOffsetIf, ← h]
  cases offset with
  | none => exact .pure none
  | some offset => exact (reads_u32 offset).map some

namespace Member

/-- What an encoder has to keep to. -/
def WellFormed : Member → Prop
  | .baseClass _ _ offset => offset.WellFormed
  | .virtualBase _ _ _ _ pointerOffset tableOffset =>
    pointerOffset.WellFormed ∧ tableOffset.WellFormed
  | .enumerator _ value name => value.WellFormed ∧ 0 ∉ name
  | .data _ _ offset name => offset.WellFormed ∧ 0 ∉ name
  | .method attr _ offset name => offset.isSome = attr.hasVtableOffset ∧ 0 ∉ name
  | .friendFunction _ name | .static _ _ name | .overloads _ _ name | .nested _ name
  | .nestedEx _ _ name => 0 ∉ name
  | .continuation _ | .vtablePointer _ | .friendClass _ | .vtableOffset _ _ => True

instance : DecidablePred WellFormed
  | .baseClass _ _ offset => inferInstanceAs (Decidable offset.WellFormed)
  | .virtualBase _ _ _ _ pointerOffset tableOffset =>
    inferInstanceAs (Decidable (pointerOffset.WellFormed ∧ tableOffset.WellFormed))
  | .enumerator _ number name | .data _ _ number name =>
    inferInstanceAs (Decidable (number.WellFormed ∧ 0 ∉ name))
  | .method attr _ offset name =>
    inferInstanceAs (Decidable (offset.isSome = attr.hasVtableOffset ∧ 0 ∉ name))
  | .friendFunction _ name | .static _ _ name | .overloads _ _ name | .nested _ name
  | .nestedEx _ _ name => inferInstanceAs (Decidable (0 ∉ name))
  | .continuation _ | .vtablePointer _ | .friendClass _ | .vtableOffset _ _ => isTrue trivial

theorem reads_decodeVirtualBase (indirect : Bool) (attr : MemberAttributes)
    (base pointer : TypeIndex) {pointerOffset tableOffset : Numeric}
    (hpointer : pointerOffset.WellFormed) (htable : tableOffset.WellFormed) :
    Reads (decodeVirtualBase indirect)
      (attr.encode ++ (base.encode ++ (pointer.encode ++ (pointerOffset.encode ++ tableOffset.encode))))
      (.virtualBase indirect attr base pointer pointerOffset tableOffset) :=
  attr.reads_decode.bind <| base.reads_decode.bind <| pointer.reads_decode.bind <|
    (Numeric.reads_decode hpointer).bind <| (Numeric.reads_decode htable).bind_last <| .pure _

theorem reads_decode {m : Member} (h : m.WellFormed) : Reads decode m.encode m := by
  have hreserved : Reads (skip 2) [0, 0] () := reads_skip rfl
  cases m <;> simp only [encode, List.append_assoc]
  case virtualBase indirect attr base pointer pointerOffset tableOffset =>
    have hbody := reads_decodeVirtualBase indirect attr base pointer h.1 h.2
    cases indirect with
    | false => exact (reads_u16 Leaf.virtualBase.code).bind hbody
    | true => exact (reads_u16 Leaf.indirectVirtualBase.code).bind hbody
  all_goals refine (reads_u16 _).bind ?_
  case baseClass attr type offset =>
    exact attr.reads_decode.bind <| type.reads_decode.bind <|
      (Numeric.reads_decode h).bind_last <| .pure _
  case enumerator attr value name =>
    exact attr.reads_decode.bind <| (Numeric.reads_decode h.1).bind <|
      (reads_text h.2).bind_last <| .pure _
  case friendFunction type name | nested type name =>
    exact hreserved.bind <| type.reads_decode.bind <| (reads_text h).bind_last <| .pure _
  case continuation type | vtablePointer type | friendClass type =>
    exact hreserved.bind <| type.reads_decode.bind_last <| .pure _
  case data attr type offset name =>
    exact attr.reads_decode.bind <| type.reads_decode.bind <|
      (Numeric.reads_decode h.1).bind <| (reads_text h.2).bind_last <| .pure _
  case static attr type name | nestedEx attr type name =>
    exact attr.reads_decode.bind <| type.reads_decode.bind <| (reads_text h).bind_last <| .pure _
  case overloads count list name =>
    exact (reads_u16 count).bind <| list.reads_decode.bind <| (reads_text h).bind_last <| .pure _
  case method attr type offset name =>
    exact attr.reads_decode.bind <| type.reads_decode.bind <| (reads_vtableOffsetIf h.1).bind <|
      (reads_text h.2).bind_last <| .pure _
  case vtableOffset type offset =>
    exact hreserved.bind <| type.reads_decode.bind <| (reads_u32 offset).bind_last <| .pure _

theorem yields_text : Yields text fun s => 0 ∉ s := fun _ _ _ h => (text_eq_some h).2

theorem yields_decodeBody_wellFormed (kind : Leaf) : Yields (decodeBody kind) WellFormed := by
  unfold decodeBody
  split
  case h_1 =>
    exact .bind_any fun _ => .bind_any fun _ => Numeric.yields_decode.bind fun _ h => .pure h
  case h_2 | h_3 =>
    exact .bind_any fun _ => .bind_any fun _ => .bind_any fun _ =>
      Numeric.yields_decode.bind fun _ hpointer => Numeric.yields_decode.bind fun _ htable =>
      .pure ⟨hpointer, htable⟩
  case h_4 =>
    exact .bind_any fun _ => Numeric.yields_decode.bind fun _ hvalue =>
      yields_text.bind fun _ hname => .pure ⟨hvalue, hname⟩
  case h_7 =>
    exact .bind_any fun _ => .bind_any fun _ => Numeric.yields_decode.bind fun _ hoffset =>
      yields_text.bind fun _ hname => .pure ⟨hoffset, hname⟩
  case h_5 | h_8 | h_9 | h_10 | h_11 =>
    exact .bind_any fun _ => .bind_any fun _ => yields_text.bind fun _ h => .pure h
  case h_14 =>
    exact .bind_any fun attr => .bind_any fun _ => (yields_vtableOffsetIf attr).bind fun _ hoffset =>
      yields_text.bind fun _ hname => .pure ⟨hoffset, hname⟩
  case h_16 => exact .fail
  all_goals
    repeat refine .bind_any fun _ => ?_
    exact .pure trivial

theorem wellFormed_of_mem {bs : Bytes} {m : Member} (h : m ∈ list bs) : m.WellFormed := by
  have hdecode : Yields decode WellFormed := .bind_any fun code => yields_decodeBody_wellFormed ⟨code⟩
  have hnext : Yields next WellFormed := fun bs => hdecode (bs.dropWhile isPadding)
  exact hnext.mem_many next_progress bs m h

/-! ### Lists -/

/-- No leaf code of a member has a low byte from `0xf0` on. -/
theorem exists_encode_eq (m : Member) : ∃ b bs, m.encode = b :: bs ∧ isPadding b = false := by
  cases m with
  | virtualBase indirect => cases indirect <;> exact ⟨_, _, rfl, by decide⟩
  | _ => exact ⟨_, _, rfl, by decide⟩

theorem dropWhile_encode (m : Member) (r : Bytes) :
    (m.encode ++ r).dropWhile isPadding = m.encode ++ r := by
  obtain ⟨b, bs, hencode, hb⟩ := m.exists_encode_eq
  rw [hencode, List.cons_append, List.dropWhile_cons_of_neg (by simp [hb])]

theorem next_padding {padding : Bytes} (h : ∀ b ∈ padding, isPadding b) (bs : Bytes) :
    next (padding ++ bs) = next bs := by
  rw [next, next, List.dropWhile_append_of_pos h]

theorem next_encode {m : Member} (h : m.WellFormed) (r : Bytes) : next (m.encode ++ r) = some (m, r) := by
  rw [next, m.dropWhile_encode, reads_decode h]

end Member

/-- A member as it stands in a list, with the padding behind it. -/
structure PaddedMember where
  member : Member
  padding : Bytes
  wellFormed : member.WellFormed
  isPadding : padding.all Member.isPadding

namespace PaddedMember

def encode (m : PaddedMember) : Bytes := m.member.encode ++ m.padding

/-- The padding behind a member is passed over when the next one is read, so that it is in front of
the bytes that the induction is about. -/
theorem many_flatMap (ms : List PaddedMember) (padding : Bytes)
    (h : ∀ b ∈ padding, Member.isPadding b) :
    ∃ rest : Bytes, (∀ b ∈ rest, Member.isPadding b) ∧
      many Member.next Member.next_progress (padding ++ ms.flatMap encode) = (ms.map member, rest) := by
  induction ms generalizing padding with
  | nil =>
    refine ⟨padding, h, ?_⟩
    have hnil : Member.next padding = none := by
      have hnext := Member.next_padding h []
      rwa [List.append_nil] at hnext
    rw [List.flatMap_nil, List.append_nil, many_eq, hnil]
    rfl
  | cons m ms ih =>
    obtain ⟨rest, hrest, heq⟩ := ih m.padding (List.all_eq_true.1 m.isPadding)
    refine ⟨rest, hrest, ?_⟩
    rw [many_eq, Member.next_padding h, List.flatMap_cons, encode, List.append_assoc,
      Member.next_encode m.wellFormed]
    simp only [heq, List.map_cons]

end PaddedMember

/-- Members of any kinds, one behind another with any padding behind each, are read one by one, and
nothing is left. -/
theorem Member.listWithRest_flatMap (ms : List PaddedMember) :
    listWithRest (ms.flatMap PaddedMember.encode) = (ms.map PaddedMember.member, []) := by
  obtain ⟨rest, hrest, heq⟩ := PaddedMember.many_flatMap ms [] (by simp)
  rw [List.nil_append] at heq
  rw [listWithRest, heq]
  simp only [if_pos (List.all_eq_true.2 hrest)]

/-- A list with a member of each kind and with numbers of each form, with up to fifteen bytes of
padding. -/
theorem Member.listWithRest_flatMap_everyKind :
    let name : Bytes := [0x78, 0xf2]
    let ms : List PaddedMember := [
      ⟨.baseClass ⟨3⟩ ⟨0x1000⟩ ⟨⟨0xf0⟩, []⟩, [0xf2, 0xf1], by decide, by decide⟩,
      ⟨.virtualBase false ⟨3⟩ ⟨0x1001⟩ ⟨0x1002⟩ ⟨.char, [0xff]⟩ ⟨.ushort, [0xf0, 0xf0]⟩, [],
        by decide, by decide⟩,
      ⟨.virtualBase true ⟨3⟩ ⟨0x1001⟩ ⟨0x1002⟩ ⟨.quadword, [0, 1, 2, 3, 4, 5, 6, 7]⟩ ⟨⟨0x7fff⟩, []⟩,
        [0xff], by decide, by decide⟩,
      ⟨.enumerator ⟨3⟩ ⟨.varString, [2, 0, 0, 0xf1]⟩ name, [0xf0], by decide, by decide⟩,
      ⟨.friendFunction ⟨0x1003⟩ name, [0xf3, 0xf2, 0xf1], by decide, by decide⟩,
      ⟨.data ⟨1⟩ ⟨0x74⟩ ⟨.ulong, [0, 0, 0, 0x80]⟩ name, [], by decide, by decide⟩,
      ⟨.static ⟨2⟩ ⟨0x74⟩ name, [], by decide, by decide⟩,
      ⟨.overloads 2 ⟨0x1004⟩ [], List.replicate 15 0xff, by decide, by decide⟩,
      ⟨.nested ⟨0x1005⟩ name, [], by decide, by decide⟩,
      ⟨.nestedEx ⟨3⟩ ⟨0xf0f0f0f0⟩ name, [], by decide, by decide⟩,
      ⟨.vtablePointer ⟨0x1006⟩, [0xf2, 0xf1], by decide, by decide⟩,
      ⟨.friendClass ⟨0x1007⟩, [], by decide, by decide⟩,
      ⟨.method ⟨0x13⟩ ⟨0x1008⟩ (some 8) name, [0xf1], by decide, by decide⟩,
      ⟨.method ⟨0x33⟩ ⟨0x1008⟩ none name, [], by decide, by decide⟩,
      ⟨.vtableOffset ⟨0x1009⟩ 0xffffffff, [], by decide, by decide⟩,
      ⟨.enumerator ⟨3⟩ ⟨.utf8String, [0x79, 0]⟩ name, [], by decide, by decide⟩,
      ⟨.continuation ⟨0x100a⟩, [0xf2, 0xf1], by decide, by decide⟩]
    listWithRest (ms.flatMap PaddedMember.encode) = (ms.map PaddedMember.member, []) :=
  listWithRest_flatMap _

end Pdb
