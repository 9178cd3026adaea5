import Pdb.Proofs.MemberEncoding
import Pdb.Symbol

/-! # Bytes behind a record

A record is padded, and where its padding starts is not known. For most layouts that does not matter,
since they are `Local`: what stands behind the bytes that are read changes nothing (`first_append`).
A pointer takes all bytes that are left for its last part, of which a class is only read from the front,
and a list of members passes over padding between them, so that more of it at the end is passed over as
well (`Member.many_append_padding`). Main statement: `parse?_append`.
-/

namespace Pdb
open Decoder

theorem Decoder.Local.first_append {α : Type} {d : Decoder α} (hd : Local d) {bs : Bytes} {x : α}
    (h : (d bs).map (·.1) = some x) (suffix : Bytes) : (d (bs ++ suffix)).map (·.1) = some x := by
  obtain ⟨⟨_, r⟩, hread, rfl⟩ := Option.map_eq_some_iff.1 h
  rw [hd.append hread suffix, Option.map_some]

/-! ### Type records -/

instance arrayRecordLocal : Local ArrayRecord.decode := by
  unfold ArrayRecord.decode
  infer_instance

instance classRecordLocal : Local ClassRecord.decode := by
  unfold ClassRecord.decode
  infer_instance

instance unionRecordLocal : Local UnionRecord.decode := by
  unfold UnionRecord.decode
  infer_instance

instance enumRecordLocal : Local EnumRecord.decode := by
  unfold EnumRecord.decode
  infer_instance

instance procedureRecordLocal : Local ProcedureRecord.decode := by
  unfold ProcedureRecord.decode
  infer_instance

instance memberFunctionRecordLocal : Local MemberFunctionRecord.decode := by
  unfold MemberFunctionRecord.decode
  infer_instance

instance modifierRecordLocal : Local ModifierRecord.decode := by
  unfold ModifierRecord.decode
  infer_instance

instance bitFieldRecordLocal : Local BitFieldRecord.decode := by
  unfold BitFieldRecord.decode
  infer_instance

namespace PointerRecord
variable {p : PointerRecord} {payload r : Bytes}

theorem decode_append (h : decode payload = some (p, r)) (suffix : Bytes) :
    decode (payload ++ suffix) = some ({ p with variant := p.variant ++ suffix }, r) := by
  obtain ⟨⟨pointee, after⟩, hpointee, h⟩ := Option.bind_eq_some_iff.1 h
  obtain ⟨⟨attributes, variant⟩, hattributes, h⟩ := Option.bind_eq_some_iff.1 h
  cases h
  show (TypeIndex.decode (payload ++ suffix)).bind _ = _
  rw [typeIndexLocal.append hpointee, Option.bind_some]
  show (u32 (after ++ suffix)).bind _ = _
  rw [u32Local.append hattributes]
  rfl

theorem containingClass?_append {c : Option TypeIndex} (h : p.containingClass? = some c) (suffix : Bytes) :
    ({ p with variant := p.variant ++ suffix } : PointerRecord).containingClass? = some c := by
  have hkeeps : ({ p with variant := p.variant ++ suffix } : PointerRecord).toMember = p.toMember := rfl
  unfold containingClass? at h ⊢
  rw [hkeeps]
  split at h
  · next hmember =>
    obtain ⟨⟨class_, after⟩, hclass, rfl⟩ := Option.map_eq_some_iff.1 h
    rw [if_pos hmember, u32Local.append hclass, Option.map_some]
  · next hnot => rwa [if_neg hnot]

end PointerRecord

/-- The layouts that take all bytes there are. -/
def Leaf.openEnded : List Leaf := [.pointer, .fieldList, .methodList]

theorem TypeRecord.decode_local {kind : Leaf} (h : kind ∉ Leaf.openEnded) : Local (decode kind) := by
  unfold decode decodeArgList decodeAlias decodeFunctionId decodeStringId decodeBuildInfo
  split <;> first | infer_instance | exact absurd (by decide) h

/-! ### Symbols -/

instance symbolLocal (kind : SymbolKind) : Local (Symbol.decode kind) := by
  unfold Symbol.decode Symbol.decodeObjectName Symbol.decodeProc Symbol.decodeCompile Symbol.decodeUdt
    Symbol.decodeConstant Symbol.decodePublic Symbol.decodeReference Symbol.decodeVariable
  split <;> infer_instance

/-! ### Member lists -/

namespace Member
variable {bs padding : Bytes}

instance memberLocal : Local decode := bindLocal _ _

theorem next_append {m : Member} {r : Bytes} (h : next bs = some (m, r)) (suffix : Bytes) :
    next (bs ++ suffix) = some (m, r ++ suffix) := by
  have hne : ¬ (bs.dropWhile isPadding).isEmpty := by
    intro hempty
    have hnil : decode [] = none := rfl
    rw [next, List.isEmpty_iff.1 hempty, hnil] at h
    cases h
  rw [next, List.dropWhile_append, if_neg hne]
  exact memberLocal.append h suffix

theorem next_of_all_isPadding (h : bs.all isPadding) : next bs = none := by
  have hnext := next_padding (List.all_eq_true.1 h) []
  rwa [List.append_nil] at hnext

/-- Behind the last member the padding is found with what has been left there. -/
theorem many_append_padding (h : (many next next_progress bs).2.all isPadding)
    (hpadding : padding.all isPadding) : many next next_progress (bs ++ padding)
      = ((many next next_progress bs).1, (many next next_progress bs).2 ++ padding) := by
  have hnone : next ((many next next_progress bs).2 ++ padding) = none :=
    next_of_all_isPadding (by rw [List.all_append, h, hpadding]; rfl)
  have hend := many_eq next next_progress ((many next next_progress bs).2 ++ padding)
  rw [hnone] at hend
  rw [many_append next_progress (fun _ _ _ h => next_append h) bs padding, hend, List.append_nil]

theorem all_isPadding_of_listWithRest (h : (listWithRest bs).2 = []) :
    (many next next_progress bs).2.all isPadding := by
  unfold listWithRest at h
  dsimp only at h
  split at h
  · assumption
  · rw [h]
    rfl

/-- Padding behind a list of which nothing is left. -/
theorem listWithRest_append (h : (listWithRest bs).2 = []) (hpadding : padding.all isPadding) :
    listWithRest (bs ++ padding) = listWithRest bs := by
  have hrest := all_isPadding_of_listWithRest h
  unfold listWithRest
  rw [many_append_padding hrest hpadding]
  simp only [List.all_append, hrest, hpadding, Bool.and_self, if_true]

end Member

/-- What stands behind a record does not change what is read, except where a layout takes all bytes;
of a pointer, the fixed part and the class that it points into do not change then. More padding behind
the members of a list that is read to its end does not change them. -/
theorem parse?_append :
    (∀ kind payload suffix record, kind ∉ Leaf.openEnded → TypeRecord.parse? kind payload = some record →
      TypeRecord.parse? kind (payload ++ suffix) = some record)
    ∧ (∀ payload suffix record, TypeRecord.parse? .pointer payload = some record →
      ∃ p q, record = .pointer p ∧ TypeRecord.parse? .pointer (payload ++ suffix) = some (.pointer q)
        ∧ q.pointee = p.pointee ∧ q.attributes = p.attributes
        ∧ ∀ c, p.containingClass? = some c → q.containingClass? = some c)
    ∧ (∀ payload, TypeRecord.parse? .fieldList payload = some (.fieldList payload)
      ∧ TypeRecord.parse? .methodList payload = some (.methodList payload))
    ∧ (∀ kind payload suffix symbol, Symbol.parse? kind payload = some symbol →
      Symbol.parse? kind (payload ++ suffix) = some symbol)
    ∧ ∀ bs padding : Bytes, (Member.listWithRest bs).2 = [] → (∀ b ∈ padding, 0xf0 ≤ b) →
      Member.listWithRest (bs ++ padding) = Member.listWithRest bs := by
  refine ⟨fun kind payload suffix record hkind h => ?_, fun payload suffix record h => ?_,
    fun payload => ⟨rfl, rfl⟩, fun kind payload suffix symbol h => ?_, fun bs padding h hpadding => ?_⟩
  · exact (TypeRecord.decode_local hkind).first_append h suffix
  · obtain ⟨⟨_, r⟩, hread, rfl⟩ := Option.map_eq_some_iff.1 h
    obtain ⟨⟨p, r⟩, hp, heq⟩ := Option.bind_eq_some_iff.1 hread
    cases heq
    refine ⟨p, { p with variant := p.variant ++ suffix }, rfl, ?_, rfl, rfl,
      fun c hc => PointerRecord.containingClass?_append hc suffix⟩
    show ((PointerRecord.decode (payload ++ suffix)).bind _).map _ = _
    rw [PointerRecord.decode_append hp]
    rfl
  · exact (symbolLocal kind).first_append h suffix
  · refine Member.listWithRest_append h (List.all_eq_true.2 fun b hb => ?_)
    exact decide_eq_true (hpadding b hb)

/-- A structure with a decorated name, a pointer to a member, a variable and a list of one enumerator
with padding of its own, each with bytes behind it. -/
theorem parse?_append_padded :
    let structure_ : Bytes := [0, 0, 0, 2, 0, 0, 0, 0, 0, 0, 0, 0, 0, 0, 0, 0, 4, 0, 0x53, 0, 0x55, 0]
    let pointer : Bytes := [0x74, 0, 0, 0, 0x4c, 0, 1, 0, 0, 0x10, 0, 0, 1, 0]
    let data : Bytes := [0x74, 0, 0, 0, 0x10, 0, 0, 0, 1, 0, 0x78, 0]
    let members : Bytes := [2, 0x15, 3, 0, 1, 0, 0x61, 0, 0xf2]
    let enumerator : Member := .enumerator ⟨3⟩ ⟨⟨1⟩, []⟩ [0x61]
    (∃ record, TypeRecord.parse? .structure_ (structure_ ++ [0xf2, 0xf1]) = some record
      ∧ record.uniqueName? = some [0x55])
    ∧ (∃ q, TypeRecord.parse? .pointer (pointer ++ [0xf2, 0xf1]) = some (.pointer q)
      ∧ q.containingClass? = some (some ⟨0x1000⟩))
    ∧ Symbol.parse? .globalData32 (data ++ [0xff]) = some (.data ⟨0x74⟩ ⟨0x10, 1⟩ [0x78])
    ∧ Member.listWithRest (members ++ [0xf1, 0xff]) = ([enumerator], []) := by
  intro structure_ pointer data members enumerator
  obtain ⟨htype, hpointer, -, hsymbol, hmembers⟩ := parse?_append
  have hstructure : (TypeRecord.parse? .structure_ structure_).map TypeRecord.uniqueName?
      = some (some [0x55]) := by decide +kernel
  obtain ⟨record, hrecord, hname⟩ := Option.map_eq_some_iff.1 hstructure
  obtain ⟨p, q, heq, hq, -, -, hclass⟩ := hpointer pointer [0xf2, 0xf1]
    (.pointer ⟨⟨0x74⟩, 0x1004c, [0, 0x10, 0, 0, 1, 0]⟩) (by decide +kernel)
  obtain rfl := TypeRecord.pointer.inj heq
  have hlist : Member.listWithRest members = ([enumerator], []) := by decide +kernel
  refine ⟨⟨record, htype _ _ _ _ (by decide) hrecord, hname⟩, ⟨q, hq, hclass _ (by decide +kernel)⟩,
    hsymbol _ _ _ _ (by decide +kernel), (hmembers _ _ ?_ (by simp)).trans hlist⟩
  rw [hlist]

end Pdb
