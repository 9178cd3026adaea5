import Pdb.TypeRecord.Member

/-! # Which functions carry a vtable offset

Members have no length prefix, so whether a vtable offset follows an attribute word decides where the
next member starts. `Yields` says what is known of all that a decoder reads; it goes along the decoder,
with one case for each kind of member. The test looks at bit 5, too, which is not part of the method
kind: a function that introduces a virtual function is read without its offset if the compiler made it
(`isSome_vtableOffset_iff`).
-/

namespace Pdb

namespace Decoder
variable {α β : Type} {P : α → Prop} {Q : β → Prop} {d : Decoder α} {f : α → Decoder β}

/-- All that the decoder reads satisfies `P`. -/
def Yields (d : Decoder α) (P : α → Prop) : Prop := ∀ bs x r, d bs = some (x, r) → P x

namespace Yields

theorem pure {x : α} (h : P x) : Yields (pure x) P := by
  rintro _ _ _ ⟨⟩
  exact h

theorem fail : Yields (fail : Decoder α) P := nofun

theorem any (d : Decoder α) : Yields d fun _ => True := fun _ _ _ _ => trivial

theorem bind (hd : Yields d P) (hf : ∀ x, P x → Yields (f x) Q) : Yields (d >>= f) Q := by
  intro bs y r h
  obtain ⟨⟨x, after⟩, hx, hy⟩ := Option.bind_eq_some_iff.1 h
  exact hf x (hd bs x after hx) after y r hy

theorem bind_any (hf : ∀ x, Yields (f x) Q) : Yields (d >>= f) Q :=
  (any d).bind fun x _ => hf x

theorem map {g : α → β} (hd : Yields d fun x => Q (g x)) : Yields (g <$> d) Q := by
  intro bs y r h
  obtain ⟨⟨x, after⟩, hx, hy⟩ := Option.bind_eq_some_iff.1 h
  cases hy
  exact hd bs x r hx

theorem mem_many (hd : Yields d P) (hp : Progress d) (bs : Bytes) : ∀ x ∈ (many d hp bs).1, P x := by
  fun_induction many d hp bs with
  | case1 => simp
  | case2 bs x r h ih => exact List.forall_mem_cons.2 ⟨hd bs x r h, ih⟩

end Yields
end Decoder

open Decoder

namespace MemberAttributes

/-- The method kind says that the function takes a place of its own in the vtable. -/
def IntroducesVirtual (a : MemberAttributes) : Prop :=
  a.methodKind = .introducingVirtual ∨ a.methodKind = .pureIntroducingVirtual

instance (a : MemberAttributes) : Decidable a.IntroducesVirtual :=
  inferInstanceAs (Decidable (_ ∨ _))

theorem introducesVirtual_iff (a : MemberAttributes) :
    a.IntroducesVirtual ↔ a.bits.toNat / 4 % 8 = 4 ∨ a.bits.toNat / 4 % 8 = 6 := by
  rw [IntroducesVirtual, methodKind]
  split <;> simp_all

theorem hasVtableOffset_iff (a : MemberAttributes) :
    a.hasVtableOffset ↔ a.IntroducesVirtual ∧ a.isArtificial = false := by
  rw [introducesVirtual_iff, hasVtableOffset, isArtificial, Nat.testBit_eq_decide_div_mod_eq,
    decide_eq_true_iff, decide_eq_false_iff_not]
  omega

end MemberAttributes

theorem yields_vtableOffsetIf (a : MemberAttributes) :
    Yields (vtableOffsetIf a) fun offset => offset.isSome = a.hasVtableOffset := by
  rw [vtableOffsetIf]
  split
  · next h => exact .map fun _ _ _ _ => h.symm
  · next h => exact .pure (by simp [h])

namespace Member

/-- Only a function may have a vtable offset, and it has one if its attribute word says so. -/
def OffsetAsTold : Member → Prop
  | .method attr _ offset _ => offset.isSome = attr.hasVtableOffset
  | _ => True

theorem yields_decodeVirtualBase (indirect : Bool) :
    Yields (decodeVirtualBase indirect) OffsetAsTold := by
  unfold decodeVirtualBase
  repeat refine .bind_any fun _ => ?_
  exact .pure trivial

theorem yields_decodeBody (kind : Leaf) : Yields (decodeBody kind) OffsetAsTold := by
  unfold decodeBody
  -- only functions have an offset, and only virtual bases are decoded by a function of their own
  split
  case h_2 => exact yields_decodeVirtualBase false
  case h_3 => exact yields_decodeVirtualBase true
  case h_14 =>
    refine .bind_any fun attr => .bind_any fun type => ?_
    exact (yields_vtableOffsetIf attr).bind fun offset h => .bind_any fun name => .pure h
  case h_16 => exact .fail
  all_goals
    repeat refine .bind_any fun _ => ?_
    exact .pure trivial

theorem offsetAsTold_of_mem {bs : Bytes} {m : Member} (h : m ∈ list bs) : OffsetAsTold m := by
  have hdecode : Yields decode OffsetAsTold := .bind_any fun code => yields_decodeBody ⟨code⟩
  have hnext : Yields next OffsetAsTold := fun bs => hdecode (bs.dropWhile isPadding)
  exact hnext.mem_many next_progress bs m h

end Member

theorem MethodEntry.isSome_vtableOffset {bs : Bytes} {m : MethodEntry} (h : m ∈ list bs) :
    m.vtableOffset.isSome = m.attr.hasVtableOffset := by
  have hdecode : Yields decode fun m => m.vtableOffset.isSome = m.attr.hasVtableOffset :=
    .bind_any fun attr => .bind_any fun _ => .bind_any fun _ =>
      (yields_vtableOffsetIf attr).bind fun _ h => .pure h
  exact hdecode.mem_many decode_progress bs m h

/-- In any list of members and in any overload set, a function carries a vtable offset exactly if it
introduces a virtual function and was not made by the compiler. -/
theorem isSome_vtableOffset_iff (bs : Bytes) :
    (∀ attr type offset name, Member.method attr type offset name ∈ Member.list bs →
      (offset.isSome ↔ attr.IntroducesVirtual ∧ attr.isArtificial = false))
    ∧ ∀ m ∈ MethodEntry.list bs,
      (m.vtableOffset.isSome ↔ m.attr.IntroducesVirtual ∧ m.attr.isArtificial = false) := by
  refine ⟨fun attr type offset name h => ?_, fun m h => ?_⟩
  · have htold : offset.isSome = attr.hasVtableOffset := Member.offsetAsTold_of_mem h
    rw [htold, attr.hasVtableOffset_iff]
  · rw [m.isSome_vtableOffset h, m.attr.hasVtableOffset_iff]

/-- A function with a vtable offset, and one behind it. -/
theorem isSome_vtableOffset_iff_public :
    let bs : Bytes := [0x11, 0x15, 0x13, 0, 0, 0x10, 0, 0, 8, 0, 0, 0, 0x66, 0,
      0x11, 0x15, 3, 0, 0, 0x10, 0, 0, 0x67, 0]
    Member.list bs = [.method ⟨0x13⟩ ⟨0x1000⟩ (some 8) [0x66], .method ⟨3⟩ ⟨0x1000⟩ none [0x67]]
      ∧ (⟨0x13⟩ : MemberAttributes).IntroducesVirtual
      ∧ (⟨0x13⟩ : MemberAttributes).isArtificial = false := by
  intro bs
  have hlist : Member.list bs
      = [.method ⟨0x13⟩ ⟨0x1000⟩ (some 8) [0x66], .method ⟨3⟩ ⟨0x1000⟩ none [0x67]] := by
    decide +kernel
  have hmem : Member.method ⟨0x13⟩ ⟨0x1000⟩ (some 8) [0x66] ∈ Member.list bs :=
    hlist ▸ List.mem_cons_self
  exact ⟨hlist, ((isSome_vtableOffset_iff bs).1 _ _ _ _ hmem).1 rfl⟩

/-- If the compiler made the first of the two functions, its offset is read as its name, and the other
one is lost. In an overload set the offset is read as the next function. -/
theorem vtableOffset_lost :
    let attr : MemberAttributes := ⟨0x33⟩
    attr.IntroducesVirtual
    ∧ Member.list [0x11, 0x15, 0x33, 0, 0, 0x10, 0, 0, 8, 0, 0, 0, 0x66, 0,
        0x11, 0x15, 3, 0, 0, 0x10, 0, 0, 0x67, 0] = [.method attr ⟨0x1000⟩ none [8]]
    ∧ MethodEntry.list [0x33, 0, 0, 0, 0, 0x10, 0, 0, 8, 0, 0, 0, 3, 0, 0, 0, 2, 0x10, 0, 0]
      = [⟨attr, ⟨0x1000⟩, none⟩, ⟨⟨8⟩, ⟨3⟩, none⟩] := by
  decide +kernel

end Pdb
