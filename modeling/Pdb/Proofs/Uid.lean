import Pdb.Uid

/-! # Identifiers

The fields of an entity fit below its kind, so that an entity is read back from its number
(`unpack_uid`), and entities with one number are the same (`uid_inj`). A number whose kind is one of
the four, and that has no stray bit between its fields and its kind, is in turn that of the entity with
these fields (`uid_ofFields`). Main statements: `unpack_inverse`, and `text_eq_iff`, which says which
numbers have a text. -/

namespace Pdb

namespace EntityKind

theorem ofCode?_code (k : EntityKind) : ofCode? k.code = some k := by cases k <;> rfl

theorem code_lt (k : EntityKind) : k.code < 4 := by cases k <;> decide

theorem ofCode?_eq_some {n : Nat} {k : EntityKind} (h : ofCode? n = some k) : n = k.code := by
  match n with
  | 0 | 1 | 2 | 3 => cases h; rfl
  | n + 4 => cases h

theorem lt_of_ofCode? {n : Nat} {k : EntityKind} (h : ofCode? n = some k) : n < 4 :=
  ofCode?_eq_some h ▸ k.code_lt

theorem ofCode?_eq_none {n : Nat} : ofCode? n = none ↔ 4 ≤ n := by
  match n with
  | 0 | 1 | 2 | 3 => simp [ofCode?]
  | n + 4 => simp [ofCode?]

theorem fieldBits_le (k : EntityKind) : 2 ^ k.fieldBits ≤ 2 ^ 61 := by cases k <;> decide

end EntityKind

namespace Entity
variable {a b : Entity}

theorem fields_lt (e : Entity) : e.fields < 2 ^ e.kind.fieldBits := by
  cases e with
  | unit module => exact module.toNat_lt
  | unitSymbol module offset =>
    have := module.toNat_lt
    have := offset.toNat_lt
    simp only [fields, kind, EntityKind.fieldBits]
    omega
  | globalSymbol offset flag =>
    have := flag.toNat_lt
    have := offset.toNat_lt
    simp only [fields, kind, EntityKind.fieldBits]
    omega
  | type index flag =>
    have := flag.toNat_lt
    have := index.val.toNat_lt
    simp only [fields, kind, EntityKind.fieldBits, TypeIndex.toNat]
    omega

theorem toNat_uid (e : Entity) : e.uid.toNat = e.kind.code * 2 ^ 61 + e.fields := by
  have hfields := e.fields_lt
  have hbits := e.kind.fieldBits_le
  have hcode := e.kind.code_lt
  refine UInt64.toNat_ofNat_of_lt' ?_
  rw [UInt64.size]
  omega

/-- The low word is the offset, whatever stands above it. -/
theorem ofNat_mul_add (k : Nat) (offset : UInt32) :
    UInt32.ofNat (k * 2 ^ 32 + offset.toNat) = offset := by
  have := offset.toNat_lt
  refine UInt32.toNat_inj.1 ?_
  rw [UInt32.toNat_ofNat']
  omega

theorem testBit_toNat_mul_add (flag : Bool) (offset : UInt32) :
    (flag.toNat * 2 ^ 32 + offset.toNat).testBit 32 = flag := by
  have hlow : offset.toNat.testBit 32 = false := Nat.testBit_lt_two_pow offset.toNat_lt
  cases flag with
  | false => rw [Bool.toNat_false, Nat.zero_mul, Nat.zero_add, hlow]
  | true => rw [Bool.toNat_true, Nat.one_mul, Nat.testBit_two_pow_add_eq, hlow, Bool.not_false]

theorem ofFields_fields (e : Entity) : ofFields e.fields e.kind = e := by
  cases e with
  | unit module =>
    simp only [fields, kind, ofFields, UInt16.ofNat_toNat]
  | unitSymbol module offset =>
    have hmodule : (module.toNat * 2 ^ 32 + offset.toNat) / 2 ^ 32 = module.toNat := by
      have := offset.toNat_lt
      omega
    simp only [fields, kind, ofFields, ofNat_mul_add, hmodule, UInt16.ofNat_toNat]
  | globalSymbol offset flag =>
    simp only [fields, kind, ofFields, ofNat_mul_add, testBit_toNat_mul_add]
  | type index flag =>
    obtain ⟨index⟩ := index
    simp only [fields, kind, ofFields, TypeIndex.toNat, TypeIndex.ofNat, ofNat_mul_add,
      testBit_toNat_mul_add]

theorem kind_uid (e : Entity) : Uid.kind e.uid = pure e.kind := by
  have hlow := Nat.lt_of_lt_of_le e.fields_lt e.kind.fieldBits_le
  have hcode : e.uid.toNat / 2 ^ 61 = e.kind.code := by
    rw [toNat_uid]
    omega
  rw [Uid.kind, hcode, EntityKind.ofCode?_code]

theorem unpackAs_uid (e : Entity) : Uid.unpackAs e.kind e.uid = pure e := by
  have hlow := Nat.lt_of_lt_of_le e.fields_lt e.kind.fieldBits_le
  have hfields : e.uid.toNat % 2 ^ 61 = e.fields := by
    rw [toNat_uid]
    omega
  have hreserved : ¬ 2 ^ e.kind.fieldBits ≤ e.fields := Nat.not_le.2 e.fields_lt
  simp only [Uid.unpackAs, kind_uid, pure_bind, ne_eq, not_true_eq_false, if_false, hfields, hreserved,
    ofFields_fields]

theorem unpack_uid (e : Entity) : Uid.unpack e.uid = pure e := by
  rw [Uid.unpack, kind_uid, pure_bind, unpackAs_uid]

theorem uid_inj (h : a.uid = b.uid) : a = b := by
  have hunpack := congrArg Uid.unpack h
  rw [unpack_uid, unpack_uid] at hunpack
  exact Except.ok.inj hunpack

/-! ### From numbers to entities -/

theorem kind_ofFields (n : Nat) (k : EntityKind) : (ofFields n k).kind = k := by cases k <;> rfl

/-- The low word and the bit above it make up the number again. -/
theorem testBit_mul_add_ofNat {n : Nat} (h : n < 2 ^ 33) :
    (n.testBit 32).toNat * 2 ^ 32 + (UInt32.ofNat n).toNat = n := by
  rw [Nat.toNat_testBit, UInt32.toNat_ofNat']
  omega

theorem fields_ofFields {n : Nat} {k : EntityKind} (h : n < 2 ^ k.fieldBits) :
    (ofFields n k).fields = n := by
  cases k with
  | unit => exact UInt16.toNat_ofNat_of_lt' h
  | unitSymbol =>
    have h : n < 2 ^ 48 := h
    simp only [ofFields, fields, UInt16.toNat_ofNat', UInt32.toNat_ofNat']
    omega
  | globalSymbol => exact testBit_mul_add_ofNat h
  | type => exact testBit_mul_add_ofNat h

theorem uid_ofFields {u : Uid} {k : EntityKind} (hcode : u.toNat / 2 ^ 61 = k.code)
    (hlow : u.toNat % 2 ^ 61 < 2 ^ k.fieldBits) : (ofFields (u.toNat % 2 ^ 61) k).uid = u := by
  refine UInt64.toNat_inj.1 ?_
  rw [toNat_uid, kind_ofFields, fields_ofFields hlow, ← hcode]
  omega

end Entity

namespace Uid

/-- A bit is set between the fields of the kind and the kind itself. -/
def HasStrayBit (u : Uid) (k : EntityKind) : Prop :=
  ∃ i, k.fieldBits ≤ i ∧ i < 61 ∧ u.toNat.testBit i

theorem hasStrayBit_iff {u : Uid} {k : EntityKind} :
    HasStrayBit u k ↔ 2 ^ k.fieldBits ≤ u.toNat % 2 ^ 61 := by
  constructor
  · rintro ⟨i, hi, hlow, hbit⟩
    refine Nat.not_lt.1 fun hlt => ?_
    have hclear := Nat.testBit_lt_two_pow
      (Nat.lt_of_lt_of_le hlt (Nat.pow_le_pow_right Nat.two_pos hi))
    rw [Nat.testBit_mod_two_pow, hbit, decide_eq_true hlow] at hclear
    exact nomatch hclear
  · intro h
    obtain ⟨i, hi, hbit⟩ := Nat.exists_ge_and_testBit_of_ge_two_pow h
    rw [Nat.testBit_mod_two_pow, Bool.and_eq_true, decide_eq_true_eq] at hbit
    exact ⟨i, hi, hbit⟩

theorem kind_of_none {u : Uid} (h : EntityKind.ofCode? (u.toNat / 2 ^ 61) = none) :
    kind u = .error (.invalidKind u) := by
  rw [kind, h]
  rfl

theorem kind_of_some {u : Uid} {k : EntityKind} (h : EntityKind.ofCode? (u.toNat / 2 ^ 61) = some k) :
    kind u = .ok k := by
  rw [kind, h]
  rfl

theorem unpack_of_none {u : Uid} (h : EntityKind.ofCode? (u.toNat / 2 ^ 61) = none) :
    unpack u = .error (.invalidKind u) := by
  rw [unpack, kind_of_none h]
  rfl

theorem unpack_of_some {u : Uid} {k : EntityKind}
    (h : EntityKind.ofCode? (u.toNat / 2 ^ 61) = some k) :
    unpack u = if 2 ^ k.fieldBits ≤ u.toNat % 2 ^ 61 then .error (.reservedBits u)
      else .ok (.ofFields (u.toNat % 2 ^ 61) k) := by
  rw [unpack, kind_of_some h]
  show unpackAs k u = _
  rw [unpackAs, kind_of_some h]
  simp only [bind, Except.bind, pure, Except.pure, ne_eq, not_true_eq_false, if_false]
  split <;> rfl

/-- A number that is unpacked is that of the entity. -/
theorem uid_of_unpack {u : Uid} {e : Entity} (h : unpack u = .ok e) : e.uid = u := by
  cases hcode : EntityKind.ofCode? (u.toNat / 2 ^ 61) with
  | none =>
    rw [unpack_of_none hcode] at h
    cases h
  | some k =>
    rw [unpack_of_some hcode] at h
    split at h
    · cases h
    · next hlow =>
      cases h
      exact Entity.uid_ofFields (EntityKind.ofCode?_eq_some hcode) (Nat.not_le.1 hlow)

/-- A number is refused for its kind, or for a stray bit. -/
theorem unpack_eq_error {u : Uid} {fault : UidFault} : unpack u = .error fault ↔
    fault = .invalidKind u ∧ 4 ≤ u.toNat / 2 ^ 61
    ∨ fault = .reservedBits u ∧ ∃ k, kind u = .ok k ∧ HasStrayBit u k := by
  cases hcode : EntityKind.ofCode? (u.toNat / 2 ^ 61) with
  | none =>
    have hinvalid := EntityKind.ofCode?_eq_none.1 hcode
    simp only [unpack_of_none hcode, kind_of_none hcode, hinvalid, and_true, Except.error.injEq,
      reduceCtorEq, false_and, exists_false, and_false, or_false, eq_comm]
  | some k =>
    have hvalid := Nat.not_le.2 (EntityKind.lt_of_ofCode? hcode)
    simp only [unpack_of_some hcode, kind_of_some hcode, hvalid, and_false, false_or, Except.ok.injEq,
      exists_eq_left', hasStrayBit_iff]
    split <;> simp_all [eq_comm]

/-- An entity is read back from its number, no two entities have the same one, and a number that is
that of no entity is refused, for its kind or for a stray bit. -/
theorem unpack_inverse :
    (∀ e : Entity, kind e.uid = .ok e.kind ∧ unpack e.uid = .ok e)
    ∧ (∀ a b : Entity, a.uid = b.uid ↔ a = b)
    ∧ ∀ u : Uid, (∀ e, unpack u = .ok e ↔ e.uid = u)
      ∧ ∀ fault, unpack u = .error fault ↔
        fault = .invalidKind u ∧ 4 ≤ u.toNat / 2 ^ 61
        ∨ fault = .reservedBits u ∧ ∃ k, kind u = .ok k ∧ HasStrayBit u k := by
  refine ⟨fun e => ⟨e.kind_uid, e.unpack_uid⟩, fun a b => ⟨Entity.uid_inj, fun h => h ▸ rfl⟩,
    fun u => ⟨fun e => ⟨uid_of_unpack, ?_⟩, fun fault => unpack_eq_error⟩⟩
  rintro rfl
  exact e.unpack_uid

/-! ### Texts -/

/-- The text of a number that is shown as it is. -/
def rawText (u : Uid) : String := s!"PdbSymUid(0x{Text.hex 1 u.toNat})"

theorem text_of_none {u : Uid} (h : EntityKind.ofCode? (u.toNat / 2 ^ 61) = none) :
    text u = .ok (rawText u) := by
  rw [text, kind_of_none h]
  rfl

/-- A number of one of the four kinds is unpacked for its text. -/
theorem text_of_some {u : Uid} {k : EntityKind} (h : EntityKind.ofCode? (u.toNat / 2 ^ 61) = some k) :
    text u = (unpack u).map Entity.text := by
  rw [text, unpack, kind_of_some h]
  rfl

theorem text_uid (e : Entity) : text e.uid = .ok e.text := by
  rw [text, e.kind_uid]
  show Entity.text <$> unpackAs e.kind e.uid = _
  rw [e.unpackAs_uid]
  rfl

theorem text_eq_ok {u : Uid} {t : String} : text u = .ok t ↔
    (∃ e : Entity, e.uid = u ∧ t = e.text) ∨ 4 ≤ u.toNat / 2 ^ 61 ∧ t = rawText u := by
  constructor
  · intro h
    cases hcode : EntityKind.ofCode? (u.toNat / 2 ^ 61) with
    | none =>
      rw [text_of_none hcode, Except.ok.injEq] at h
      exact .inr ⟨EntityKind.ofCode?_eq_none.1 hcode, h.symm⟩
    | some k =>
      rw [text_of_some hcode] at h
      cases hunpack : unpack u with
      | error fault =>
        rw [hunpack] at h
        cases h
      | ok e =>
        rw [hunpack] at h
        cases h
        exact .inl ⟨e, uid_of_unpack hunpack, rfl⟩
  · rintro (⟨e, rfl, rfl⟩ | ⟨hinvalid, rfl⟩)
    · exact text_uid e
    · exact text_of_none (EntityKind.ofCode?_eq_none.2 hinvalid)

/-- A number is without a text for a stray bit only. -/
theorem text_eq_error {u : Uid} {fault : UidFault} : text u = .error fault ↔
    fault = .reservedBits u ∧ ∃ k, kind u = .ok k ∧ HasStrayBit u k := by
  cases hcode : EntityKind.ofCode? (u.toNat / 2 ^ 61) with
  | none =>
    rw [text_of_none hcode, kind_of_none hcode]
    exact iff_of_false nofun fun ⟨_, _, hkind, _⟩ => nomatch hkind
  | some k =>
    have hvalid := Nat.not_le.2 (EntityKind.lt_of_ofCode? hcode)
    have hfault : text u = .error fault ↔ unpack u = .error fault := by
      rw [text_of_some hcode]
      cases unpack u <;> simp [Except.map]
    rw [hfault, unpack_eq_error, or_iff_right fun h => hvalid h.2]

/-- Which numbers have a text, and what it is: that of the entity with the number, and the number as it
is if it has none of the four kinds. A number that has one of them, but a stray bit, has no text. -/
theorem text_eq_iff (u : Uid) :
    ((∃ t, text u = .ok t) ↔ ¬ ∃ k, kind u = .ok k ∧ HasStrayBit u k)
    ∧ (∀ t, text u = .ok t ↔
      (∃ e : Entity, e.uid = u ∧ t = e.text) ∨ 4 ≤ u.toNat / 2 ^ 61 ∧ t = rawText u)
    ∧ ∀ fault, text u = .error fault ↔
      fault = .reservedBits u ∧ ∃ k, kind u = .ok k ∧ HasStrayBit u k := by
  refine ⟨?_, fun t => text_eq_ok, fun fault => text_eq_error⟩
  cases htext : text u with
  | ok t =>
    refine iff_of_true ⟨t, rfl⟩ fun hstray => ?_
    cases htext.symm.trans (text_eq_error.2 ⟨rfl, hstray⟩)
  | error fault => exact iff_of_false nofun (not_not_intro (text_eq_error.1 htext).2)

/-- A module has sixteen bits, and here the next one is set. -/
theorem not_text_of_strayBit : text 0x10000 = .error (.reservedBits 0x10000)
    ∧ ¬ ∀ u : Uid, ∃ t, text u = .ok t := by
  have hfault : text 0x10000 = .error (.reservedBits 0x10000) :=
    text_eq_error.2 ⟨rfl, .unit, rfl, 16, by decide, by decide, by decide⟩
  refine ⟨hfault, fun h => ?_⟩
  obtain ⟨t, ht⟩ := h 0x10000
  cases hfault.symm.trans ht

end Uid
end Pdb
