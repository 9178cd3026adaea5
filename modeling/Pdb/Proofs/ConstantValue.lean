import Pdb.Database.Variable
import Pdb.Proofs.AddedMembers
import Pdb.Proofs.DatabaseCalls
import Pdb.Proofs.NameLookup

/-! # The values of constants

The number in a constant and the type that is given for it have each a width and a signedness of their
own. The number is extended by its own sign, which sets the bits above it (`Bits.extended_eq`), and then
cut to the size of the type, so modulo the width of the bytes it stays what it was
(`Bits.leNat_extended`). What can be written with the size and the signedness of the type is known by
that (`Bits.value_of_emod`); more than 16 bytes are without a sign (`TypeStream.Integers.size_le`), and
no number has more. So it is read again from the bytes: `Database.variableAt?_constant`. -/

namespace Pdb

namespace Numeric
namespace Bits
variable {b : Bits}

/-- Modulo the width of its bytes a number stays what it was. -/
theorem leNat_extended {k : Nat} (hk : k ≤ 16) :
    (Bytes.leNat (Bytes.leBytes k (b.extended b.signed)) : Int) % 2 ^ (8 * k)
      = b.value % 2 ^ (8 * k) := by
  have hdvd : (2 : Int) ^ (8 * k) ∣ 2 ^ 128 := pow_dvd_pow 2 (by omega)
  have hextended : (b.extended b.signed : Int) = b.value % 2 ^ 128 :=
    Int.toNat_of_nonneg (Int.emod_nonneg _ (by decide))
  rw [Bytes.leNat_leBytes, show (256 : Nat) = 2 ^ 8 from rfl, ← Nat.pow_mul]
  push_cast
  rw [Int.emod_emod, hextended, Int.emod_emod_of_dvd _ hdvd]

/-- No number has more than 128 bits. -/
theorem value_lt (hbits : b.bits < 2 ^ b.width) (hpos : 0 < b.width) (hwidth : b.width ≤ 128) :
    b.value < 2 ^ 128 := by
  have hfits := fits_value hbits hpos
  have hpow {k : Nat} (hk : k ≤ 128) : (2 : Int) ^ k ≤ 2 ^ 128 :=
    mod_cast Nat.pow_le_pow_right (by decide : 0 < 2) hk
  rw [Fits] at hfits
  split at hfits
  · exact Int.lt_of_lt_of_le hfits.2 (hpow (by omega))
  · exact Int.lt_of_lt_of_le hfits.2 (hpow hwidth)

end Bits

theorem dvd_width {n : Numeric} {b : Bits} (hb : n.bits? = some b) : 8 ∣ b.width := by
  rw [bits?] at hb
  split at hb
  · obtain rfl := Option.some.inj hb
    exact ⟨2, rfl⟩
  · obtain ⟨⟨width, signed⟩, hinteger, rfl⟩ := Option.map_eq_some_iff.1 hb
    exact (form?_of_integerForm? hinteger).2.1

end Numeric

/-! ### The types of constants -/

theorem SimpleKind.size_le (k : SimpleKind) : k.size ≤ 16 := by
  have htable : ∀ e ∈ table, e.size ≤ 16 := by decide
  rw [size, entry?]
  cases hentry : table.find? (·.code == k.code) with
  | none => exact Nat.zero_le 16
  | some e => exact htable e (List.mem_of_find?_eq_some hentry)

namespace TypeStream

/-- The integers of a type have a size in bytes and a signedness: those of a built-in type or of a
pointer, behind some modifiers and enumerations. -/
inductive Integers (s : TypeStream) : (links : Nat) → TypeIndex → Nat × Bool → Prop
  | simple {ti} (hsimple : ti.isSimple) (hmode : ti.simpleMode = .direct) :
    Integers s 0 ti (ti.simpleKind.size, ti.simpleKind.signed)
  | simplePointer {ti size} (hsimple : ti.isSimple) (hsize : ti.simpleMode.pointerSize? = some size) :
    Integers s 0 ti (size, false)
  | pointer {ti p} (h : s.type? ti = some (.pointer p)) : Integers s 0 ti (p.size, false)
  | modifier {links ti m form} (h : s.type? ti = some (.modifier m))
    (hmodified : Integers s links m.modified form) : Integers s (links + 1) ti form
  | enum {links ti e form} (h : s.type? ti = some (.enum e))
    (hunderlying : Integers s links e.underlying form) : Integers s (links + 1) ti form

variable {s : TypeStream} {depth links : Nat} {ti : TypeIndex} {form : Nat × Bool}

theorem exists_integers (h : s.integralAt depth ti = some form) :
    ∃ links < depth, s.Integers links ti form := by
  induction depth generalizing ti with
  | zero => exact nomatch h
  | succ depth ih =>
    rw [integralAt] at h
    split at h
    · next hsimple =>
      split at h
      · next hmode =>
        cases h
        exact ⟨0, Nat.succ_pos depth, .simple hsimple hmode⟩
      · obtain ⟨size, hsize, rfl⟩ := Option.map_eq_some_iff.1 h
        exact ⟨0, Nat.succ_pos depth, .simplePointer hsimple hsize⟩
    · split at h
      · next m hm =>
        obtain ⟨links, hlinks, hform⟩ := ih h
        exact ⟨links + 1, Nat.succ_lt_succ hlinks, .modifier hm hform⟩
      · next e he =>
        obtain ⟨links, hlinks, hform⟩ := ih h
        exact ⟨links + 1, Nat.succ_lt_succ hlinks, .enum he hform⟩
      · next p hp =>
        cases h
        exact ⟨0, Nat.succ_pos depth, .pointer hp⟩
      · exact nomatch h

theorem Integers.integralAt_eq (h : s.Integers links ti form) (hdepth : links ≤ depth) :
    s.integralAt (depth + 1) ti = some form := by
  have hrecord {ti : TypeIndex} {t : TypeRecord} (ht : s.type? ti = some t) : ¬ ti.isSimple := by
    intro hsimple
    rw [type?_of_isSimple hsimple] at ht
    cases ht
  induction h generalizing depth with
  | simple hsimple hmode => rw [integralAt, if_pos hsimple, if_pos hmode]
  | simplePointer hsimple hsize =>
    rw [integralAt, if_pos hsimple, if_neg, hsize]
    · rfl
    · intro hdirect
      rw [hdirect] at hsize
      cases hsize
  | pointer h => rw [integralAt, if_neg (hrecord h), h]
  | modifier h _ ih =>
    obtain ⟨depth, rfl⟩ := Nat.exists_eq_succ_of_ne_zero (Nat.ne_zero_of_lt hdepth)
    rw [integralAt, if_neg (hrecord h), h]
    exact ih (Nat.le_of_succ_le_succ hdepth)
  | enum h _ ih =>
    obtain ⟨depth, rfl⟩ := Nat.exists_eq_succ_of_ne_zero (Nat.ne_zero_of_lt hdepth)
    rw [integralAt, if_neg (hrecord h), h]
    exact ih (Nat.le_of_succ_le_succ hdepth)

theorem integral?_eq_some_iff :
    s.integral? ti = some form ↔ ∃ links ≤ maxIntegralDepth, s.Integers links ti form := by
  rw [integral?]
  constructor
  · intro h
    obtain ⟨links, hlinks, hform⟩ := exists_integers h
    exact ⟨links, Nat.le_of_lt_succ hlinks, hform⟩
  · rintro ⟨links, hlinks, hform⟩
    exact hform.integralAt_eq hlinks

/-- Only pointers have more than 16 bytes. -/
theorem Integers.size_le (h : s.Integers links ti form) (hsigned : form.2 = true) : form.1 ≤ 16 := by
  induction h with
  | simple => exact SimpleKind.size_le _
  | simplePointer => cases hsigned
  | pointer => cases hsigned
  | modifier _ _ ih => exact ih hsigned
  | enum _ _ ih => exact ih hsigned

end TypeStream

/-- The number in a constant has the bytes that its leaf asks for. -/
theorem wellFormed_of_symbol? {r : RawRecord} {type : TypeIndex} {value : Numeric} {name : Bytes}
    (hkind : r.symbolKind = .constant) (h : r.symbol? = some (.constant type value name)) :
    value.WellFormed := by
  have hyields : Decoder.Yields Symbol.decodeConstant
      fun s => ∀ type value name, s = .constant type value name → value.WellFormed :=
    .bind_any fun _ => Numeric.yields_decode.bind fun _ hvalue => .bind_any fun _ => .pure
      fun _ _ _ heq => by cases heq; exact hvalue
  rw [RawRecord.symbol?, hkind] at h
  obtain ⟨⟨s, rest⟩, hdecode, rfl⟩ := Option.map_eq_some_iff.1 h
  exact hyields _ _ _ hdecode _ _ _ rfl

namespace Database
open Numeric
variable {d : Database} {r : RawRecord} {type : TypeIndex} {value : Numeric} {name : Bytes} {b : Bits}

/-- The size in bytes and the signedness that the type of a constant has, or else the number. -/
def constantForm (d : Database) (type : TypeIndex) (b : Bits) : Nat × Bool :=
  (d.types.integral? type).getD (b.width / 8, b.signed)

theorem constantBytes_eq (d : Database) (type : TypeIndex) (b : Bits) :
    d.constantBytes type b = Bytes.leBytes (min (d.constantForm type b).1 16) (b.extended b.signed) := by
  rw [constantBytes, constantForm]
  cases d.types.integral? type <;> rfl

theorem variableAt?_eq_constant [UnstableSort] {offset : UInt32} {isPublic : Bool}
    (hr : d.globals.recordAt offset.toNat = .ok r) (hkind : r.symbolKind = .constant)
    (hsymbol : r.symbol? = some (.constant type value name)) (hb : value.bits? = some b) :
    d.variableAt? offset isPublic = some {
      offset, isPublic, name, type, scope := .global, isExternal := false, module? := none
      location := .constant (d.constantBytes type b) } := by
  rw [variableAt?, hr]
  show d.variableOf? offset isPublic r _ = _
  rw [variableOf?, hsymbol, hkind]
  show (value.bits?.bind _) = _
  rw [hb]
  rfl

/-- The form is that of the type, as far as it has one, or else that of the number. -/
theorem constantForm_cases (d : Database) (type : TypeIndex) (b : Bits) :
    (∃ links ≤ TypeStream.maxIntegralDepth, d.types.Integers links type (d.constantForm type b))
    ∨ (∀ links ≤ TypeStream.maxIntegralDepth, ∀ form, ¬ d.types.Integers links type form)
      ∧ d.constantForm type b = (b.width / 8, b.signed) := by
  rw [constantForm]
  cases hform : d.types.integral? type with
  | none =>
    refine .inr ⟨fun links hlinks form h => ?_, rfl⟩
    rw [TypeStream.integral?_eq_some_iff.2 ⟨links, hlinks, h⟩] at hform
    cases hform
  | some form => exact .inl (TypeStream.integral?_eq_some_iff.1 hform)

theorem constantForm_le (hwidth : b.width ≤ 128) (hsigned : (d.constantForm type b).2 = true) :
    (d.constantForm type b).1 ≤ 16 := by
  rcases constantForm_cases d type b with ⟨links, -, hform⟩ | ⟨-, hform⟩
  · exact hform.size_le hsigned
  · rw [hform]
    exact Nat.div_le_of_le_mul hwidth

/-- What can be written in the form of a constant can be written in the bytes that it has. -/
theorem fits_bytes (hbits : b.bits < 2 ^ b.width) (hpos : 0 < b.width) (hwidth : b.width ≤ 128)
    (h : Fits (8 * (d.constantForm type b).1) (d.constantForm type b).2 b.value) :
    Fits (8 * min (d.constantForm type b).1 16) (d.constantForm type b).2 b.value := by
  cases hsigned : (d.constantForm type b).2 with
  | true =>
    rw [Nat.min_eq_left (constantForm_le hwidth hsigned), ← hsigned]
    exact h
  | false =>
    rw [hsigned] at h
    rcases Nat.le_total (d.constantForm type b).1 16 with hle | hge
    · rwa [Nat.min_eq_left hle]
    · rw [Nat.min_eq_right hge]
      exact ⟨h.1, Bits.value_lt hbits hpos hwidth⟩

/-- A constant has as many bytes as its type has, up to 16, and modulo their width they are its number.
If the number can be written with the size and the signedness of the type, it is read again from
them. -/
theorem variableAt?_constant [UnstableSort] {offset : UInt32} {isPublic : Bool}
    (hr : d.globals.recordAt offset.toNat = .ok r) (hkind : r.symbolKind = .constant)
    (hsymbol : r.symbol? = some (.constant type value name)) (hb : value.bits? = some b) :
    let form := d.constantForm type b
    ∃ v bs, d.variableAt? offset isPublic = some v ∧ v.type = type ∧ v.location = .constant bs
      ∧ bs.length = min 16 form.1
      ∧ (Bytes.leNat bs : Int) % 2 ^ (8 * bs.length) = b.value % 2 ^ (8 * bs.length)
      ∧ (0 < bs.length → Fits (8 * form.1) form.2 b.value →
        Bits.value ⟨Bytes.leNat bs, 8 * bs.length, form.2⟩ = b.value)
      ∧ ((∃ links ≤ TypeStream.maxIntegralDepth, d.types.Integers links type form)
        ∨ (∀ links ≤ TypeStream.maxIntegralDepth, ∀ form, ¬ d.types.Integers links type form)
          ∧ form = (b.width / 8, b.signed) ∧ Fits (8 * form.1) form.2 b.value) := by
  intro form
  obtain ⟨hbits, hpos, hwidth⟩ := (wellFormed_of_symbol? hkind hsymbol).bits_lt hb
  have hlength : (d.constantBytes type b).length = min form.1 16 := by
    rw [constantBytes_eq, Bytes.length_leBytes]
  have hmod := Bits.leNat_extended (b := b) (Nat.min_le_right form.1 16)
  rw [← constantBytes_eq, ← hlength] at hmod
  refine ⟨_, _, variableAt?_eq_constant hr hkind hsymbol hb, rfl, rfl, ?_, hmod, ?_, ?_⟩
  · rw [hlength, Nat.min_comm]
  · intro hsome hfits
    refine Bits.value_of_emod (Nat.mul_pos (by decide) hsome) ?_ hmod ?_
    · have hlt := Bytes.leNat_lt (d.constantBytes type b)
      rwa [show (256 : Nat) = 2 ^ 8 from rfl, ← Nat.pow_mul] at hlt
    · rw [hlength]
      exact fits_bytes hbits hpos hwidth hfits
  · rcases constantForm_cases d type b with hform | ⟨hnone, hform⟩
    · exact .inl hform
    · refine .inr ⟨hnone, hform, ?_⟩
      show Fits (8 * (d.constantForm type b).1) (d.constantForm type b).2 b.value
      rw [hform, Nat.mul_div_cancel' (dvd_width hb)]
      exact Bits.fits_value hbits hpos

end Database

namespace DatabasePlan

/-- A constant of one byte, with a type of four: a modified enumeration of integers. -/
def enumConstant : DatabasePlan where
  guid := defaultGuid
  types := (TypeList.addEnum {} [69] none ⟨0x74⟩ .none false).2.addModifier ⟨0x1000⟩ true false |>.2
  globals := (SymbolList.globals.add .constant (.constant ⟨0x1001⟩ ⟨.char, [0xfe]⟩ [99])).2

theorem encodable_enumConstant : enumConstant.Encodable := by decide +kernel

end DatabasePlan

namespace Database
open DatabasePlan

theorem integral?_enumConstant {d : Database} (hd : d.Holds enumConstant) :
    d.types.integral? ⟨0x1001⟩ = some (4, true) := by
  have hmodifier : d.types.type? ⟨0x1001⟩ = some (.modifier { modified := ⟨0x1000⟩, attributes := 1 }) :=
    TypeStream.type?_eq_some_iff.2 ⟨_, hd.type 1 _ rfl, by decide +kernel⟩
  have henum : d.types.type? ⟨0x1000⟩ = some (.enum {
      count := 0, properties := ⟨0⟩, underlying := ⟨0x74⟩, fieldList := .none, name := [69]
      uniqueName := none }) :=
    TypeStream.type?_eq_some_iff.2 ⟨_, hd.type 0 _ rfl, by decide +kernel⟩
  rw [TypeStream.integral?, TypeStream.integralAt, if_neg (by decide), hmodifier]
  show d.types.integralAt (15 + 1) ⟨0x1000⟩ = _
  rw [TypeStream.integralAt, if_neg (by decide), henum]
  rfl

/-- The byte is extended to four bytes, by its sign. -/
theorem variableAt?_constant_enum : ∃ _ : UnstableSort, ∃ image d v bs,
    enumConstant.encode = some image ∧ parse image.toArray {} = .ok d ∧ d.variableAt? 0 false = some v
    ∧ v.location = .constant bs ∧ bs.length = 4 ∧ Numeric.Bits.value ⟨Bytes.leNat bs, 32, true⟩ = -2 := by
  obtain ⟨sort⟩ : Nonempty UnstableSort := ⟨.stable⟩
  have hlisted : enumConstant.globals.Listed := SymbolList.Listed.globals.perform (.add _ _)
  obtain ⟨image, d, hencode, hparse, hd⟩ :=
    exists_holds encodable_enumConstant hlisted rfl (by decide) {}
  have hr := hd.global _ (List.mem_singleton_self _)
  obtain ⟨v, bs, hv, -, hlocation, hlength, -, hvalue, -⟩ :=
    @variableAt?_constant d _ ⟨0x1001⟩ ⟨.char, [0xfe]⟩ [99] ⟨0xfe, 8, true⟩ sort 0 false hr rfl
      (by decide +kernel) rfl
  rw [constantForm, integral?_enumConstant hd] at hlength hvalue
  have hfour : bs.length = 4 := hlength
  rw [hfour] at hvalue
  exact ⟨sort, image, d, v, bs, hencode, hparse, hv, hlocation, hfour, hvalue (by decide) (by decide)⟩

end Database
end Pdb
