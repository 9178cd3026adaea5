import Mathlib.Tactic.SplitIfs
import Pdb.Text

/-! # Text as UTF-8

What `utf8` writes of a text is well-formed and is read as that text. A character has one of four
forms, which its first byte tells; the bounds on the second byte leave out only what is no character.
-/

namespace Pdb.Text

theorem toNat_ofNat_of_lt {n : Nat} (h : n < 256) : (UInt8.ofNat n).toNat = n := by
  rw [UInt8.toNat_ofNat']
  omega

theorem continuation_succ {n acc k : Nat} {lo hi : UInt8} {bs : Bytes} (hlo : lo.toNat ≤ k + 0x80)
    (hhi : k + 0x80 ≤ hi.toNat) (hk : k < 64) :
    continuation (n + 1) acc lo hi (UInt8.ofNat (k + 0x80) :: bs)
      = continuation n (acc * 64 + k) 0x80 0xbf bs := by
  have hnat := toNat_ofNat_of_lt (show k + 0x80 < 256 by omega)
  have hmod : (k + 0x80) % 64 = k := by omega
  rw [continuation, if_pos, hnat, hmod]
  rw [UInt8.le_iff_toNat_le, UInt8.le_iff_toNat_le, hnat]
  exact ⟨hlo, hhi⟩

/-- Any byte but the first may be any continuation byte. -/
theorem continuation_inner {n acc k : Nat} {bs : Bytes} (hk : k < 64) :
    continuation (n + 1) acc 0x80 0xbf (UInt8.ofNat (k + 0x80) :: bs)
      = continuation n (acc * 64 + k) 0x80 0xbf bs :=
  continuation_succ (Nat.le_add_left _ _) (by simp; omega) hk

theorem nextChar_lead {n : Nat} {lead : Nat × Nat × UInt8 × UInt8} {bs : Bytes}
    (hlead : leadByte? (UInt8.ofNat n) = some lead) (hn : 0x80 ≤ n) (hn' : n < 256) :
    nextChar (UInt8.ofNat n :: bs)
      = some (continuation lead.1 lead.2.1 lead.2.2.1 lead.2.2.2 bs) := by
  rw [nextChar, if_neg, hlead]
  rw [UInt8.lt_iff_toNat_lt, toNat_ofNat_of_lt hn']
  exact Nat.not_lt.2 hn

theorem leadByte?_two : ∀ k < 32, k < 2 ∨
    leadByte? (UInt8.ofNat (k + 0xc0)) = some (1, k, 0x80, 0xbf) := by
  decide

theorem leadByte?_three : ∀ k < 16, leadByte? (UInt8.ofNat (k + 0xe0))
    = some (2, k, if k = 0 then 0xa0 else 0x80, if k = 13 then 0x9f else 0xbf) := by
  decide

theorem leadByte?_four : ∀ k < 5, leadByte? (UInt8.ofNat (k + 0xf0))
    = some (3, k, if k = 0 then 0x90 else 0x80, if k = 4 then 0x8f else 0xbf) := by
  decide

/-- By the form of the character. -/
theorem nextChar_utf8EncodeChar (c : Char) (bs : Bytes) :
    nextChar (String.utf8EncodeChar c ++ bs) = some (some c, bs) := by
  have hvalid : c.val.toNat < 0xd800 ∨ 0xdfff < c.val.toNat ∧ c.val.toNat < 0x110000 := c.valid
  have hc : Char.ofNat c.val.toNat = c := c.ofNat_toNat
  rw [String.utf8EncodeChar]
  generalize c.val.toNat = v at hvalid hc
  split_ifs with h₁ h₂ h₃
  · have hv := toNat_ofNat_of_lt (show v < 256 by omega)
    rw [List.cons_append, nextChar, if_pos, hv, hc, List.nil_append]
    rw [UInt8.lt_iff_toNat_lt, hv]
    exact Nat.lt_succ_of_le h₁
  · have hk : v / 64 % 32 = v / 64 := by omega
    have hsum : v / 64 * 64 + v % 64 = v := by omega
    rw [hk, List.cons_append, nextChar_lead ((leadByte?_two _ (by omega)).resolve_left (by omega)) (by omega)
      (by omega), List.cons_append, continuation_inner (by omega), hsum]
    simp only [continuation, hc, List.nil_append]
  · have hk : v / 4096 % 16 = v / 4096 := by omega
    have hsum : (v / 4096 * 64 + v / 64 % 64) * 64 + v % 64 = v := by omega
    rw [hk, List.cons_append, nextChar_lead (leadByte?_three _ (by omega)) (by omega) (by omega),
      List.cons_append, continuation_succ ?lo ?hi (by omega), List.cons_append,
      continuation_inner (by omega), hsum]
    · simp only [continuation, hc, List.nil_append]
    case lo => split_ifs <;> simp <;> omega
    case hi => split_ifs <;> simp <;> omega
  · have hk : v / 262144 % 8 = v / 262144 := by omega
    have hsum : ((v / 262144 * 64 + v / 4096 % 64) * 64 + v / 64 % 64) * 64 + v % 64 = v := by omega
    rw [hk, List.cons_append, nextChar_lead (leadByte?_four _ (by omega)) (by omega) (by omega),
      List.cons_append, continuation_succ ?lo ?hi (by omega), List.cons_append,
      continuation_inner (by omega), List.cons_append, continuation_inner (by omega), hsum]
    · simp only [continuation, hc, List.nil_append]
    case lo => split_ifs <;> simp <;> omega
    case hi => split_ifs <;> simp <;> omega

theorem chars_utf8_append (s : String) (bs : Bytes) :
    chars (utf8 s ++ bs) = s.toList.map some ++ chars bs := by
  rw [utf8]
  induction s.toList with
  | nil => rfl
  | cons c cs ih =>
    rw [List.flatMap_cons, List.append_assoc, chars, Decoder.many_eq]
    simp only [nextChar_utf8EncodeChar]
    exact congrArg (some c :: ·) ih

theorem chars_nil : chars [] = [] := by
  rw [chars, Decoder.many_eq]
  rfl

theorem chars_utf8 (s : String) : chars (utf8 s) = s.toList.map some := by
  have h := chars_utf8_append s []
  rwa [List.append_nil, chars_nil, List.append_nil] at h

/-- A text is read as it has been written. -/
theorem lossy_utf8 (s : String) : lossy (utf8 s) = s := by
  rw [lossy, chars_utf8, List.map_map]
  exact (congrArg String.ofList (List.map_id s.toList)).trans String.ofList_toList

theorem strict?_utf8 (s : String) : strict? (utf8 s) = some s.toList := by
  rw [strict?, chars_utf8]
  induction s.toList with
  | nil => rfl
  | cons c cs ih => simp [ih]

theorem utf8_append (s t : String) : utf8 (s ++ t) = utf8 s ++ utf8 t := by
  rw [utf8, String.toList_append, List.flatMap_append]
  rfl

/-- A byte of a text is the code of a character of it, or is beyond ASCII. -/
theorem mem_utf8EncodeChar {c : Char} {b : UInt8} (h : b ∈ String.utf8EncodeChar c) :
    b.toNat = c.toNat ∨ 0x80 ≤ b.toNat := by
  rw [String.utf8EncodeChar] at h
  rw [show c.toNat = c.val.toNat from rfl]
  generalize c.val.toNat = v at h ⊢
  split_ifs at h
  · rw [List.mem_singleton.1 h, toNat_ofNat_of_lt (by omega)]
    exact .inl rfl
  all_goals
    refine .inr ?_
    revert b
    simp only [List.mem_cons, List.not_mem_nil, or_false, forall_eq_or_imp, forall_eq,
      UInt8.toNat_ofNat']
    omega

theorem mem_utf8 {s : String} {b : UInt8} (h : b ∈ utf8 s) :
    (∃ c ∈ s.toList, b.toNat = c.toNat) ∨ 0x80 ≤ b.toNat := by
  obtain ⟨c, hc, hb⟩ := List.mem_flatMap.1 h
  exact (mem_utf8EncodeChar hb).imp_left fun heq => ⟨c, hc, heq⟩

end Pdb.Text
