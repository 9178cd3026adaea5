import Pdb.Decoder

/-! # Text

Hexadecimal numbers and bytes, and the two ways of reading bytes as UTF-8: strictly, and with a
replacement character for each maximal ill-formed part. -/

namespace Pdb.Text

def hexDigit (n : Nat) : Char :=
  if n % 16 < 10 then Char.ofNat (48 + n % 16) else Char.ofNat (87 + n % 16)

/-- The hexadecimal digits of `n`, at least `width` of them. -/
def hex (width n : Nat) : String :=
  let digits := (Nat.toDigits 16 n).map Char.toLower
  String.ofList (List.replicate (width - digits.length) '0' ++ digits)

/-- The two hexadecimal digits of a byte. -/
def hexByte (b : UInt8) : List Char := [hexDigit (b.toNat / 16), hexDigit b.toNat]

def hexBytes (bs : Bytes) : String := String.ofList (bs.flatMap hexByte)

/-- Bytes in hexadecimal with a blank between two of them, and two blanks after every fourth. -/
def hexGroups (bs : Bytes) : String :=
  String.ofList <| (bs.zipIdx.flatMap fun (b, i) =>
    (if i = 0 then [] else if i % 4 = 0 then [' ', ' '] else [' ']) ++ hexByte b)

/-- Texts with a separator between each two. -/
def join (sep : String) (parts : List String) : String := sep.intercalate parts

/-! ### UTF-8 -/

def utf8 (s : String) : Bytes := s.toList.flatMap String.utf8EncodeChar

/-- The form of a multi-byte character by its first byte: how many bytes follow, the bits it
contributes, and the range of the second byte. -/
def leadByte? (b : UInt8) : Option (Nat × Nat × UInt8 × UInt8) :=
  if 0xc2 ≤ b ∧ b ≤ 0xdf then some (1, b.toNat - 0xc0, 0x80, 0xbf)
  else if b = 0xe0 then some (2, 0, 0xa0, 0xbf)
  else if b = 0xed then some (2, 0xd, 0x80, 0x9f)
  else if 0xe1 ≤ b ∧ b ≤ 0xef then some (2, b.toNat - 0xe0, 0x80, 0xbf)
  else if b = 0xf0 then some (3, 0, 0x90, 0xbf)
  else if 0xf1 ≤ b ∧ b ≤ 0xf3 then some (3, b.toNat - 0xf0, 0x80, 0xbf)
  else if b = 0xf4 then some (3, 4, 0x80, 0x8f)
  else none

/-- Reads `n` more bytes of a character, the first of them between `lo` and `hi`. The byte that
breaks the character off is left. -/
def continuation : Nat → Nat → UInt8 → UInt8 → Bytes → Option Char × Bytes
  | 0, acc, _, _, bs => (some (Char.ofNat acc), bs)
  | _ + 1, _, _, _, [] => (none, [])
  | n + 1, acc, lo, hi, b :: bs =>
    if lo ≤ b ∧ b ≤ hi then continuation n (acc * 64 + b.toNat % 64) 0x80 0xbf bs
    else (none, b :: bs)

theorem length_continuation_le (n acc : Nat) (lo hi : UInt8) (bs : Bytes) :
    (continuation n acc lo hi bs).2.length ≤ bs.length := by
  induction n generalizing acc lo hi bs with
  | zero => simp [continuation]
  | succ n ih =>
    cases bs with
    | nil => simp [continuation]
    | cons b bs =>
      rw [continuation]
      split
      · exact Nat.le_succ_of_le (ih ..)
      · simp

/-- The next character, or `none` for a maximal ill-formed part. -/
def nextChar : Decoder (Option Char)
  | [] => none
  | b :: bs =>
    if b < 0x80 then some (some (Char.ofNat b.toNat), bs)
    else match leadByte? b with
      | none => some (none, bs)
      | some lead => some (continuation lead.1 lead.2.1 lead.2.2.1 lead.2.2.2 bs)

theorem nextChar_progress : Decoder.Progress nextChar := by
  intro bs x r h
  match bs with
  | [] => cases h
  | b :: bs =>
    rw [nextChar] at h
    split at h
    · cases h; simp
    · split at h
      · cases h; simp
      · rename_i lead _
        have := length_continuation_le lead.1 lead.2.1 lead.2.2.1 lead.2.2.2 bs
        rw [Option.some.inj h] at this
        exact Nat.lt_succ_of_le this

/-- The characters and the ill-formed parts of a byte string. -/
def chars (bs : Bytes) : List (Option Char) := (Decoder.many nextChar nextChar_progress bs).1

/-- The text of a byte string, with a replacement character for each ill-formed part. -/
def lossy (bs : Bytes) : String := String.ofList ((chars bs).map (·.getD '\uFFFD'))

/-- The text of a byte string that is well-formed. -/
def strict? (bs : Bytes) : Option (List Char) := (chars bs).mapM id

end Pdb.Text
