import Pdb.Bytes

/-! # Decoders

A decoder takes a value off the front of a byte string and hands back the bytes behind it, or
fails. `Local` is the law of all decoders but `rest`: the value depends on the consumed bytes only.
`many` repeats a decoder that makes progress until it fails; main statement: `many_eq`. -/

namespace Pdb

/-- A step that reads a value from the front of a byte string. -/
abbrev Decoder (α : Type) := StateT Bytes Option α

namespace Decoder
variable {α β : Type}

def take (n : Nat) : Decoder Bytes := fun bs =>
  if (bs.take n).length = n then some (bs.take n, bs.drop n) else none

def skip (n : Nat) : Decoder Unit := fun bs => (take n bs).map fun r => ((), r.2)

def rest : Decoder Bytes := fun bs => some (bs, [])

/-- A word of `w` bytes. -/
def word (w : Nat) : Decoder Nat := fun bs => (take w bs).map fun r => (Bytes.leNat r.1, r.2)

def u8 : Decoder UInt8 := UInt8.ofNat <$> word 1
def u16 : Decoder UInt16 := UInt16.ofNat <$> word 2
def u32 : Decoder UInt32 := UInt32.ofNat <$> word 4
def u64 : Decoder UInt64 := UInt64.ofNat <$> word 8
def i8 : Decoder Int8 := UInt8.toInt8 <$> u8
def i16 : Decoder Int16 := UInt16.toInt16 <$> u16
def i32 : Decoder Int32 := UInt32.toInt32 <$> u32
def i64 : Decoder Int64 := UInt64.toInt64 <$> u64

/-- A NUL-terminated text, without its terminator. -/
def text : Decoder Bytes := fun bs =>
  match bs.dropWhile (· != 0) with
  | [] => none
  | _ :: after => some (bs.takeWhile (· != 0), after)

def fail : Decoder α := fun _ => none

/-- The values of `n` consecutive 32-bit words. -/
def u32s (n : Nat) : Decoder (List UInt32) := fun bs =>
  (take (4 * n) bs).map fun r => (chunk n r.1, r.2)
where
  chunk : Nat → Bytes → List UInt32
    | 0, _ => []
    | n + 1, bs => UInt32.ofNat (Bytes.leNat (bs.take 4)) :: chunk n (bs.drop 4)

/-! ### Locality -/

/-- What `d` reads depends on the bytes it consumes and not on the bytes behind them. -/
class Local (d : Decoder α) : Prop where
  split : ∀ {bs x r}, d bs = some (x, r) → ∃ p, bs = p ++ r ∧ ∀ r', d (p ++ r') = some (x, r')

theorem Local.length_le {d : Decoder α} (hd : Local d) {bs r : Bytes} {x : α}
    (h : d bs = some (x, r)) : r.length ≤ bs.length := by
  obtain ⟨p, rfl, -⟩ := hd.split h
  simp

theorem Local.append {d : Decoder α} (hd : Local d) {bs r : Bytes} {x : α}
    (h : d bs = some (x, r)) (s : Bytes) : d (bs ++ s) = some (x, r ++ s) := by
  obtain ⟨p, rfl, hp⟩ := hd.split h
  rw [List.append_assoc]
  exact hp _

instance pureLocal (x : α) : Local (pure x : Decoder α) where
  split h := by cases h; exact ⟨[], rfl, fun _ => rfl⟩

instance failLocal : Local (fail : Decoder α) where
  split h := by cases h

instance bindLocal (d : Decoder α) (f : α → Decoder β) [hd : Local d] [hf : ∀ a, Local (f a)] :
    Local (d >>= f) where
  split {bs y r} h := by
    obtain ⟨⟨x, m⟩, h₁, h₂⟩ := Option.bind_eq_some_iff.mp h
    obtain ⟨p, rfl, hp⟩ := hd.split h₁
    obtain ⟨q, rfl, hq⟩ := (hf x).split h₂
    refine ⟨p ++ q, by simp, fun r' => ?_⟩
    show (d (p ++ q ++ r')).bind (fun v => f v.1 v.2) = _
    rw [List.append_assoc, hp, Option.bind_some]
    exact hq _

instance mapLocal (g : α → β) (d : Decoder α) [hd : Local d] : Local (g <$> d) where
  split {bs y r} h := by
    obtain ⟨⟨x, m⟩, h₁, h₂⟩ := Option.bind_eq_some_iff.mp h
    cases h₂
    obtain ⟨p, rfl, hp⟩ := hd.split h₁
    refine ⟨p, rfl, fun r' => ?_⟩
    show (d (p ++ r')).bind (fun v => some (g v.1, v.2)) = _
    rw [hp, Option.bind_some]

instance iteLocal (c : Prop) [Decidable c] (d e : Decoder α) [Local d] [Local e] :
    Local (if c then d else e) := by
  split <;> infer_instance

theorem take_append {n : Nat} {p : Bytes} (hp : p.length = n) (r : Bytes) :
    take n (p ++ r) = some (p, r) := by
  subst hp
  simp [take]

theorem take_eq_some {n : Nat} {bs p r : Bytes} (h : take n bs = some (p, r)) :
    bs = p ++ r ∧ p.length = n := by
  unfold take at h
  split at h
  · cases h; exact ⟨(List.take_append_drop n bs).symm, ‹_›⟩
  · cases h

theorem take_map_local (n : Nat) (g : Bytes → α) :
    Local (fun bs => (take n bs).map fun r => (g r.1, r.2) : Decoder α) where
  split {bs x r} h := by
    obtain ⟨⟨p, q⟩, h₁, h₂⟩ := Option.map_eq_some_iff.mp h
    cases h₂
    obtain ⟨rfl, rfl⟩ := take_eq_some h₁
    exact ⟨p, rfl, fun r' => by simp only [take_append rfl, Option.map_some]⟩

instance takeLocal (n : Nat) : Local (take n) where
  split h := by
    obtain ⟨rfl, rfl⟩ := take_eq_some h
    exact ⟨_, rfl, take_append rfl⟩

instance skipLocal (n : Nat) : Local (skip n) := take_map_local n fun _ => ()
instance wordLocal (w : Nat) : Local (word w) := take_map_local w Bytes.leNat
instance u32sLocal (n : Nat) : Local (u32s n) := take_map_local (4 * n) (u32s.chunk n)

instance u8Local : Local u8 := mapLocal _ _
instance u16Local : Local u16 := mapLocal _ _
instance u32Local : Local u32 := mapLocal _ _
instance u64Local : Local u64 := mapLocal _ _
instance i8Local : Local i8 := mapLocal _ _
instance i16Local : Local i16 := mapLocal _ _
instance i32Local : Local i32 := mapLocal _ _
instance i64Local : Local i64 := mapLocal _ _

theorem text_append {s : Bytes} (hs : 0 ∉ s) (r : Bytes) : text (s ++ 0 :: r) = some (s, r) := by
  have h : ∀ b ∈ s, (b != 0) = true := fun b hb => by
    simpa using fun h0 : b = 0 => hs (h0 ▸ hb)
  simp [text, List.dropWhile_append_of_pos h, List.takeWhile_append_of_pos h]

theorem text_eq_some {bs s r : Bytes} (h : text bs = some (s, r)) : bs = s ++ 0 :: r ∧ 0 ∉ s := by
  unfold text at h
  split at h
  · cases h
  · rename_i b after hd
    cases h
    have hb : b = 0 := by
      have := List.head_dropWhile_not (l := bs) (fun c : UInt8 => c != 0) (by simp [hd])
      simpa [hd] using this
    subst hb
    constructor
    · rw [← hd, List.takeWhile_append_dropWhile]
    · intro hmem
      have hall := List.all_takeWhile (p := fun c : UInt8 => c != 0) (l := bs)
      simpa using List.all_eq_true.mp hall 0 hmem

instance textLocal : Local text where
  split {bs s r} h := by
    obtain ⟨rfl, hs⟩ := text_eq_some h
    exact ⟨s ++ [0], by simp, fun r' => by simpa using text_append hs r'⟩

/-! ### Repetition -/

/-- A success of `d` leaves fewer bytes than there were. -/
def Progress (d : Decoder α) : Prop := ∀ bs x r, d bs = some (x, r) → r.length < bs.length

theorem take_progress {n : Nat} (hn : 0 < n) : Progress (take n) := by
  intro bs p r h
  obtain ⟨rfl, rfl⟩ := take_eq_some h
  simpa using hn

theorem Progress.map {d : Decoder α} (hd : Progress d) (g : α → β) : Progress (g <$> d) := by
  intro bs y r h
  obtain ⟨⟨x, m⟩, h₁, h₂⟩ := Option.bind_eq_some_iff.mp h
  cases h₂
  exact hd _ _ _ h₁

/-- Progress at the first step is progress of the whole. -/
theorem Progress.bind {d : Decoder α} {f : α → Decoder β} (hd : Progress d)
    (hf : ∀ a, Local (f a)) : Progress (d >>= f) := by
  intro bs y r h
  obtain ⟨⟨x, m⟩, h₁, h₂⟩ := Option.bind_eq_some_iff.mp h
  exact Nat.lt_of_le_of_lt ((hf x).length_le h₂) (hd _ _ _ h₁)

theorem word_progress {w : Nat} (hw : 0 < w) : Progress (word w) := by
  intro bs x r h
  obtain ⟨⟨p, q⟩, h₁, h₂⟩ := Option.map_eq_some_iff.mp h
  cases h₂
  exact take_progress hw _ _ _ h₁

theorem skip_progress {n : Nat} (hn : 0 < n) : Progress (skip n) := by
  intro bs x r h
  obtain ⟨⟨p, q⟩, h₁, h₂⟩ := Option.map_eq_some_iff.mp h
  cases h₂
  exact take_progress hn _ _ _ h₁

theorem u16_progress : Progress u16 := (word_progress (by decide)).map _
theorem u32_progress : Progress u32 := (word_progress (by decide)).map _

/-- Applies `d` again and again until it fails; the values, and the bytes it failed on. -/
def many (d : Decoder α) (hd : Progress d) (bs : Bytes) : List α × Bytes :=
  match _h : d bs with
  | none => ([], bs)
  | some (x, r) => (x :: (many d hd r).1, (many d hd r).2)
termination_by bs.length
decreasing_by all_goals exact hd _ _ _ ‹_›

theorem many_eq (d : Decoder α) (hd : Progress d) (bs : Bytes) :
    many d hd bs = match d bs with
      | none => ([], bs)
      | some (x, r) => (x :: (many d hd r).1, (many d hd r).2) := by
  rw [many]
  split <;> simp_all

end Decoder
end Pdb
