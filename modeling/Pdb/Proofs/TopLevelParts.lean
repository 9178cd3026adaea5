import Mathlib.Data.List.Infix
import Pdb.Proofs.Checked
import Pdb.Proofs.Utf8
import Pdb.QualifiedName

/-! # The parts of a qualified name

Where a name is split is told by counting: at each `::` with as many opened as closed brackets in front
of it, unless it overlaps the separator before it (`cutAt_iff`). A list of template arguments therefore
stays in one part (`exists_parts_arguments`). The name is scanned byte by byte in its UTF-8 form
(`scan`), with a depth that is kept as a word, and every part is cut out between two bytes at which
characters begin. Main statement: `parts_topLevel`.
-/

namespace Pdb.QualifiedName
variable {name r before args behind cs : List Char} {ps : List (List Char)} {c : Char} {depth : Int}
  {p q : Nat}

/-! ### Depths -/

/-- The brackets that a text opens, less those that it closes. -/
def level (cs : List Char) : Int := cs.count '<' - cs.count '>'

theorem level_nil : level [] = 0 := rfl

theorem level_cons (c : Char) (cs : List Char) : level (c :: cs) = deepens c + level cs := by
  simp only [level, deepens, List.count_cons, beq_iff_eq]
  grind

theorem deepens_colon : deepens ':' = 0 := rfl

theorem deepens_open : deepens '<' = 1 := rfl

theorem deepens_close : deepens '>' = -1 := rfl

theorem level_colon (cs : List Char) : level (':' :: cs) = level cs := by
  rw [level_cons, deepens_colon, Int.zero_add]

/-- Only two colons at depth 0 are a separator. -/
theorem partsFrom_push (h : ¬ (c = ':' ∧ depth = 0 ∧ r.head? = some ':')) :
    partsFrom depth (c :: r) = push c (partsFrom (depth + deepens c) r) := by
  by_cases hcolons : ∃ r', c = ':' ∧ r = ':' :: r'
  · obtain ⟨r', rfl, rfl⟩ := hcolons
    rw [partsFrom, if_neg fun hdepth => h ⟨rfl, hdepth, rfl⟩, deepens_colon, Int.add_zero]
  · exact partsFrom.eq_3 depth c r fun r' hc hr => hcolons ⟨r', hc, hr⟩

/-! ### Where a name is split -/

/-- Two parts meet at the position of the joined parts. -/
def CutAt (ps : List (List Char)) (p : Nat) : Prop :=
  ∃ outer inner, outer ≠ [] ∧ inner ≠ [] ∧ ps = outer ++ inner ∧ (join outer).length = p

/-- A `::` stands at the position, with as many brackets opened as closed in front of it. -/
def TopLevelAt (depth : Int) (name : List Char) (p : Nat) : Prop :=
  name[p]? = some ':' ∧ name[p + 1]? = some ':' ∧ depth + level (name.take p) = 0

theorem not_cutAt_singleton (cs : List Char) (p : Nat) : ¬ CutAt [cs] p := by
  rintro ⟨outer, inner, houter, hinner, happend, -⟩
  have := congrArg List.length happend
  have := List.length_pos_iff.2 houter
  have := List.length_pos_iff.2 hinner
  simp at *
  omega

theorem cutAt_push (h : ps ≠ []) : CutAt (push c ps) p ↔ ∃ q, p = q + 1 ∧ CutAt ps q := by
  constructor
  · rintro ⟨outer, inner, houter, hinner, happend, rfl⟩
    obtain ⟨o, os, rfl⟩ := List.exists_cons_of_ne_nil houter
    obtain ⟨q, qs, rfl⟩ := List.exists_cons_of_ne_nil h
    obtain ⟨rfl, rfl⟩ := List.cons.inj happend
    refine ⟨(join (q :: os)).length, ?_, q :: os, inner, List.cons_ne_nil _ _, hinner, rfl, rfl⟩
    exact congrArg List.length (join_push c (List.cons_ne_nil q os))
  · rintro ⟨_, rfl, outer, inner, houter, hinner, rfl, rfl⟩
    obtain ⟨o, os, rfl⟩ := List.exists_cons_of_ne_nil houter
    refine ⟨push c (o :: os), inner, push_ne_nil _ _, hinner, rfl, ?_⟩
    exact congrArg List.length (join_push c houter)

theorem cutAt_nil_cons (h : ps ≠ []) :
    CutAt ([] :: ps) p ↔ p = 0 ∨ ∃ q, p = q + 2 ∧ CutAt ps q := by
  constructor
  · rintro ⟨outer, inner, houter, hinner, happend, rfl⟩
    obtain ⟨o, os, rfl⟩ := List.exists_cons_of_ne_nil houter
    obtain ⟨rfl, rfl⟩ := List.cons.inj happend
    by_cases hos : os = []
    · exact .inl (by rw [hos]; rfl)
    · exact .inr ⟨_, congrArg List.length (join_nil_cons hos), os, inner, hos, hinner, rfl, rfl⟩
  · rintro (rfl | ⟨_, rfl, outer, inner, houter, hinner, rfl, rfl⟩)
    · exact ⟨[[]], ps, List.cons_ne_nil _ _, h, rfl, rfl⟩
    · exact ⟨[] :: outer, inner, List.cons_ne_nil _ _, hinner, rfl,
        congrArg List.length (join_nil_cons houter)⟩

theorem topLevelAt_succ (c : Char) (r : List Char) (q : Nat) :
    TopLevelAt depth (c :: r) (q + 1) ↔ TopLevelAt (depth + deepens c) r q := by
  simp only [TopLevelAt, List.getElem?_cons_succ, List.take_succ_cons, level_cons, Int.add_assoc]

/-- No part ends in front of a character that does not begin a separator. -/
theorem cutAt_push_iff (hps : ps ≠ []) (h : ¬ TopLevelAt depth (c :: r) 0)
    (hrest : ∀ p, CutAt ps p ↔ TopLevelAt (depth + deepens c) r p ∧ ∀ q, q + 1 = p → ¬ CutAt ps q) :
    CutAt (push c ps) p ↔
      TopLevelAt depth (c :: r) p ∧ ∀ q, q + 1 = p → ¬ CutAt (push c ps) q := by
  simp only [cutAt_push hps]
  cases p with
  | zero => exact iff_of_false nofun fun htop => h htop.1
  | succ p =>
    simp only [Nat.add_right_cancel_iff, exists_eq_left', topLevelAt_succ, hrest p, forall_eq]
    refine and_congr_right fun _ => ⟨?_, ?_⟩
    · rintro hcut ⟨q, rfl, hq⟩
      exact hcut q rfl hq
    · rintro hcut q rfl hq
      exact hcut ⟨q, rfl, hq⟩

/-- By induction on the characters that are left. -/
theorem cutAt_iff : CutAt (partsFrom depth name) p ↔
    TopLevelAt depth name p ∧ ∀ q, q + 1 = p → ¬ CutAt (partsFrom depth name) q := by
  fun_induction partsFrom depth name generalizing p with
  | case1 depth =>
    exact iff_of_false (not_cutAt_singleton [] p) fun h => Option.some_ne_none ':' h.1.1.symm
  | case2 r ih =>
    have hparts {p : Nat} := cutAt_nil_cons (p := p) (partsFrom_ne_nil 0 r)
    rcases p with _ | _ | p
    · exact iff_of_true (hparts.2 (.inl rfl))
        ⟨⟨rfl, rfl, rfl⟩, fun q hq => absurd hq (Nat.succ_ne_zero q)⟩
    · exact iff_of_false (by simp [hparts]) fun h => h.2 0 rfl (hparts.2 (.inl rfl))
    · have hbehind (q : Nat) : CutAt ([] :: partsFrom 0 r) (q + 2) ↔ CutAt (partsFrom 0 r) q := by
        simp [hparts]
      rw [hbehind, ih]
      simp only [topLevelAt_succ, deepens_colon, Int.add_zero, Nat.add_right_cancel_iff, forall_eq]
      refine and_congr_right fun _ => ?_
      cases p with
      | zero => simp [hparts]
      | succ p => simp only [Nat.add_right_cancel_iff, forall_eq, hbehind]
  | case3 depth r h ih =>
    refine cutAt_push_iff (partsFrom_ne_nil _ _) (fun htop => h ?_) fun p => ?_
    · simpa [level] using htop.2.2
    · rw [deepens_colon, Int.add_zero]
      exact ih
  | case4 depth c r h ih =>
    refine cutAt_push_iff (partsFrom_ne_nil _ _) (fun htop => ?_) fun p => ih
    obtain ⟨hcolon, hnext, -⟩ := htop
    obtain rfl := Option.some.inj hcolon
    cases r with
    | nil => cases hnext
    | cons c r => exact h r rfl (congrArg (· :: r) (Option.some.inj hnext))

/-! ### Template arguments -/

/-- Every bracket that is closed has been opened, and every one that is opened is closed. -/
def Balanced (cs : List Char) : Prop :=
  cs.count '<' = cs.count '>' ∧ ∀ before, before <+: cs → before.count '>' ≤ before.count '<'

/-- By induction on the characters inside. -/
theorem partsFrom_inside (h : ∀ before, before <+: cs → 0 < depth + level before) (r : List Char) :
    partsFrom depth (cs ++ r) = cs.foldr push (partsFrom (depth + level cs) r) := by
  induction cs generalizing depth with
  | nil => rw [level_nil, Int.add_zero, List.nil_append, List.foldr_nil]
  | cons c cs ih =>
    have hdepth : depth ≠ 0 := by
      have hpos := h [] List.nil_prefix
      rw [level_nil] at hpos
      omega
    rw [List.cons_append, partsFrom_push fun hcolons => hdepth hcolons.2.1, ih, List.foldr_cons, level_cons, Int.add_assoc]
    intro before hbefore
    have hpos := h (c :: before) (List.cons_prefix_cons.2 ⟨rfl, hbefore⟩)
    rwa [level_cons, ← Int.add_assoc] at hpos

theorem exists_append_push {ps qs rest : List (List Char)} (c : Char)
    (h : ∃ outer front, ps = outer ++ [front] ∧ qs = outer ++ front.foldr push rest) :
    ∃ outer front, push c ps = outer ++ [front] ∧ push c qs = outer ++ front.foldr push rest := by
  obtain ⟨outer, front, rfl, rfl⟩ := h
  cases outer with
  | nil => exact ⟨[], c :: front, rfl, rfl⟩
  | cons o os => exact ⟨(c :: o) :: os, front, rfl, rfl⟩

/-- What stands in front of a character that is no colon is split as if it stood alone. -/
theorem exists_partsFrom_append (depth : Int) (before : List Char) (h : c ≠ ':') (r : List Char) :
    ∃ outer front, partsFrom depth before = outer ++ [front]
      ∧ partsFrom depth (before ++ c :: r)
        = outer ++ front.foldr push (partsFrom (depth + level before) (c :: r)) := by
  fun_induction partsFrom depth before with
  | case1 depth => exact ⟨[], [], rfl, by rw [level_nil, Int.add_zero]; rfl⟩
  | case2 before ih =>
    obtain ⟨outer, front, hbefore, hall⟩ := ih
    refine ⟨[] :: outer, front, by rw [hbefore, List.cons_append], ?_⟩
    rw [List.cons_append, List.cons_append, partsFrom, if_pos rfl, hall, level_colon, level_colon,
      List.cons_append]
  | case3 depth before hdepth ih =>
    rw [List.cons_append, List.cons_append, partsFrom, if_neg hdepth, level_colon]
    exact exists_append_push ':' ih
  | case4 depth c' before hcolons ih =>
    have hpush : partsFrom depth (c' :: (before ++ c :: r))
        = push c' (partsFrom (depth + deepens c') (before ++ c :: r)) := by
      refine partsFrom_push fun ⟨hc, _, hnext⟩ => ?_
      cases before with
      | nil => exact h (Option.some.inj hnext)
      | cons d before => exact hcolons before hc (congrArg (· :: before) (Option.some.inj hnext))
    rw [List.cons_append, hpush, level_cons, ← Int.add_assoc]
    exact exists_append_push c' ih

theorem level_of_balanced (h : Balanced cs) : level cs = 0 := by
  rw [level, h.1, Int.sub_self]

theorem exists_parts_arguments (hargs : Balanced args) (h : before.count '>' ≤ before.count '<')
    (behind : List Char) : ∃ outer front back inner, parts before = outer ++ [front]
      ∧ parts (before ++ '<' :: (args ++ '>' :: behind))
        = outer ++ (front ++ '<' :: (args ++ '>' :: back)) :: inner := by
  have hopen : '<' ≠ ':' := by decide
  have hclose : '>' ≠ ':' := by decide
  obtain ⟨outer, front, hbefore, hall⟩ :=
    exists_partsFrom_append 0 before hopen (args ++ '>' :: behind)
  obtain ⟨back, inner, hbehind⟩ := List.exists_cons_of_ne_nil (partsFrom_ne_nil (level before) behind)
  refine ⟨outer, front, back, inner, hbefore, hall.trans (congrArg (outer ++ ·) ?_)⟩
  have hinside (start : List Char) (hstart : start <+: args) :
      0 < 0 + level before + deepens '<' + level start := by
    have := hargs.2 start hstart
    simp only [level, deepens_open]
    omega
  have hdepth : 0 + level before + deepens '<' + level args + deepens '>' = level before := by
    rw [level_of_balanced hargs, deepens_open, deepens_close]
    omega
  rw [partsFrom_push fun hcolons => hopen hcolons.1, partsFrom_inside hinside,
    partsFrom_push fun hcolons => hclose hcolons.1, hdepth, hbehind, push, foldr_push, push, foldr_push]

/-- A bracket that is closed without being open takes the depth below 0, and the next one brings it
back. -/
example : parts "a>b<c::d>".toList = ["a>b<c".toList, "d>".toList] := by decide

/-! ### The scan of the bytes -/

open Check

/-- The UTF-8 form of characters. -/
def utf8 (cs : List Char) : Bytes := cs.flatMap String.utf8EncodeChar

/-- A character begins at the index, or the text ends there. -/
def isBoundary (bs : Bytes) (i : Nat) : Bool :=
  match bs[i]? with
  | some b => b < 0x80 ∨ 0xc0 ≤ b
  | none => i = bs.length

/-- The bytes of a text between two indexes at which characters begin. -/
def cut (bs : Bytes) (start stop : Nat) : Option Bytes := do
  ensure (isBoundary bs start ∧ isBoundary bs stop)
  slice bs start stop

/-- A number that fits into a word of one bit more, with a sign. -/
def signed (bits : Nat) (n : Int) : Option Int := if -2 ^ bits ≤ n ∧ n < 2 ^ bits then some n else none

/-- Looks at the byte at `i`, for a part that begins at `start`. -/
def scan (bits : Nat) (bs : Bytes) (i start : Nat) (depth : Int) (parts : List Bytes) :
    Option (List Bytes) :=
  if h : i < bs.length then
    if bs[i] = '<'.toUInt8 then do
      scan bits bs (i + 1) start (← signed bits (depth + 1)) parts
    else if bs[i] = '>'.toUInt8 then do
      scan bits bs (i + 1) start (← signed bits (depth - 1)) parts
    else if bs[i] = ':'.toUInt8 ∧ depth = 0 ∧ bs[i + 1]? = some ':'.toUInt8 then do
      scan bits bs (i + 2) (i + 2) depth (parts ++ [← cut bs start i])
    else scan bits bs (i + 1) start depth parts
  else do return parts ++ [← cut bs start bs.length]
termination_by bs.length - i

theorem utf8_append (cs cs' : List Char) : utf8 (cs ++ cs') = utf8 cs ++ utf8 cs' :=
  List.flatMap_append

theorem utf8_cons (c : Char) (cs : List Char) : utf8 (c :: cs) = String.utf8EncodeChar c ++ utf8 cs :=
  List.flatMap_cons

/-- The first byte of a character tells that it is the first one. -/
theorem exists_utf8EncodeChar (c : Char) : ∃ b bs, String.utf8EncodeChar c = b :: bs
    ∧ (b < 0x80 ∨ 0xc0 ≤ b) := by
  have hlow {n : Nat} (h : n % 256 < 0x80) : UInt8.ofNat n < 0x80 := by
    rwa [UInt8.lt_iff_toNat_lt, UInt8.toNat_ofNat']
  have hhigh {n : Nat} (h : 0xc0 ≤ n % 256) : 0xc0 ≤ UInt8.ofNat n := by
    rwa [UInt8.le_iff_toNat_le, UInt8.toNat_ofNat']
  rw [String.utf8EncodeChar]
  split_ifs with h₁ h₂ h₃
  · exact ⟨_, _, rfl, .inl (hlow (by omega))⟩
  all_goals exact ⟨_, _, rfl, .inr (hhigh (by omega))⟩

theorem isBoundary_utf8 (cs cs' : List Char) : isBoundary (utf8 (cs ++ cs')) (utf8 cs).length := by
  rw [isBoundary, utf8_append, List.getElem?_append_right (Nat.le_refl _), Nat.sub_self]
  cases cs' with
  | nil => simp [utf8]
  | cons c cs' =>
    obtain ⟨b, bs, hc, hfirst⟩ := exists_utf8EncodeChar c
    rw [utf8_cons, hc]
    exact decide_eq_true hfirst

theorem cut_utf8 (cs cs' cs'' : List Char) :
    cut (utf8 (cs ++ cs' ++ cs'')) (utf8 cs).length (utf8 (cs ++ cs')).length = some (utf8 cs') := by
  have hstart := isBoundary_utf8 cs (cs' ++ cs'')
  rw [← List.append_assoc] at hstart
  rw [cut, ensure_of ⟨hstart, isBoundary_utf8 ..⟩]
  simp only [Option.bind_eq_bind, Option.bind_some]
  rw [utf8_append, slice_of_le, List.take_left, utf8_append, List.drop_left]
  · rw [utf8_append, List.length_append]
    exact Nat.le_add_right ..
  · rw [List.length_append]
    exact Nat.le_add_right ..

theorem signed_eq {bits n : Nat} (hn : n < 2 ^ bits) {d : Int} (h : d.natAbs ≤ n) :
    signed bits d = some d := by
  refine if_pos ?_
  have : ((2 ^ bits : Nat) : Int) = 2 ^ bits := by push_cast; rfl
  omega

section
variable {bits i start n : Nat} {b : UInt8} {bs : Bytes} {acc : List Bytes}

theorem scan_of_getElem? (h : bs[i]? = some b) : scan bits bs i start depth acc
    = if b = '<'.toUInt8 then
        (signed bits (depth + 1)).bind fun d => scan bits bs (i + 1) start d acc
      else if b = '>'.toUInt8 then
        (signed bits (depth - 1)).bind fun d => scan bits bs (i + 1) start d acc
      else if b = ':'.toUInt8 ∧ depth = 0 ∧ bs[i + 1]? = some ':'.toUInt8 then
        (cut bs start i).bind fun part => scan bits bs (i + 2) (i + 2) depth (acc ++ [part])
      else scan bits bs (i + 1) start depth acc := by
  obtain ⟨hlt, rfl⟩ := List.getElem?_eq_some_iff.1 h
  rw [scan, dif_pos hlt]
  rfl

theorem scan_colon (h : bs[i]? = some ':'.toUInt8) : scan bits bs i start depth acc
    = if depth = 0 ∧ bs[i + 1]? = some ':'.toUInt8 then
        (cut bs start i).bind fun part => scan bits bs (i + 2) (i + 2) depth (acc ++ [part])
      else scan bits bs (i + 1) start depth acc := by
  have hopen : ':'.toUInt8 ≠ '<'.toUInt8 := by decide
  have hclose : ':'.toUInt8 ≠ '>'.toUInt8 := by decide
  rw [scan_of_getElem? h, if_neg hopen, if_neg hclose]
  simp only [true_and]

theorem scan_end : scan bits bs bs.length start depth acc
    = (cut bs start bs.length).map fun part => acc ++ [part] := by
  rw [scan, dif_neg (Nat.lt_irrefl _)]
  cases cut bs start bs.length <;> rfl

/-- A byte that is none of those that are looked for. -/
def isPlain (b : UInt8) : Bool := b ∉ ['<'.toUInt8, '>'.toUInt8, ':'.toUInt8]

theorem scan_plain (h : ∀ k < n, ∃ b, bs[i + k]? = some b ∧ isPlain b) :
    scan bits bs i start depth acc = scan bits bs (i + n) start depth acc := by
  induction n with
  | zero => rfl
  | succ n ih =>
    obtain ⟨b, hb, hplain⟩ := h n (Nat.lt_succ_self n)
    simp only [isPlain, List.mem_cons, List.not_mem_nil, or_false, not_or, decide_eq_true_eq] at hplain
    rw [ih fun k hk => h k (Nat.lt_succ_of_lt hk), scan_of_getElem? hb, if_neg hplain.1,
      if_neg hplain.2.1, if_neg fun hcolon => hplain.2.2 hcolon.1, Nat.add_assoc]

end

/-- A byte that is the code of an ASCII character is that character. -/
theorem eq_of_toUInt8_mem {c d : Char} (hascii : d.toNat < 0x80)
    (h : d.toUInt8 ∈ String.utf8EncodeChar c) : c = d := by
  have hbyte : d.toUInt8.toNat = d.toNat := by
    rw [Char.toUInt8, UInt32.toNat_toUInt8]
    exact Nat.mod_eq_of_lt (Nat.lt_trans hascii (by decide))
  rcases Text.mem_utf8EncodeChar h with heq | hge
  · exact Char.toNat_inj.1 (heq.symm.trans hbyte)
  · omega

theorem isPlain_of_mem {b : UInt8} (hopen : c ≠ '<') (hclose : c ≠ '>') (hcolon : c ≠ ':')
    (hb : b ∈ String.utf8EncodeChar c) : isPlain b := by
  simp only [isPlain, List.mem_cons, List.not_mem_nil, or_false, not_or, decide_eq_true_eq]
  refine ⟨?_, ?_, ?_⟩ <;> rintro rfl
  · exact hopen (eq_of_toUInt8_mem (by decide) hb)
  · exact hclose (eq_of_toUInt8_mem (by decide) hb)
  · exact hcolon (eq_of_toUInt8_mem (by decide) hb)

section
variable {bits start : Nat} {done cur rest : List Char} {acc : List Bytes}

/-- The bytes behind what has been scanned. -/
theorem getElem?_utf8 (done rest : List Char) (k : Nat) :
    (utf8 (done ++ rest))[(utf8 done).length + k]? = (utf8 rest)[k]? := by
  rw [utf8_append, List.getElem?_append_right (Nat.le_add_right ..), Nat.add_sub_cancel_left]

theorem length_utf8_concat (done : List Char) (c : Char) :
    (utf8 (done ++ [c])).length = (utf8 done).length + (String.utf8EncodeChar c).length := by
  rw [utf8_append, List.length_append, utf8_cons, List.length_append]
  rfl

theorem head?_of_utf8 (h : (utf8 rest)[0]? = some ':'.toUInt8) : rest.head? = some ':' := by
  cases rest with
  | nil => cases h
  | cons c rest =>
    obtain ⟨b, bs, hc, -⟩ := exists_utf8EncodeChar c
    rw [utf8_cons, hc] at h
    obtain rfl := Option.some.inj h
    exact congrArg some (eq_of_toUInt8_mem (by decide) (hc ▸ List.mem_cons_self))

theorem scan_plainChar (h : ∀ b ∈ String.utf8EncodeChar c, isPlain b) :
    scan bits (utf8 (done ++ c :: rest)) (utf8 done).length start depth acc
      = scan bits (utf8 (done ++ c :: rest)) (utf8 (done ++ [c])).length start depth acc := by
  rw [length_utf8_concat]
  refine scan_plain fun k hk => ⟨(String.utf8EncodeChar c)[k], ?_, h _ (List.getElem_mem hk)⟩
  rw [getElem?_utf8, utf8_cons, List.getElem?_append_left hk, List.getElem?_eq_getElem hk]

theorem natAbs_deepens (c : Char) : (deepens c).natAbs ≤ 1 := by
  rw [deepens]
  split_ifs <;> decide

/-- A character is passed that does not begin a separator. -/
theorem scan_char (h : ¬ (c = ':' ∧ depth = 0 ∧ rest.head? = some ':'))
    (hdepth : signed bits (depth + deepens c) = some (depth + deepens c)) :
    scan bits (utf8 (done ++ c :: rest)) (utf8 done).length start depth acc
      = scan bits (utf8 (done ++ c :: rest)) (utf8 (done ++ [c])).length start (depth + deepens c)
        acc := by
  have hfirst (b : UInt8) (hb : (utf8 (c :: rest))[0]? = some b) :
      (utf8 (done ++ c :: rest))[(utf8 done).length]? = some b :=
    (getElem?_utf8 done (c :: rest) 0).trans hb
  by_cases hopen : c = '<'
  · obtain rfl := hopen
    rw [length_utf8_concat, scan_of_getElem? (hfirst '<'.toUInt8 rfl), if_pos rfl]
    rw [deepens_open] at hdepth ⊢
    rw [hdepth]
    rfl
  by_cases hclose : c = '>'
  · obtain rfl := hclose
    have hne : '>'.toUInt8 ≠ '<'.toUInt8 := by decide
    rw [length_utf8_concat, scan_of_getElem? (hfirst '>'.toUInt8 rfl), if_neg hne, if_pos rfl]
    rw [deepens_close] at hdepth ⊢
    rw [Int.sub_eq_add_neg, hdepth]
    rfl
  have hzero : deepens c = 0 := by rw [deepens, if_neg hopen, if_neg hclose]
  rw [hzero, Int.add_zero]
  by_cases hcolon : c = ':'
  · obtain rfl := hcolon
    rw [length_utf8_concat, scan_colon (hfirst ':'.toUInt8 rfl), if_neg]
    · rfl
    · rintro ⟨hdepth, hnext⟩
      exact h ⟨rfl, hdepth, head?_of_utf8 ((getElem?_utf8 done (':' :: rest) 1).symm.trans hnext)⟩
  · exact scan_plainChar fun b => isPlain_of_mem hopen hclose hcolon

/-- The separator is passed, and the part in front of it is cut out. -/
theorem scan_separator (done cur rest : List Char) :
    scan bits (utf8 (done ++ cur ++ ':' :: ':' :: rest)) (utf8 (done ++ cur)).length
        (utf8 done).length 0 acc
      = scan bits (utf8 (done ++ cur ++ [':', ':'] ++ rest)) (utf8 (done ++ cur ++ [':', ':'])).length
        (utf8 (done ++ cur ++ [':', ':'])).length 0 (acc ++ [utf8 cur]) := by
  have hfirst : (utf8 (done ++ cur ++ ':' :: ':' :: rest))[(utf8 (done ++ cur)).length]?
      = some ':'.toUInt8 := getElem?_utf8 (done ++ cur) (':' :: ':' :: rest) 0
  have hsecond : (utf8 (done ++ cur ++ ':' :: ':' :: rest))[(utf8 (done ++ cur)).length + 1]?
      = some ':'.toUInt8 := getElem?_utf8 (done ++ cur) (':' :: ':' :: rest) 1
  rw [scan_colon hfirst, if_pos ⟨rfl, hsecond⟩, cut_utf8,
    List.append_assoc (done ++ cur) [':', ':'], utf8_append (done ++ cur) [':', ':'], List.length_append]
  rfl

/-- The character that is passed is one more of the part. -/
theorem scan_push {ps : List (List Char)} (h : ¬ (c = ':' ∧ depth = 0 ∧ rest.head? = some ':'))
    (hlength : (utf8 (done ++ cur ++ c :: rest)).length < 2 ^ bits)
    (hdepth : depth.natAbs ≤ (utf8 (done ++ cur)).length)
    (hrest : (utf8 (done ++ (cur ++ [c]) ++ rest)).length < 2 ^ bits →
      (depth + deepens c).natAbs ≤ (utf8 (done ++ (cur ++ [c]))).length →
      scan bits (utf8 (done ++ (cur ++ [c]) ++ rest)) (utf8 (done ++ (cur ++ [c]))).length
          (utf8 done).length (depth + deepens c) acc
        = some (acc ++ ((cur ++ [c]).foldr push ps).map utf8)) :
    scan bits (utf8 (done ++ cur ++ c :: rest)) (utf8 (done ++ cur)).length (utf8 done).length depth acc
      = some (acc ++ (cur.foldr push (push c ps)).map utf8) := by
  have hname : done ++ (cur ++ [c]) ++ rest = done ++ cur ++ c :: rest := by simp
  have hpart : done ++ (cur ++ [c]) = done ++ cur ++ [c] := (List.append_assoc ..).symm
  have hnext : (depth + deepens c).natAbs ≤ (utf8 (done ++ cur ++ [c])).length := by
    obtain ⟨b, bs, hc, -⟩ := exists_utf8EncodeChar c
    have hstep := natAbs_deepens c
    rw [length_utf8_concat, hc, List.length_cons]
    omega
  have hle : (utf8 (done ++ cur ++ [c])).length ≤ (utf8 (done ++ cur ++ c :: rest)).length := by
    rw [← hname, hpart, utf8_append _ rest, List.length_append]
    exact Nat.le_add_right ..
  rw [hname, hpart] at hrest
  rw [scan_char h (signed_eq (Nat.lt_of_le_of_lt hle hlength) hnext), hrest hlength hnext,
    List.foldr_append]
  rfl

/-- By induction on the characters that are left, of a part of which `cur` has been scanned. -/
theorem scan_eq (done cur rest : List Char) (acc : List Bytes)
    (hlength : (utf8 (done ++ cur ++ rest)).length < 2 ^ bits)
    (hdepth : depth.natAbs ≤ (utf8 (done ++ cur)).length) :
    scan bits (utf8 (done ++ cur ++ rest)) (utf8 (done ++ cur)).length (utf8 done).length depth acc
      = some (acc ++ (cur.foldr push (partsFrom depth rest)).map utf8) := by
  fun_induction partsFrom depth rest generalizing done cur acc with
  | case1 depth =>
    have hcut := cut_utf8 done cur []
    rw [List.append_nil] at hcut ⊢
    rw [scan_end, hcut, foldr_push, List.append_nil]
    rfl
  | case2 r ih =>
    have hrest := ih (done ++ cur ++ [':', ':']) [] (acc ++ [utf8 cur])
    rw [List.append_nil] at hrest
    rw [scan_separator, hrest, foldr_push, List.append_nil]
    · simp
    · rwa [List.append_assoc (done ++ cur)]
    · exact Nat.zero_le _
  | case3 depth r h ih =>
    refine scan_push (fun hcolons => h hcolons.2.1) hlength hdepth fun hlength' hdepth' => ?_
    rw [deepens_colon, Int.add_zero] at hdepth' ⊢
    exact ih done (cur ++ [':']) acc hlength' hdepth'
  | case4 depth c r h ih =>
    refine scan_push ?_ hlength hdepth fun hlength' hdepth' =>
      ih done (cur ++ [c]) acc hlength' hdepth'
    rintro ⟨hcolon, -, hnext⟩
    obtain ⟨r, rfl⟩ := List.head?_eq_some_iff.1 hnext
    exact h r hcolon rfl

end

/-- For every name, whatever its brackets and colons are: the parts with their separators are the name,
and there is at least one. Two parts meet at the `::` that have as many brackets opened as closed in front
of them and do not overlap the separator before, and nowhere else. So template arguments that are balanced
stay in one part, if no more brackets are closed than opened in front of them. The scan of the bytes finds
these parts: it cuts the text only where characters begin, and its depth does not leave the word if the
bytes can be counted in it. -/
theorem parts_topLevel (name : String) :
    join (parts name.toList) = name.toList
    ∧ parts name.toList ≠ []
    ∧ (∀ p, CutAt (parts name.toList) p ↔
      name.toList[p]? = some ':' ∧ name.toList[p + 1]? = some ':'
      ∧ (name.toList.take p).count '<' = (name.toList.take p).count '>'
      ∧ ∀ q, q + 1 = p → ¬ CutAt (parts name.toList) q)
    ∧ (∀ before args behind, name.toList = before ++ '<' :: (args ++ '>' :: behind) →
      Balanced args → before.count '>' ≤ before.count '<' →
      ∃ outer front back inner, parts before = outer ++ [front]
        ∧ parts name.toList = outer ++ (front ++ '<' :: (args ++ '>' :: back)) :: inner)
    ∧ ∀ bits, (Text.utf8 name).length < 2 ^ bits →
      scan bits (Text.utf8 name) 0 0 0 []
        = some ((parts name.toList).map fun part => Text.utf8 (String.ofList part)) := by
  refine ⟨join_partsFrom 0 name.toList, partsFrom_ne_nil 0 name.toList, fun p => ?_, ?_, fun bits h => ?_⟩
  · rw [parts, cutAt_iff, TopLevelAt, and_assoc, and_assoc, level]
    refine and_congr_right fun _ => and_congr_right fun _ => and_congr_left fun _ => ?_
    omega
  · intro before args behind hname hargs hbefore
    rw [hname]
    exact exists_parts_arguments hargs hbefore behind
  · have hutf8 (cs : List Char) : Text.utf8 (String.ofList cs) = utf8 cs := by
      rw [Text.utf8, String.toList_ofList, utf8]
    have hscan : scan bits (utf8 name.toList) 0 0 0 [] = some ((parts name.toList).map utf8) :=
      scan_eq [] [] name.toList [] h (Nat.zero_le _)
    simp only [hutf8]
    exact hscan

/-- The list of arguments has another list inside, and the name goes on behind it. -/
theorem parts_topLevel_nested :
    Balanced "c::d<e::f>".toList ∧ "a::B".toList.count '>' ≤ "a::B".toList.count '<'
    ∧ (∃ outer front back inner, parts "a::B".toList = outer ++ [front]
      ∧ parts "a::B<c::d<e::f>>::G".toList
        = outer ++ (front ++ '<' :: ("c::d<e::f>".toList ++ '>' :: back)) :: inner)
    ∧ (Text.utf8 "a::B<c::d<e::f>>::G").length < 2 ^ 31
    ∧ scan 31 (Text.utf8 "a::B<c::d<e::f>>::G") 0 0 0 []
      = some (["a", "B<c::d<e::f>>", "G"].map Text.utf8) := by
  have hargs : Balanced "c::d<e::f>".toList := by
    refine ⟨by decide, ?_⟩
    simp only [← List.mem_inits]
    decide
  have hbefore : "a::B".toList.count '>' ≤ "a::B".toList.count '<' := by decide
  have hlength : (Text.utf8 "a::B<c::d<e::f>>::G").length < 2 ^ 31 := by decide
  have hparts : (parts "a::B<c::d<e::f>>::G".toList).map String.ofList = ["a", "B<c::d<e::f>>", "G"] := by
    decide
  obtain ⟨-, -, -, harguments, hscan⟩ := parts_topLevel "a::B<c::d<e::f>>::G"
  refine ⟨hargs, hbefore, harguments "a::B".toList "c::d<e::f>".toList "::G".toList rfl hargs hbefore,
    hlength, ?_⟩
  rw [hscan 31 hlength, ← hparts, List.map_map]
  rfl

end Pdb.QualifiedName
