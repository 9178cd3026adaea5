import Pdb.Proofs.Reader

/-! # The two read paths on any page list

Nothing is asked of the pages here: they may lie beyond the end of the image, partly or as a whole,
and they may repeat. If the pages of a request follow each other, then gathering takes them as one
run, so it hands out the same piece of the image or misses the same page: `gather_of_direct?`. What a
reader keeps is what gathering comes to (`KeptBy`), so no answer depends on the requests before it.
Main statement: `read_eq_copyInto`.
-/

namespace Pdb

namespace PagedStream
variable {s : PagedStream} {offset size page : Nat} {next : List Nat}
  {answer : Except StreamFault Bytes}

theorem pageStart_add_div (size : PageSize) (page pos : Nat) :
    (size.pageStart page + size.offsetInPage pos) / size.bytes = page := by
  have hwithin : size.offsetInPage pos < size.bytes := Nat.mod_lt _ size.bytes_pos
  rw [PageSize.pageStart, Nat.mul_comm, Nat.mul_add_div size.bytes_pos, Nat.div_eq_of_lt hwithin,
    Nat.add_zero]

theorem direct?_of_span (hspan : s.span offset size = page :: next) :
    s.direct? offset size = if Consecutive (page :: next) then
      match slice? s.image (s.pageSize.pageStart page + s.pageSize.offsetInPage offset) size with
      | some bs => some (.ok bs)
      | none => some (.error (.missingPage page))
    else none := by
  rw [direct?, ← span, hspan]
  exact if_congr (consecutive_iff page next) rfl rfl

theorem length_ne_of_direct? (h : s.direct? offset size = some answer) :
    s.length ≠ PageSize.nilLength := by
  intro hl
  have hpages : s.pages = [] := by
    rw [← List.length_eq_zero_iff, s.pages_length, PageSize.pagesFor, if_pos hl]
  rw [direct?, hpages, List.drop_nil, List.take_nil] at h
  cases h

theorem run?_of_consecutive (hl : s.length ≠ PageSize.nilLength) (h0 : 0 < size)
    (h : offset + size ≤ s.length) (hspan : s.span offset size = page :: next)
    (hc : Consecutive (page :: next)) :
    s.run? offset size = some (s.pageSize.pageStart page + s.pageSize.offsetInPage offset, size) := by
  obtain ⟨page', next', hp, hspan'⟩ := span_eq hl h0 h
  obtain ⟨page'', next'', hp', hrun⟩ := run?_eq hl h0 h
  obtain ⟨rfl, rfl⟩ := List.cons.inj (hp.symm.trans hp')
  obtain ⟨rfl, rfl⟩ := List.cons.inj (hspan.symm.trans hspan')
  -- the run has all pages of the request, so it is cut where the request ends
  have hle := within_of_consecutive hl h0 h hp hc
  rw [hrun, Nat.min_eq_left (by omega)]

/-- Gathering comes to what the direct path answers. -/
theorem gather_of_direct? (h0 : 0 < size) (h : offset + size ≤ s.length)
    (hdirect : s.direct? offset size = some answer) : (s.gather offset offset size).1 = answer := by
  have hl := length_ne_of_direct? hdirect
  obtain ⟨page, next, -, hspan⟩ := span_eq hl h0 h
  rw [direct?_of_span hspan] at hdirect
  split_ifs at hdirect with hc
  have hrun := run?_of_consecutive hl h0 h hspan hc
  rw [gather, if_neg h0.ne']
  split
  · next hnone => cases hrun.symm.trans hnone
  · next hsome =>
    cases hrun.symm.trans hsome
    cases hslice : slice? s.image (s.pageSize.pageStart page + s.pageSize.offsetInPage offset) size with
    | none =>
      rw [hslice] at hdirect
      cases hdirect
      rw [pageStart_add_div]
    | some bs =>
      rw [hslice] at hdirect
      cases hdirect
      rw [Nat.sub_self, gather, if_pos rfl]
      simp [Except.map]

theorem checkBounds_cases (s : PagedStream) (offset size : Nat) :
    s.checkBounds offset size = .ok () ∧ offset + size ≤ s.length
      ∨ s.checkBounds offset size = .error (.tooShort offset size s.length) := by
  rw [checkBounds]
  split
  · next h => exact .inl ⟨rfl, h.2⟩
  · exact .inr rfl

/-- The two ways of reading give the same bytes, or fail for the same cause. -/
theorem read_eq_copy (s : PagedStream) (offset size : Nat) :
    s.read offset size = s.copy offset size := by
  rw [read, copy]
  rcases s.checkBounds_cases offset size with ⟨hb, h⟩ | hb <;> rw [hb]
  · show (if size = 0 then _ else _) = (s.gather offset offset size).1
    by_cases h0 : size = 0
    · rw [if_pos h0, h0, gather, if_pos rfl]
      rfl
    · rw [if_neg h0]
      cases hdirect : s.direct? offset size with
      | none => rfl
      | some answer => exact (gather_of_direct? (Nat.pos_of_ne_zero h0) h hdirect).symm
  · rfl

/-- The answer of the stream itself to a request. -/
def respond (s : PagedStream) : ReadRequest → Except StreamFault Bytes
  | .read offset size => s.read offset size
  | .copyInto offset size =>
    if 2 ^ 32 ≤ size then .error (.tooShort offset 0xffffffff s.length) else s.copy offset size

end PagedStream

namespace Reader
open PagedStream
variable {s : PagedStream} {r : Reader} {offset size : Nat}

/-- What a reader of `s` has kept is what gathering comes to. -/
structure KeptBy (s : PagedStream) (r : Reader) : Prop where
  stream_eq : r.stream = s
  gathered : ∀ k bs, r.gathered.lookup k = some bs → (s.gather k.1 k.1 k.2).1 = .ok bs

theorem KeptBy.new (s : PagedStream) : KeptBy s (new s) := ⟨rfl, nofun⟩

theorem KeptBy.copied (h : KeptBy s r) (n : Nat) : KeptBy s { r with copied := n } :=
  ⟨h.stream_eq, h.gathered⟩

theorem KeptBy.add {bs : Bytes} (h : KeptBy s r) (hbs : (s.gather offset offset size).1 = .ok bs) :
    KeptBy s { r with gathered := ((offset, size), bs) :: r.gathered } := by
  refine ⟨h.stream_eq, fun k cs hcs => ?_⟩
  by_cases hk : k = (offset, size)
  · subst hk
    rw [List.lookup_cons_self] at hcs
    rwa [← Option.some.inj hcs]
  · rw [List.lookup_cons, beq_false_of_ne hk] at hcs
    exact h.gathered k cs hcs

/-- What one request does: it is answered by the stream, and a request that fails adds nothing to what
is kept. -/
structure Serves (s : PagedStream) (answer : Except StreamFault Bytes) (r : Reader)
    (outcome : Except StreamFault Bytes × Reader) : Prop where
  answer_eq : outcome.1 = answer
  keptBy : KeptBy s outcome.2
  kept_of_error : ∀ fault, answer = .error fault → outcome.2.gathered = r.gathered

theorem serves_copyInto (h : KeptBy s r) (offset size : Nat) :
    Serves s (s.respond (.copyInto offset size)) r (r.copyInto offset size) := by
  obtain rfl := h.stream_eq
  rw [copyInto, respond]
  by_cases hword : 2 ^ 32 ≤ size
  · rw [if_pos hword, if_pos hword]
    exact ⟨rfl, h, fun _ _ => rfl⟩
  rw [if_neg hword, if_neg hword, copy]
  rcases r.stream.checkBounds_cases offset size with ⟨hb, -⟩ | hb <;> rw [hb]
  · exact ⟨rfl, h.copied _, fun _ _ => rfl⟩
  · exact ⟨rfl, h, fun _ _ => rfl⟩

theorem serves_read (h : KeptBy s r) (offset size : Nat) :
    Serves s (s.respond (.read offset size)) r (r.read offset size) := by
  obtain rfl := h.stream_eq
  rw [Reader.read, respond, PagedStream.read]
  rcases r.stream.checkBounds_cases offset size with ⟨hb, -⟩ | hb <;> rw [hb]
  swap
  · exact ⟨rfl, h, fun _ _ => rfl⟩
  show Serves _ (if size = 0 then _ else _) r (if size = 0 then _ else _)
  by_cases h0 : size = 0
  · rw [if_pos h0, if_pos h0]
    exact ⟨rfl, h, fun _ _ => rfl⟩
  rw [if_neg h0, if_neg h0]
  cases r.stream.direct? offset size with
  | some answer => exact ⟨rfl, h, fun _ _ => rfl⟩
  | none =>
    dsimp only
    cases hkept : r.gathered.lookup (offset, size) with
    | some bs =>
      have hbs := h.gathered _ _ hkept
      exact ⟨hbs.symm, h, fun _ _ => rfl⟩
    | none =>
      dsimp only
      cases hanswer : (r.stream.gather offset offset size).1 with
      | error fault => exact ⟨rfl, h.copied _, fun _ _ => rfl⟩
      | ok bs =>
        have hcopied := h.copied (r.copied + (r.stream.gather offset offset size).2)
        exact ⟨rfl, hcopied.add hanswer, fun _ h => by cases h⟩

theorem serves_perform (h : KeptBy s r) : ∀ q, Serves s (s.respond q) r (r.perform q)
  | .read offset size => serves_read h offset size
  | .copyInto offset size => serves_copyInto h offset size

theorem keptBy_run (h : KeptBy s r) (qs : List ReadRequest) :
    (r.run qs).1 = qs.map s.respond ∧ KeptBy s (r.run qs).2 := by
  induction qs generalizing r with
  | nil => exact ⟨rfl, h⟩
  | cons q qs ih =>
    obtain ⟨hanswer, hkept, -⟩ := serves_perform h q
    obtain ⟨hanswers, hafter⟩ := ih hkept
    exact ⟨by rw [run, hanswer, hanswers, List.map_cons], hafter⟩

/-- Whatever the pages of the stream are, and whatever has been asked for before, reading a range and
copying it give the same bytes or fail for the same cause. A request that fails adds nothing to what
is kept, and changes no later answer. -/
theorem read_eq_copyInto (s : PagedStream) (qs : List ReadRequest) :
    let r := ((new s).run qs).2
    (∀ offset size : UInt32,
      (r.read offset.toNat size.toNat).1 = (r.copyInto offset.toNat size.toNat).1)
    ∧ ∀ q fault, (r.perform q).1 = .error fault →
      (r.perform q).2.gathered = r.gathered
      ∧ ∀ qs', ((r.perform q).2.run qs').1 = (r.run qs').1 := by
  intro r
  have hr : KeptBy s r := (keptBy_run (.new s) qs).2
  refine ⟨fun offset size => ?_, fun q fault hfault => ?_⟩
  · have hword : ¬ 2 ^ 32 ≤ size.toNat := Nat.not_le.2 size.toNat_lt
    rw [(serves_read hr _ _).answer_eq, (serves_copyInto hr _ _).answer_eq, respond, respond,
      if_neg hword, read_eq_copy]
  · have hq := serves_perform hr q
    refine ⟨hq.kept_of_error fault (hq.answer_eq ▸ hfault), fun qs' => ?_⟩
    rw [(keptBy_run hq.keptBy qs').1, (keptBy_run hr qs').1]

/-- Three pages, the last of which is beyond the end of the image. -/
def broken : PagedStream :=
  ⟨⟨List.replicate 512 1 ++ List.replicate 512 2⟩, ⟨9⟩, [1, 0, 5], 1536, by decide⟩

/-- A gathered request is kept, then one fails for the last page, and the first is answered again. -/
theorem read_eq_copyInto_broken :
    let r := ((new broken).run [.read 510 4, .copyInto 0 512]).2
    (r.perform (.read 1020 20)).1 = .error (.missingPage 5)
    ∧ (r.copyInto 1020 20).1 = .error (.missingPage 5)
    ∧ (r.perform (.read 1020 20)).2.gathered = [((510, 4), [2, 2, 1, 1])]
    ∧ ((r.perform (.read 1020 20)).2.run [.read 510 4]).1 = [.ok [2, 2, 1, 1]] := by
  have hfault : (((new broken).run [.read 510 4, .copyInto 0 512]).2.perform (.read 1020 20)).1
      = .error (.missingPage 5) := by decide +kernel
  have hkept : ((new broken).run [.read 510 4, .copyInto 0 512]).2.gathered
      = [((510, 4), [2, 2, 1, 1])] := by decide +kernel
  have hlater : (((new broken).run [.read 510 4, .copyInto 0 512]).2.run [.read 510 4]).1
      = [.ok [2, 2, 1, 1]] := by decide +kernel
  have hall := read_eq_copyInto broken [.read 510 4, .copyInto 0 512]
  generalize ((new broken).run [.read 510 4, .copyInto 0 512]).2 = r at *
  obtain ⟨hsame, hfailed⟩ := hall
  obtain ⟨hkept', hlater'⟩ := hfailed _ _ hfault
  exact ⟨hfault, (hsame 1020 20).symm.trans hfault, hkept'.trans hkept, (hlater' _).trans hlater⟩

end Reader
end Pdb
