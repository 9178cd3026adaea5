import Mathlib.Data.List.Dedup
import Pdb.Proofs.PagedStream

/-! # A sequence of requests to one reader

Whatever has been asked for before, a request is answered from the contents of the stream. What was
asked for before shows only in the two counters: `kept` are the requests whose bytes the reader
keeps, `cost` is what one more request copies. -/

namespace Pdb

/-- A request to a reader. -/
inductive ReadRequest
  | read (offset size : Nat)
  | copyInto (offset size : Nat)
  deriving DecidableEq, Repr

namespace ReadRequest

def offset : ReadRequest → Nat
  | .read offset _ => offset
  | .copyInto offset _ => offset

def size : ReadRequest → Nat
  | .read _ size => size
  | .copyInto _ size => size

/-- The size that a fault names, which is a word. -/
def namedSize : ReadRequest → Nat
  | .read _ size => size
  | .copyInto _ size => min size 0xffffffff

end ReadRequest

namespace Reader

def perform (r : Reader) : ReadRequest → Except StreamFault Bytes × Reader
  | .read offset size => r.read offset size
  | .copyInto offset size => r.copyInto offset size

/-- The answers to requests one after another, and the reader afterwards. -/
def run (r : Reader) : List ReadRequest → List (Except StreamFault Bytes) × Reader
  | [] => ([], r)
  | q :: qs => ((r.perform q).1 :: ((r.perform q).2.run qs).1, ((r.perform q).2.run qs).2)

end Reader

namespace PagedStream
variable (s : PagedStream)

/-- The bytes of the contents that a request names, if it lies in the stream. -/
def answer (q : ReadRequest) : Except StreamFault Bytes :=
  if q.offset + q.size ≤ s.length then .ok ((s.contents.drop q.offset).take q.size)
  else .error (.tooShort q.offset q.namedSize s.length)

/-- The offset and the size of a request that has to be gathered and is then kept: the pages that it
spans do not follow each other. -/
def keeps? : ReadRequest → Option (Nat × Nat)
  | .read offset size =>
    if offset + size ≤ s.length ∧ 0 < size ∧ ¬ Consecutive (s.span offset size) then
      some (offset, size)
    else none
  | .copyInto .. => none

/-- The gathered requests, each once. -/
def kept (qs : List ReadRequest) : List (Nat × Nat) := (qs.filterMap s.keeps?).dedup

/-- The number of bytes that a request copies after others. -/
def cost (qs : List ReadRequest) : ReadRequest → Nat
  | .read offset size =>
    if s.keeps? (.read offset size) = some (offset, size) ∧ (offset, size) ∉ s.kept qs then size
    else 0
  | .copyInto offset size => if offset + size ≤ s.length then size else 0

end PagedStream

namespace PagedStream
variable {s : PagedStream} {qs : List ReadRequest} {q : ReadRequest} {k : Nat × Nat}

theorem answer_of_le (h : q.offset + q.size ≤ s.length) :
    s.answer q = .ok ((s.contents.drop q.offset).take q.size) := if_pos h

theorem answer_of_not_le (h : ¬ q.offset + q.size ≤ s.length) :
    s.answer q = .error (.tooShort q.offset q.namedSize s.length) := if_neg h

theorem mem_kept : k ∈ s.kept qs ↔ ∃ q ∈ qs, s.keeps? q = some k := by
  rw [kept, List.mem_dedup, List.mem_filterMap]

theorem mem_kept_concat : k ∈ s.kept (qs ++ [q]) ↔ k ∈ s.kept qs ∨ s.keeps? q = some k := by
  simp [mem_kept, or_and_right, exists_or]

theorem kept_concat_of_none (h : s.keeps? q = none) : s.kept (qs ++ [q]) = s.kept qs := by
  simp [kept, List.filterMap_append, h]

theorem length_kept_concat (h : s.keeps? q = some k) :
    (s.kept (qs ++ [q])).length
      = if k ∈ s.kept qs then (s.kept qs).length else (s.kept qs).length + 1 := by
  have hperm : List.Perm ((qs ++ [q]).filterMap s.keeps?) (k :: qs.filterMap s.keeps?) := by
    rw [List.filterMap_append, List.filterMap_cons_some h, List.filterMap_nil]
    exact List.perm_append_singleton ..
  rw [kept, hperm.dedup.length_eq]
  by_cases hk : k ∈ qs.filterMap s.keeps?
  · have hm : k ∈ s.kept qs := List.mem_dedup.2 hk
    rw [if_pos hm, List.dedup_cons_of_mem hk, kept]
  · have hm : k ∉ s.kept qs := fun h => hk (List.mem_dedup.1 h)
    rw [if_neg hm, List.dedup_cons_of_notMem hk, List.length_cons, kept]

end PagedStream

namespace Reader
open PagedStream
variable {s : PagedStream} {r : Reader} {qs : List ReadRequest} {q : ReadRequest}

/-- What a reader of `s` has kept after the requests `qs`. -/
structure After (s : PagedStream) (qs : List ReadRequest) (r : Reader) : Prop where
  stream_eq : r.stream = s
  length_gathered : r.gathered.length = (s.kept qs).length
  lookup_gathered : ∀ k, r.gathered.lookup k
    = if k ∈ s.kept qs then some ((s.contents.drop k.1).take k.2) else none

theorem After.new (s : PagedStream) : After s [] (new s) :=
  ⟨rfl, rfl, fun _ => by simp [kept, Reader.new]⟩

/-- The reader after one more request: what is gathered for the first time is kept. -/
def next (s : PagedStream) (qs : List ReadRequest) (r : Reader) (q : ReadRequest) : Reader :=
  { r with
    gathered := match s.keeps? q with
      | some k => if k ∈ s.kept qs then r.gathered
          else (k, (s.contents.drop k.1).take k.2) :: r.gathered
      | none => r.gathered
    copied := r.copied + s.cost qs q }

theorem After.next (h : After s qs r) (q : ReadRequest) :
    After s (qs ++ [q]) (Reader.next s qs r q) := by
  rw [Reader.next]
  cases hq : s.keeps? q with
  | none =>
    refine ⟨h.stream_eq, ?_, fun k => ?_⟩ <;> rw [kept_concat_of_none hq]
    exacts [h.length_gathered, h.lookup_gathered k]
  | some k =>
    have hmem (j : Nat × Nat) : j ∈ s.kept (qs ++ [q]) ↔ j ∈ s.kept qs ∨ k = j := by
      rw [mem_kept_concat, hq, Option.some.injEq]
    by_cases hk : k ∈ s.kept qs
    · refine ⟨h.stream_eq, ?_, fun j => ?_⟩ <;> simp only [if_pos hk]
      · rw [length_kept_concat hq, if_pos hk, h.length_gathered]
      · rw [h.lookup_gathered]
        exact if_congr ⟨fun hj => (hmem j).2 (.inl hj),
          fun hj => ((hmem j).1 hj).elim id fun e => e ▸ hk⟩ rfl rfl
    · refine ⟨h.stream_eq, ?_, fun j => ?_⟩ <;> simp only [if_neg hk]
      · rw [length_kept_concat hq, if_neg hk, List.length_cons, h.length_gathered]
      · rw [List.lookup_cons]
        by_cases hj : j = k
        · subst hj
          simp [hmem]
        · rw [beq_false_of_ne hj, h.lookup_gathered]
          exact if_congr ⟨fun hm => (hmem j).2 (.inl hm),
            fun hm => ((hmem j).1 hm).elim id fun e => absurd e.symm hj⟩ rfl rfl

theorem checkBounds_eq (hl : s.length < 2 ^ 32) (offset size : Nat) :
    s.checkBounds offset size = if offset + size ≤ s.length then .ok ()
      else .error (.tooShort offset size s.length) := by
  rw [checkBounds]
  refine if_congr ⟨And.right, fun h => ⟨by omega, h⟩⟩ rfl rfl

section
variable (hin : s.InImage) (hl : s.length < 2 ^ 32) (hn : s.length ≠ PageSize.nilLength)
include hin hl hn

theorem copyInto_eq (h : After s qs r) (offset size : Nat) :
    r.copyInto offset size
      = (s.answer (.copyInto offset size), next s qs r (.copyInto offset size)) := by
  obtain rfl := h.stream_eq
  rw [copyInto, checkBounds_eq hl, next, cost]
  by_cases hb : offset + size ≤ r.stream.length
  · have hword : ¬ 2 ^ 32 ≤ size := by omega
    rw [if_neg hword, if_pos hb, if_pos hb, answer_of_le (q := .copyInto offset size) hb]
    simp only [gather_eq hin hn offset offset hb]
    rfl
  · rw [if_neg hb, if_neg hb, answer_of_not_le (q := .copyInto offset size) hb]
    by_cases hword : 2 ^ 32 ≤ size
    · rw [if_pos hword, ReadRequest.namedSize, Nat.min_eq_right (by omega)]
      rfl
    · rw [if_neg hword, ReadRequest.namedSize, Nat.min_eq_left (by omega)]
      rfl

theorem read_eq (h : After s qs r) (offset size : Nat) :
    r.read offset size = (s.answer (.read offset size), next s qs r (.read offset size)) := by
  obtain rfl := h.stream_eq
  -- a request that is not gathered leaves the reader as it is
  have hquiet (hq : r.stream.keeps? (.read offset size) = none) :
      next r.stream qs r (.read offset size) = r := by
    simp [next, cost, hq]
  rw [Reader.read, checkBounds_eq hl]
  by_cases hb : offset + size ≤ r.stream.length
  swap
  · rw [if_neg hb, answer_of_not_le (q := .read offset size) hb, hquiet (if_neg fun hk => hb hk.1)]
    rfl
  rw [if_pos hb, answer_of_le (q := .read offset size) hb]
  by_cases h0 : size = 0
  · rw [hquiet (if_neg fun hk => by omega)]
    simp [h0, ReadRequest.size]
  have hdirect := direct?_eq hin hn (Nat.pos_of_ne_zero h0) hb
  by_cases hc : Consecutive (r.stream.span offset size)
  · rw [hquiet (if_neg fun hk => hk.2.2 hc)]
    simp only [if_neg h0, hdirect, if_pos hc]
    rfl
  have hk : r.stream.keeps? (.read offset size) = some (offset, size) :=
    if_pos ⟨hb, Nat.pos_of_ne_zero h0, hc⟩
  by_cases hm : (offset, size) ∈ r.stream.kept qs
  · have hcost : r.stream.cost qs (.read offset size) = 0 := if_neg fun h => h.2 hm
    simp only [if_neg h0, hdirect, if_neg hc, h.lookup_gathered, if_pos hm, next, hk, hcost]
    rfl
  · have hcost : r.stream.cost qs (.read offset size) = size := if_pos ⟨hk, hm⟩
    simp only [if_neg h0, hdirect, if_neg hc, h.lookup_gathered, if_neg hm,
      gather_eq hin hn offset offset hb, next, hk, hcost]
    rfl

theorem perform_eq (h : After s qs r) : ∀ q, r.perform q = (s.answer q, next s qs r q)
  | .read offset size => read_eq hin hl hn h offset size
  | .copyInto offset size => copyInto_eq hin hl hn h offset size

theorem run_eq (h : After s qs r) (qs' : List ReadRequest) :
    (r.run qs').1 = qs'.map s.answer ∧ After s (qs ++ qs') (r.run qs').2 := by
  induction qs' generalizing r qs with
  | nil => simpa [run] using h
  | cons q qs' ih =>
    obtain ⟨hans, hafter⟩ := ih (h.next q)
    rw [run, perform_eq hin hl hn h]
    rw [List.append_assoc] at hafter
    exact ⟨by rw [hans, List.map_cons], hafter⟩

end

/-- A reader refines the contents of its stream. After any requests `qs`, each has been answered
with the bytes of the contents that it names, exactly if it lies in the stream; the gathered
requests are kept, each once; one more request copies what `cost` says; and a request takes the
direct path, to a piece of the image, exactly if the pages that it spans follow each other. -/
theorem run_new (hin : s.InImage) (hlen : s.length < PageSize.nilLength) (qs : List ReadRequest) :
    s.contents.length = s.length ∧
    ((new s).run qs).1 = qs.map s.answer ∧
    ((new s).run qs).2.gathered.length = (s.kept qs).length ∧
    (∀ q, (((new s).run qs).2.perform q).2.copied = ((new s).run qs).2.copied + s.cost qs q) ∧
    ∀ offset size, 0 < size → offset + size ≤ s.length →
      ((s.direct? offset size).isSome ↔ Consecutive (s.span offset size)) ∧
      (Consecutive (s.span offset size) →
        ∃ start, slice? s.image start size = some ((s.contents.drop offset).take size)) := by
  have hl : s.length < 2 ^ 32 := Nat.lt_trans hlen (by decide)
  have hn : s.length ≠ PageSize.nilLength := hlen.ne
  obtain ⟨hans, hafter⟩ := run_eq hin hl hn (After.new s) qs
  rw [List.nil_append] at hafter
  refine ⟨length_contents hin hn, hans, hafter.length_gathered, fun q => ?_,
    fun offset size h0 hb => ⟨?_, slice?_of_consecutive hin hn h0 hb⟩⟩
  · rw [perform_eq hin hl hn hafter]
    rfl
  · rw [direct?_eq hin hn h0 hb]
    split <;> simp_all

/-- Two pages in reverse order, the second one not full. -/
def scattered : PagedStream :=
  ⟨Array.ofFn fun i : Fin 1536 => UInt8.ofNat i, ⟨9⟩, [2, 0], 600, by decide⟩

theorem run_new_scattered : scattered.InImage ∧ scattered.length < PageSize.nilLength ∧
    ((new scattered).run [.read 500 50, .read 0 512, .read 500 50, .copyInto 0 600]).2.gathered.length
      = 1 := by
  have hin : scattered.InImage := by simp [InImage, scattered, PageSize.pageStart, PageSize.bytes]
  have hlen : scattered.length < PageSize.nilLength := by decide
  exact ⟨hin, hlen, (run_new hin hlen _).2.2.1.trans (by decide)⟩

end Reader
end Pdb
