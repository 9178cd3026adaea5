import Pdb.Proofs.SymbolListing

/-! # Symbols that are written in place

A `SymbolBuffer` has only the bytes that have been written, and where the open functions start in them.
A length is filled in when its record is complete, and the end of a function when it is closed, and by
then the record lies behind others. After the same calls these are the bytes of a `SymbolList`
(`Mirrors.performAll`): what is overwritten are always four bytes of a function that is still open
(`encode_closing`), and the padding, for which the bytes are counted from the start, is that of the
record (`bytes_write`).
-/

namespace Pdb

namespace Bytes

/-- As many new bytes as there are old ones take their place. -/
theorem overwrite_mid {pos : Nat} {pre old new : Bytes} (post : Bytes) (hpos : pos = pre.length)
    (h : old.length = new.length) : overwrite (pre ++ old ++ post) pos new = pre ++ new ++ post := by
  rw [hpos, overwrite, List.append_assoc pre, List.take_left, ← h, ← List.drop_drop, List.drop_left,
    List.drop_left]

theorem padTo4_add {m : Nat} (h : 4 ∣ m) (n : Nat) : padTo4 (m + n) = padTo4 n := by
  unfold padTo4
  omega

end Bytes

theorem length_symbolPadding (n : Nat) : (symbolPadding n).length = Bytes.padTo4 n := by
  unfold symbolPadding Bytes.padTo4
  rw [List.length_take]
  exact Nat.min_eq_left (Nat.le_of_lt_succ (Nat.mod_lt _ (by decide)))

namespace PlannedSymbol

theorem four_dvd_size (s : PlannedSymbol) : 4 ∣ s.record.size := by
  unfold record RawRecord.size
  rw [List.length_append, length_symbolPadding, Bytes.padTo4]
  omega

/-- In the record of a function its end has a fixed place, and nothing else depends on it. -/
theorem exists_encode_proc (offset : Nat) (kind : SymbolKind) (p : ProcSymbol) :
    ∃ front back, front.length = 8 ∧ ∀ stop,
      (record ⟨offset, kind, .proc { p with end_ := stop }⟩).encode
        = front ++ Bytes.ofU32 stop ++ back := by
  obtain ⟨tail, htail⟩ : ∃ tail, ∀ stop, (Symbol.proc { p with end_ := stop }).encode
      = Bytes.ofU32 p.parent ++ (Bytes.ofU32 stop ++ tail) :=
    ⟨_, fun stop => by simp only [Symbol.encode, List.append_assoc]; rfl⟩
  have hlength (stop : UInt32) :
      (Symbol.proc { p with end_ := stop }).encode.length = 8 + tail.length := by
    rw [htail]
    simp only [List.length_append, Bytes.ofU32, Bytes.length_leBytes]
    omega
  let size := 8 + tail.length + (symbolPadding (8 + tail.length)).length + 2
  refine ⟨Bytes.ofU16 (UInt16.ofNat size) ++ Bytes.ofU16 kind.code ++ Bytes.ofU32 p.parent,
    tail ++ symbolPadding (8 + tail.length), rfl, fun stop => ?_⟩
  rw [record, RawRecord.encode, List.length_append, hlength, htail]
  simp only [size, List.append_assoc]

end PlannedSymbol
/-- Bytes that are still being written; a record does not move any more once it is in them. -/
structure SymbolBuffer where
  bytes : Bytes
  /-- Where the records of the open functions start, innermost first. -/
  open_ : List Nat
  deriving DecidableEq, Repr

namespace SymbolBuffer
variable {b : SymbolBuffer} {l : SymbolList}

/-- Starts a record without a length, which is filled in behind the padding. -/
def write (b : SymbolBuffer) (kind : SymbolKind) (payload : Bytes) : Nat × SymbolBuffer :=
  let start := b.bytes.length
  let body := b.bytes ++ Bytes.zeros 2 ++ Bytes.ofU16 kind.code ++ payload
  let padded := body ++ symbolPadding body.length
  let length := UInt16.ofNat (padded.length - start - 2)
  (start, { b with bytes := padded.overwrite start (Bytes.ofU16 length) })

def perform (b : SymbolBuffer) (c : SymbolCall) : Nat × SymbolBuffer :=
  let (start, b') := b.write c.kind (c.symbol (b.open_.head?.getD 0) 0).encode
  match c, b.open_ with
  | .openProc .., _ => (start, { b' with open_ := start :: b.open_ })
  | .closeProc, outermost :: outer =>
    let stop := Bytes.ofU32 (UInt32.ofNat start)
    (start, { bytes := b'.bytes.overwrite (outermost + 8) stop, open_ := outer })
  | _, _ => (start, b')

def performAll (b : SymbolBuffer) (calls : List SymbolCall) : SymbolBuffer :=
  calls.foldl (fun b c => (b.perform c).2) b

/-- The padding is that of the record, since all records in front of it are padded. -/
theorem bytes_write (h : 4 ∣ b.bytes.length) (kind : SymbolKind) (payload : Bytes) :
    (b.write kind payload).2.bytes
      = b.bytes ++ RawRecord.encode ⟨kind.code, payload ++ symbolPadding payload.length⟩ := by
  have hpadding : symbolPadding (b.bytes ++ Bytes.zeros 2 ++ Bytes.ofU16 kind.code ++ payload).length
      = symbolPadding payload.length := by
    have hfront : (b.bytes ++ Bytes.zeros 2 ++ Bytes.ofU16 kind.code).length = b.bytes.length + 4 := by
      simp only [List.length_append, Bytes.zeros, List.length_replicate, Bytes.ofU16,
        Bytes.length_leBytes]
    rw [symbolPadding, List.length_append, hfront,
      Bytes.padTo4_add (Nat.dvd_add h (Nat.dvd_refl 4)), symbolPadding]
  have hlength : (b.bytes ++ Bytes.zeros 2 ++ Bytes.ofU16 kind.code ++ payload
      ++ symbolPadding payload.length).length - b.bytes.length - 2
      = (payload ++ symbolPadding payload.length).length + 2 := by
    simp only [List.length_append, Bytes.zeros, List.length_replicate, Bytes.ofU16,
      Bytes.length_leBytes]
    omega
  unfold write
  dsimp only
  rw [hpadding, hlength, List.append_assoc (b.bytes ++ Bytes.zeros 2),
    List.append_assoc (b.bytes ++ Bytes.zeros 2), Bytes.overwrite_mid _ rfl (by rfl), RawRecord.encode]
  simp only [List.append_assoc]

end SymbolBuffer

namespace SymbolList
variable {l : SymbolList} {s : PlannedSymbol}

/-- What an end is written into is a function that is open. -/
structure Scoped (l : SymbolList) : Prop extends Listed l where
  header_aligned : 4 ∣ l.header.length
  exists_proc : ∀ offset ∈ l.open_, ∃ kind p, ⟨offset, kind, .proc p⟩ ∈ l.symbols

namespace Scoped

theorem four_dvd_next (h : l.Scoped) : 4 ∣ l.next := by
  have hsymbols (n : Nat) (hn : 4 ∣ n) (ss : List PlannedSymbol) : 4 ∣ stopFrom n ss := by
    induction ss generalizing n with
    | nil => exact hn
    | cons s ss ih => exact ih _ (Nat.dvd_add hn s.four_dvd_size)
  exact hsymbols _ h.header_aligned _

theorem ofHeader {header : Bytes} (h : 4 ∣ header.length) : ({ header } : SymbolList).Scoped :=
  ⟨.ofHeader header, h, nofun⟩

protected theorem perform (h : l.Scoped) (c : SymbolCall) : (l.perform c).2.Scoped := by
  refine ⟨h.toListed.perform c, (l.header_perform c).symm ▸ h.header_aligned, fun offset hmem => ?_⟩
  have hkeeps (hmem : offset ∈ l.open_) (hhead : c = .closeProc → l.open_.head? ≠ some offset) :
      ∃ kind p, ⟨offset, kind, .proc p⟩ ∈ (l.perform c).2.symbols := by
    obtain ⟨kind, p, hs⟩ := h.exists_proc offset hmem
    exact ⟨kind, p, mem_perform hs hhead⟩
  cases c with
  | add => exact hkeeps hmem nofun
  | openProc =>
    rcases List.mem_cons.1 hmem with rfl | hmem
    · exact ⟨_, _, List.mem_append_right _ (List.mem_singleton_self _)⟩
    · exact hkeeps hmem nofun
  | closeProc =>
    rw [open_perform_closeProc] at hmem
    refine hkeeps (List.mem_of_mem_tail hmem) fun _ hhead => ?_
    obtain ⟨outer, hopen⟩ := List.head?_eq_some_iff.1 hhead
    have hnodup := h.open_nodup
    rw [hopen] at hmem hnodup
    exact (List.nodup_cons.1 hnodup).1 hmem

protected theorem performAll (h : l.Scoped) (calls : List SymbolCall) : (l.performAll calls).Scoped := by
  induction calls generalizing l with
  | nil => exact h
  | cons c calls ih => exact ih (h.perform c)

end Scoped

/-- To close a function is to overwrite its end. -/
theorem Listed.encode_closing (h : l.Listed) {start : Nat} {kind : SymbolKind} {p : ProcSymbol}
    (hs : ⟨start, kind, .proc p⟩ ∈ l.symbols) (stop : Nat) :
    ({ l with symbols := l.symbols.map (closing start stop) } : SymbolList).encode
      = l.encode.overwrite (start + 8) (Bytes.ofU32 (UInt32.ofNat stop)) := by
  obtain ⟨pre, post, hsplit⟩ := List.append_of_mem hs
  have hplaced := hsplit ▸ h.placed
  have hstart : start = (l.header ++ pre.flatMap fun s => s.record.encode).length := by
    rw [List.length_append, ← stopFrom_eq]
    exact hplaced.offset_eq
  have hothers (ss : List PlannedSymbol) (hne : ∀ s ∈ ss, s.offset ≠ start) :
      ss.map (closing start stop) = ss :=
    (List.map_congr_left fun s hs => if_neg (hne s hs)).trans (List.map_id ss)
  have hnodup := hplaced.offsets_nodup
  rw [List.map_append, List.map_cons, List.nodup_middle] at hnodup
  have hfresh := (List.nodup_cons.1 hnodup).1
  have hpre := hothers pre fun s hs hsame =>
    hfresh (List.mem_append_left _ (List.mem_map.2 ⟨s, hs, hsame⟩))
  have hpost := hothers post fun s hs hsame =>
    hfresh (List.mem_append_right _ (List.mem_map.2 ⟨s, hs, hsame⟩))
  obtain ⟨front, back, hfront, hproc⟩ := PlannedSymbol.exists_encode_proc start kind p
  have hold := hproc p.end_
  have hnew : (closing start stop ⟨start, kind, .proc p⟩).record.encode
      = front ++ Bytes.ofU32 (UInt32.ofNat stop) ++ back := by
    rw [closing, if_pos rfl]
    exact hproc (UInt32.ofNat stop)
  have hpos : start + 8 = (l.header ++ (pre.flatMap fun s => s.record.encode) ++ front).length := by
    rw [List.length_append, ← hstart, hfront]
  rw [encode, encode, hsplit, List.map_append, List.map_cons, hpre, hpost]
  simp only [List.flatMap_append, List.flatMap_cons, hnew, hold]
  have hmid := @Bytes.overwrite_mid (start + 8) _ (Bytes.ofU32 p.end_) (Bytes.ofU32 (UInt32.ofNat stop))
    (back ++ post.flatMap fun s => s.record.encode) hpos (by rfl)
  simp only [List.append_assoc] at hmid ⊢
  exact hmid.symm

end SymbolList

namespace SymbolBuffer
open SymbolList
variable {b : SymbolBuffer} {l : SymbolList}

/-- The buffer in which the same symbols have been written. -/
structure Mirrors (b : SymbolBuffer) (l : SymbolList) : Prop where
  bytes_eq : b.bytes = l.encode
  open_eq : b.open_ = l.open_

def start (header : Bytes) : SymbolBuffer := ⟨header, []⟩

namespace Mirrors

theorem start (header : Bytes) : (start header).Mirrors { header } :=
  ⟨(List.append_nil header).symm, rfl⟩

theorem write (h : b.Mirrors l) (hl : l.Scoped) (kind : SymbolKind) (symbol : Symbol) :
    (b.write kind symbol.encode).1 = l.next
      ∧ (b.write kind symbol.encode).2.Mirrors (l.add kind symbol).2 := by
  have hlength : b.bytes.length = l.next := h.bytes_eq ▸ l.length_encode
  refine ⟨hlength, ?_, h.open_eq⟩
  rw [bytes_write (hlength ▸ hl.four_dvd_next), h.bytes_eq, encode, encode, add, List.append_assoc]
  simp only [List.flatMap_append, List.flatMap_cons, List.flatMap_nil, List.append_nil,
    PlannedSymbol.record]

/-- A call returns where the record starts, and the buffer goes on to have the bytes of the list. -/
protected theorem perform (h : b.Mirrors l) (hl : l.Scoped) (c : SymbolCall) :
    (b.perform c).1 = (l.perform c).1 ∧ (b.perform c).2.Mirrors (l.perform c).2 := by
  have hopen := h.open_eq
  obtain ⟨hstart, hwritten⟩ := h.write hl c.kind (c.symbol (b.open_.head?.getD 0) 0)
  rw [fst_perform]
  cases c with
  | add kind symbol => exact ⟨hstart, hwritten⟩
  | openProc kind type address length name =>
    refine ⟨hstart, hwritten.bytes_eq.trans ?_, congrArg₂ List.cons hstart hopen⟩
    rw [hopen]
    rfl
  | closeProc =>
    cases hcase : b.open_ with
    | nil =>
      have hperform : b.perform .closeProc = b.write .end_ [] := by
        unfold perform
        rw [hcase]
        rfl
      rw [hperform, perform_closeProc_of_nil (hopen ▸ hcase)]
      exact ⟨hstart, hwritten⟩
    | cons outermost outer =>
      have hmem : outermost ∈ l.open_ := hopen ▸ hcase ▸ List.mem_cons_self
      obtain ⟨kind, p, hs⟩ := hl.exists_proc outermost hmem
      have hlisted : (l.add .end_ .end_).2.Listed := hl.toListed.perform (.add .end_ .end_)
      have hclosing := hlisted.encode_closing (List.mem_append_left _ hs) l.next
      have hperform : b.perform .closeProc = ((b.write .end_ []).1, ⟨(b.write .end_ []).2.bytes.overwrite
          (outermost + 8) (Bytes.ofU32 (UInt32.ofNat (b.write .end_ []).1)), outer⟩) := by
        unfold perform
        rw [hcase]
        rfl
      rw [hperform, perform_closeProc_of_cons (hopen ▸ hcase)]
      refine ⟨hstart, ?_, rfl⟩
      have hnext : (b.write .end_ []).1 = l.next := hstart
      have hbytes : (b.write .end_ []).2.bytes = (l.add .end_ .end_).2.encode := hwritten.bytes_eq
      dsimp only
      rw [hbytes, hnext, ← hclosing]
      rfl

protected theorem performAll (h : b.Mirrors l) (hl : l.Scoped) (calls : List SymbolCall) :
    (b.performAll calls).Mirrors (l.performAll calls) := by
  induction calls generalizing b l with
  | nil => exact h
  | cons c calls ih => exact ih (h.perform hl c).2 (hl.perform c)

end Mirrors
end SymbolBuffer
end Pdb
