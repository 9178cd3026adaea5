import Pdb.Proofs.WrittenRecords

/-! # Lists of symbols, call by call

A `SymbolCall` is one call that adds a symbol to a `SymbolList`, and it returns where the record of
the symbol begins. Records do not move: `Listed` says that each symbol knows its place, and all calls
keep it. A later call changes a symbol only if it is an open function, and then only its end: what
stands in the finished list is `SymbolCall.planned` (`planned_mem_performAll`), and `stop?` finds the
call that closes a function by counting.
-/

namespace Pdb

/-- One call for a list of symbols. -/
inductive SymbolCall
  | add (kind : SymbolKind) (symbol : Symbol)
  | openProc (kind : SymbolKind) (type : TypeIndex) (address : SectionOffset) (length : UInt32)
    (name : Bytes)
  | closeProc
  deriving DecidableEq, Repr

namespace SymbolCall

def kind : SymbolCall → SymbolKind
  | add kind _ => kind
  | openProc kind .. => kind
  | closeProc => .end_

/-- The symbol that a call adds. A function has the offset of the function around it and that of its
end. -/
def symbol (parent stop : Nat) : SymbolCall → Symbol
  | add _ symbol => symbol
  | openProc _ type address length name => .proc {
    parent := UInt32.ofNat parent, end_ := UInt32.ofNat stop, next := 0, length
    debugStart := 0, debugEnd := length, type, address, flags := 0, name }
  | closeProc => .end_

def planned (offset parent stop : Nat) (c : SymbolCall) : PlannedSymbol :=
  ⟨offset, c.kind, c.symbol parent stop⟩

/-- The references of a function are words, whatever they are. -/
theorem size_planned (c : SymbolCall) (offset parent stop : Nat) :
    (c.planned offset parent stop).record.size = (c.planned 0 0 0).record.size := by
  cases c with
  | add | closeProc => rfl
  | openProc =>
    simp only [planned, symbol, PlannedSymbol.record, RawRecord.size, Symbol.encode, List.length_append,
      Bytes.ofU32, Bytes.length_leBytes]

end SymbolCall

namespace PlannedSymbol

/-- The record that ends a function. -/
def ending (offset : Nat) : PlannedSymbol := ⟨offset, .end_, .end_⟩

def closeAt (s : PlannedSymbol) : Option Nat → PlannedSymbol
  | some stop => s.close stop
  | none => s

@[simp] theorem offset_close (s : PlannedSymbol) (stop : Nat) : (s.close stop).offset = s.offset := by
  rw [close]
  split <;> rfl

/-- The end of a function has a fixed length. -/
@[simp] theorem size_close (s : PlannedSymbol) (stop : Nat) :
    (s.close stop).record.size = s.record.size := by
  rw [close]
  split
  · next p h =>
    simp only [record, h, RawRecord.size, Symbol.encode, List.length_append, Bytes.ofU32,
      Bytes.length_leBytes]
  · rfl

end PlannedSymbol

namespace SymbolList
variable {l : SymbolList} {s : PlannedSymbol} {c : SymbolCall} {calls : List SymbolCall}

def perform (l : SymbolList) : SymbolCall → Nat × SymbolList
  | .add kind symbol => l.add kind symbol
  | .openProc kind type address length name => l.openProc kind type address length name
  | .closeProc => l.closeProc

def performAll (l : SymbolList) (calls : List SymbolCall) : SymbolList :=
  calls.foldl (fun l c => (l.perform c).2) l

/-- The offset of the innermost function that is open. -/
def parent (l : SymbolList) : Nat := l.open_.head?.getD 0

/-- The offset of the record that closes the open function with `depth` others inside it. -/
def stop? (l : SymbolList) (depth : Nat) : List SymbolCall → Option Nat
  | [] => none
  | .closeProc :: cs =>
    match depth with
    | 0 => some l.next
    | depth + 1 => (l.perform .closeProc).2.stop? depth cs
  | .add kind symbol :: cs => (l.perform (.add kind symbol)).2.stop? depth cs
  | .openProc kind type address length name :: cs =>
    (l.perform (.openProc kind type address length name)).2.stop? (depth + 1) cs

/-! ### Where the records begin -/

/-- Each symbol has the offset at which its record begins, the first being at `base`. -/
def PlacedFrom (base : Nat) : List PlannedSymbol → Prop
  | [] => True
  | s :: ss => s.offset = base ∧ PlacedFrom (base + s.record.size) ss

def stopFrom (base : Nat) (ss : List PlannedSymbol) : Nat := ss.foldl (fun n s => n + s.record.size) base

theorem next_eq (l : SymbolList) : l.next = stopFrom l.header.length l.symbols := rfl

theorem stopFrom_append (base : Nat) (ss ts : List PlannedSymbol) :
    stopFrom base (ss ++ ts) = stopFrom (stopFrom base ss) ts := List.foldl_append

theorem le_stopFrom (base : Nat) (ss : List PlannedSymbol) : base ≤ stopFrom base ss := by
  induction ss generalizing base with
  | nil => exact Nat.le_refl base
  | cons s ss ih => exact Nat.le_trans (Nat.le_add_right ..) (ih (base + s.record.size))

theorem stopFrom_eq (base : Nat) (ss : List PlannedSymbol) :
    stopFrom base ss = base + (ss.flatMap fun s => s.record.encode).length := by
  induction ss generalizing base with
  | nil => rfl
  | cons s ss ih =>
    have hcons : stopFrom base (s :: ss) = stopFrom (base + s.record.size) ss := rfl
    rw [hcons, ih, List.flatMap_cons, List.length_append, RawRecord.length_encode, RawRecord.size,
      Nat.add_assoc]

theorem length_encode (l : SymbolList) : l.encode.length = l.next := by
  rw [next_eq, stopFrom_eq, encode, List.length_append]

namespace PlacedFrom
variable {base : Nat} {ss : List PlannedSymbol}

theorem append (h : PlacedFrom base ss) (hs : s.offset = stopFrom base ss) :
    PlacedFrom base (ss ++ [s]) := by
  induction ss generalizing base with
  | nil => exact ⟨hs, trivial⟩
  | cons t ts ih => exact ⟨h.1, ih h.2 hs⟩

theorem map {f : PlannedSymbol → PlannedSymbol} (h : PlacedFrom base ss)
    (hoffset : ∀ s, (f s).offset = s.offset) (hsize : ∀ s, (f s).record.size = s.record.size) :
    PlacedFrom base (ss.map f) := by
  induction ss generalizing base with
  | nil => trivial
  | cons s ss ih => exact ⟨(hoffset s).trans h.1, hsize s ▸ ih h.2⟩

theorem offset_lt (h : PlacedFrom base ss) (hs : s ∈ ss) : s.offset < stopFrom base ss := by
  induction ss generalizing base with
  | nil => cases hs
  | cons t ts ih =>
    rcases List.mem_cons.1 hs with rfl | hs
    · have hle := le_stopFrom (base + s.record.size) ts
      have hpos : 0 < s.record.size := Nat.succ_pos _
      rw [h.1]
      exact Nat.lt_of_lt_of_le (Nat.lt_add_of_pos_right hpos) hle
    · exact ih h.2 hs

theorem offset_eq {pre post : List PlannedSymbol} (h : PlacedFrom base (pre ++ s :: post)) :
    s.offset = stopFrom base pre := by
  induction pre generalizing base with
  | nil => exact h.1
  | cons t ts ih => exact ih h.2

theorem le_offset (h : PlacedFrom base ss) (hs : s ∈ ss) : base ≤ s.offset := by
  obtain ⟨pre, post, rfl⟩ := List.append_of_mem hs
  rw [h.offset_eq]
  exact le_stopFrom base pre

theorem offsets_nodup (h : PlacedFrom base ss) : (ss.map (·.offset)).Nodup := by
  induction ss generalizing base with
  | nil => exact .nil
  | cons t ts ih =>
    refine List.nodup_cons.2 ⟨fun hmem => ?_, ih h.2⟩
    obtain ⟨s, hs, hsame⟩ := List.mem_map.1 hmem
    dsimp only at hsame
    have hle := h.2.le_offset hs
    have hpos : 0 < t.record.size := Nat.succ_pos _
    have hoffset := h.1
    omega

/-- What stands in front of a record has the length of its offset. -/
theorem exists_append (h : PlacedFrom base ss) (hs : s ∈ ss) : ∃ pre post,
    (ss.flatMap fun s => s.record.encode) = pre ++ s.record.encode ++ post
      ∧ s.offset = base + pre.length := by
  obtain ⟨pre, post, rfl⟩ := List.append_of_mem hs
  refine ⟨_, post.flatMap fun s => s.record.encode, ?_, h.offset_eq.trans (stopFrom_eq base pre)⟩
  rw [List.flatMap_append, List.flatMap_cons, List.append_assoc]

end PlacedFrom

/-! ### Lists that are made by calls -/

/-- Symbols are where their offsets say, and the open functions are among them. -/
structure Listed (l : SymbolList) : Prop where
  placed : PlacedFrom l.header.length l.symbols
  open_lt : ∀ offset ∈ l.open_, offset < l.next
  open_nodup : l.open_.Nodup

/-- What becomes of a symbol when the function at `start` is closed at `stop`. -/
def closing (start stop : Nat) (s : PlannedSymbol) : PlannedSymbol :=
  if s.offset = start then s.close stop else s

theorem offset_closing (start stop : Nat) (s : PlannedSymbol) :
    (closing start stop s).offset = s.offset := by
  rw [closing]
  split
  · exact s.offset_close stop
  · rfl

theorem size_closing (start stop : Nat) (s : PlannedSymbol) :
    (closing start stop s).record.size = s.record.size := by
  rw [closing]
  split
  · exact s.size_close stop
  · rfl

theorem perform_closeProc_of_nil (h : l.open_ = []) : l.perform .closeProc
    = (l.next, { l with symbols := l.symbols ++ [.ending l.next] }) := by
  obtain ⟨header, symbols, open_⟩ := l
  cases h
  rfl

theorem perform_closeProc_of_cons {start : Nat} {outer : List Nat} (h : l.open_ = start :: outer) :
    l.perform .closeProc = (l.next, { l with
      symbols := (l.symbols ++ [PlannedSymbol.ending l.next]).map (closing start l.next), open_ := outer }) := by
  obtain ⟨header, symbols, open_⟩ := l
  cases h
  rfl

theorem open_perform_closeProc (l : SymbolList) : (l.perform .closeProc).2.open_ = l.open_.tail := by
  cases hopen : l.open_ with
  | nil => rw [perform_closeProc_of_nil hopen, hopen, List.tail_nil]
  | cons start outer => rw [perform_closeProc_of_cons hopen, List.tail_cons]

theorem ending_mem_perform (l : SymbolList) : .ending l.next ∈ (l.perform .closeProc).2.symbols := by
  have hlast : PlannedSymbol.ending l.next ∈ l.symbols ++ [.ending l.next] :=
    List.mem_append_right _ (List.mem_singleton_self _)
  cases hopen : l.open_ with
  | nil =>
    rw [perform_closeProc_of_nil hopen]
    exact hlast
  | cons start outer =>
    rw [perform_closeProc_of_cons hopen]
    refine List.mem_map.2 ⟨_, hlast, ?_⟩
    rw [closing]
    split <;> rfl

theorem fst_perform (l : SymbolList) (c : SymbolCall) : (l.perform c).1 = l.next := by
  cases c with
  | add | openProc => rfl
  | closeProc =>
    cases h : l.open_ with
    | nil => rw [perform_closeProc_of_nil h]
    | cons start outer => rw [perform_closeProc_of_cons h]

namespace Listed

theorem ofHeader (header : Bytes) : ({ header } : SymbolList).Listed where
  placed := trivial
  open_lt _ h := by cases h
  open_nodup := .nil

theorem globals : SymbolList.globals.Listed := .ofHeader []

theorem offset_lt (h : l.Listed) (hs : s ∈ l.symbols) : s.offset < l.next := h.placed.offset_lt hs

/-- A new symbol comes to the end. -/
theorem push (h : l.Listed) (hs : s.offset = l.next) (open_ : List Nat)
    (hopen : ∀ offset ∈ open_, offset = l.next ∨ offset ∈ l.open_) (hnodup : open_.Nodup) :
    ({ l with symbols := l.symbols ++ [s], open_ } : SymbolList).Listed := by
  refine ⟨h.placed.append hs, fun offset hoffset => ?_, hnodup⟩
  have hnext : l.next < stopFrom l.next [s] := Nat.lt_add_of_pos_right (Nat.succ_pos _)
  rw [next_eq, stopFrom_append]
  rcases hopen offset hoffset with rfl | hmem
  · exact hnext
  · exact Nat.lt_trans (h.open_lt offset hmem) hnext

theorem map_closing (h : l.Listed) (start stop : Nat) :
    ({ l with symbols := l.symbols.map (closing start stop) } : SymbolList).Listed := by
  have hplaced := h.placed.map (offset_closing start stop) (size_closing start stop)
  have hnext : stopFrom l.header.length (l.symbols.map (closing start stop)) = l.next := by
    rw [next_eq, stopFrom, stopFrom, List.foldl_map]
    simp only [size_closing]
  exact ⟨hplaced, fun offset hoffset => (h.open_lt offset hoffset).trans_eq hnext.symm, h.open_nodup⟩

protected theorem perform (h : l.Listed) (c : SymbolCall) : (l.perform c).2.Listed := by
  cases c with
  | add => exact h.push rfl _ (fun _ => .inr) h.open_nodup
  | openProc =>
    refine h.push rfl (l.next :: l.open_) (fun _ => List.mem_cons.1) ?_
    exact List.nodup_cons.2 ⟨fun hmem => Nat.lt_irrefl _ (h.open_lt _ hmem), h.open_nodup⟩
  | closeProc =>
    cases hopen : l.open_ with
    | nil =>
      rw [perform_closeProc_of_nil hopen]
      exact h.push rfl _ (fun _ => .inr) h.open_nodup
    | cons start outer =>
      rw [perform_closeProc_of_cons hopen]
      have hsub : outer.Sublist l.open_ := hopen ▸ List.sublist_cons_self ..
      exact (h.push (s := .ending l.next) rfl _ (fun _ hmem => .inr (hsub.subset hmem))
        (h.open_nodup.sublist hsub)).map_closing start l.next

end Listed

/-! ### What becomes of a symbol -/

/-- A call leaves a symbol alone unless it closes it. -/
theorem mem_perform (hs : s ∈ l.symbols) (hc : c = .closeProc → l.open_.head? ≠ some s.offset) :
    s ∈ (l.perform c).2.symbols := by
  have hlast (t : PlannedSymbol) : s ∈ l.symbols ++ [t] := List.mem_append_left _ hs
  cases c with
  | add | openProc => exact hlast _
  | closeProc =>
    cases hopen : l.open_ with
    | nil =>
      rw [perform_closeProc_of_nil hopen]
      exact hlast _
    | cons start outer =>
      rw [perform_closeProc_of_cons hopen]
      have hne : s.offset ≠ start := fun h => hc rfl (h ▸ congrArg List.head? hopen)
      exact List.mem_map.2 ⟨s, hlast _, if_neg hne⟩

/-- Only new symbols are opened. -/
theorem mem_of_mem_open_perform {offset : Nat} (hmem : offset ∈ (l.perform c).2.open_) :
    offset = l.next ∨ offset ∈ l.open_ := by
  cases c with
  | add => exact .inr hmem
  | openProc => exact List.mem_cons.1 hmem
  | closeProc => exact .inr (List.mem_of_mem_tail (open_perform_closeProc l ▸ hmem))

/-- A symbol that is not an open function stays as it is. -/
theorem Listed.mem_performAll (h : l.Listed) (hs : s ∈ l.symbols) (hopen : s.offset ∉ l.open_)
    (calls : List SymbolCall) : s ∈ (l.performAll calls).symbols := by
  induction calls generalizing l with
  | nil => exact hs
  | cons c calls ih =>
    have hne : s.offset ≠ l.next := Nat.ne_of_lt (h.offset_lt hs)
    refine ih (h.perform c) (mem_perform hs fun _ hhead => ?_) fun hmem => ?_
    · exact hopen (List.mem_of_mem_head? hhead)
    · exact (mem_of_mem_open_perform hmem).elim hne hopen

/-- An open function gets its end by the call that closes it. -/
theorem Listed.closeAt_mem_performAll (h : l.Listed) (hs : s ∈ l.symbols) {inner outer : List Nat}
    (hopen : l.open_ = inner ++ s.offset :: outer) (calls : List SymbolCall) :
    s.closeAt (l.stop? inner.length calls) ∈ (l.performAll calls).symbols := by
  induction calls generalizing l inner with
  | nil => exact hs
  | cons c calls ih =>
    have hnodup := hopen ▸ h.open_nodup
    have hnext := h.perform c
    cases c with
    | add => exact ih hnext (mem_perform hs nofun) hopen
    | openProc =>
      have hpushed : l.next :: l.open_ = (l.next :: inner) ++ s.offset :: outer :=
        congrArg (l.next :: ·) hopen
      exact ih hnext (mem_perform hs nofun) hpushed
    | closeProc =>
      cases inner with
      | nil =>
        have hnot : s.offset ∉ outer := (List.nodup_cons.1 hnodup).1
        have hperform := perform_closeProc_of_cons hopen
        have hmem : s.close l.next ∈ (l.perform .closeProc).2.symbols := by
          rw [hperform]
          exact List.mem_map.2 ⟨s, List.mem_append_left _ hs, if_pos rfl⟩
        refine hnext.mem_performAll hmem ?_ calls
        rw [hperform, s.offset_close]
        exact hnot
      | cons start inner =>
        have hne : s.offset ≠ start := by
          have hstart := (List.nodup_cons.1 hnodup).1
          rintro rfl
          exact hstart (List.mem_append_right _ List.mem_cons_self)
        refine ih hnext (mem_perform hs fun _ hhead => ?_) ?_
        · rw [hopen] at hhead
          exact hne (Option.some.inj hhead).symm
        · rw [open_perform_closeProc, hopen]
          rfl

/-- What a call has added stands in the finished list, a function with its end. -/
theorem Listed.planned_mem_performAll (h : l.Listed) (c : SymbolCall) (calls : List SymbolCall) :
    c.planned l.next l.parent (((l.perform c).2.stop? 0 calls).getD 0)
      ∈ (l.performAll (c :: calls)).symbols := by
  have hlisted := h.perform c
  have hnot : l.next ∉ l.open_ := fun hmem => Nat.lt_irrefl _ (h.open_lt _ hmem)
  have hlast (s : PlannedSymbol) : s ∈ l.symbols ++ [s] :=
    List.mem_append_right _ (List.mem_singleton_self s)
  cases c with
  | add => exact hlisted.mem_performAll (hlast _) hnot calls
  | openProc kind type address length name =>
    let s := (SymbolCall.openProc kind type address length name).planned l.next l.parent 0
    have hpushed : l.next :: l.open_ = [] ++ s.offset :: l.open_ := rfl
    have hclose := hlisted.closeAt_mem_performAll (hlast s) hpushed calls
    generalize ((l.perform (.openProc kind type address length name)).2.stop? 0 calls) = stop? at *
    cases stop? with
    | none => exact hclose
    | some stop => exact hclose
  | closeProc =>
    refine hlisted.mem_performAll (ending_mem_perform l) (fun hmem => hnot ?_) calls
    exact List.mem_of_mem_tail (open_perform_closeProc l ▸ hmem)

protected theorem Listed.performAll (h : l.Listed) (calls : List SymbolCall) :
    (l.performAll calls).Listed := by
  induction calls generalizing l with
  | nil => exact h
  | cons c calls ih => exact ih (h.perform c)

theorem header_perform (l : SymbolList) (c : SymbolCall) : (l.perform c).2.header = l.header := by
  cases c with
  | add | openProc => rfl
  | closeProc =>
    cases h : l.open_ with
    | nil => rw [perform_closeProc_of_nil h]
    | cons start outer => rw [perform_closeProc_of_cons h]

theorem header_performAll (l : SymbolList) (calls : List SymbolCall) :
    (l.performAll calls).header = l.header := by
  induction calls generalizing l with
  | nil => rfl
  | cons c calls ih => exact (ih (l.perform c).2).trans (header_perform l c)

theorem performAll_append (l : SymbolList) (before after : List SymbolCall) :
    l.performAll (before ++ after) = (l.performAll before).performAll after := List.foldl_append

/-! ### Reading the symbols -/

/-- A symbol is read at its offset. -/
theorem Listed.recordAt_eq {stream : PagedStream} (h : l.Listed) (hheader : l.header = [])
    (hstream : stream.Holds l.encode) (hs : s ∈ l.symbols) (hfits : s.record.FitsFrame) :
    (Globals.mk (some stream)).recordAt s.offset = .ok s.record := by
  obtain ⟨pre, post, hsplit, hoffset⟩ := h.placed.exists_append hs
  rw [encode, hheader, List.nil_append, hsplit] at hstream
  rw [hheader, List.length_nil, Nat.zero_add] at hoffset
  rw [hoffset]
  exact PagedStream.recordAt_eq hstream hfits

end SymbolList
end Pdb
