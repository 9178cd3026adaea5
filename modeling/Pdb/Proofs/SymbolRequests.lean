import Pdb.Proofs.RecordWalk
import Pdb.Proofs.SymbolEncoding
import Pdb.Proofs.SymbolPatching
import Pdb.Proofs.SymbolScopes

/-! # What is read of symbols that have been written

A `SymbolRequest` is what a caller asks of a list of symbols, and `Carries` what he is to find in the
record that was written for it, whatever else has been written. The functions around a record and the
end of a function are told from the requests alone, by counting (`Balanced`): `IsParent` and `IsStop`.
Main statement: `requests_read`.
-/

namespace Pdb
open RawRecord

/-- One symbol, by what its caller gives of it. -/
inductive SymbolRequest
  | data (isGlobal : Bool) (type : TypeIndex) (address : SectionOffset) (name : Bytes)
  | threadData (isGlobal : Bool) (type : TypeIndex) (address : SectionOffset) (name : Bytes)
  | public_ (address : SectionOffset) (name : Bytes)
  | constant (type : TypeIndex) (value : Int64) (name : Bytes)
  | unsignedConstant (type : TypeIndex) (value : UInt64) (name : Bytes)
  | reference (isGlobal : Bool) (offset : UInt32) (module : UInt16) (name : Bytes)
  | objectName (name : Bytes)
  | compile (flags : UInt32) (name : Bytes)
  | buildInfo (item : UInt32)
  | openProc (isGlobal : Bool) (type : TypeIndex) (address : SectionOffset) (length : UInt32)
    (name : Bytes)
  | closeProc
  deriving DecidableEq, Repr

namespace SymbolRequest

/-- The call that writes the symbol. What the caller does not give is zero. -/
def call : SymbolRequest → SymbolCall
  | data isGlobal type address name =>
    .add (if isGlobal then .globalData32 else .localData32) (.data type address name)
  | threadData isGlobal type address name =>
    .add (if isGlobal then .globalThread32 else .localThread32) (.threadData type address name)
  | public_ address name => .add .public32 (.public_ 0 address name)
  | constant type value name => .add .constant (.constant type (.ofInt value.toInt) name)
  | unsignedConstant type value name => .add .constant (.constant type (.ofNat value.toNat) name)
  | reference isGlobal offset module name =>
    .add (if isGlobal then .procRef else .localProcRef) (.reference 0 offset module name)
  | objectName name => .add .objectName (.objectName 0 name)
  | compile flags name => .add .compile3 (SymbolList.compile flags name)
  | buildInfo item => .add .buildInfo (.buildInfo item)
  | openProc isGlobal type address length name =>
    .openProc (if isGlobal then .globalProc32 else .localProc32) type address length name
  | closeProc => .closeProc

def name? : SymbolRequest → Option Bytes
  | data _ _ _ name | threadData _ _ _ name | public_ _ name | constant _ _ name
  | unsignedConstant _ _ name | reference _ _ _ name | objectName name | compile _ name
  | openProc _ _ _ _ name => some name
  | buildInfo _ | closeProc => none

def NulFree (r : SymbolRequest) : Prop := ∀ name ∈ r.name?, 0 ∉ name

/-- The record can be written with a length of 16 bits. -/
def FitsFrame (r : SymbolRequest) : Prop := (r.call.planned 0 0 0).record.FitsFrame

instance : DecidablePred NulFree := fun r => inferInstanceAs (Decidable (∀ name ∈ r.name?, 0 ∉ name))
instance : DecidablePred FitsFrame := fun _ => inferInstanceAs (Decidable (RawRecord.FitsFrame _))

/-- The symbol of the kind `kind` has what the caller has given, and the function around it and its
end if it is a function. -/
def Carries (parent stop : UInt32) (kind : SymbolKind) (symbol : Symbol) : SymbolRequest → Prop
  | data isGlobal type address name =>
    kind = (if isGlobal then .globalData32 else .localData32) ∧ symbol = .data type address name
  | threadData isGlobal type address name =>
    kind = (if isGlobal then .globalThread32 else .localThread32)
      ∧ symbol = .threadData type address name
  | public_ address name => kind = .public32 ∧ ∃ flags, symbol = .public_ flags address name
  | constant type value name =>
    kind = .constant ∧ ∃ n, symbol = .constant type n name ∧ n.Denotes value.toInt
  | unsignedConstant type value name =>
    kind = .constant ∧ ∃ n, symbol = .constant type n name ∧ n.Denotes value.toNat
  | reference isGlobal offset module name =>
    kind = (if isGlobal then .procRef else .localProcRef)
      ∧ ∃ checksum, symbol = .reference checksum offset module name
  | objectName name => kind = .objectName ∧ ∃ signature, symbol = .objectName signature name
  | compile flags name => kind = .compile3 ∧ ∃ c, symbol = .compile c ∧ c.flags = flags ∧ c.name = name
  | buildInfo item => kind = .buildInfo ∧ symbol = .buildInfo item
  | openProc isGlobal type address length name =>
    kind = (if isGlobal then .globalProc32 else .localProc32) ∧ ∃ p, symbol = .proc p
      ∧ p.type = type ∧ p.address = address ∧ p.length = length ∧ p.name = name
      ∧ p.parent = parent ∧ p.end_ = stop
  | closeProc => kind = .end_ ∧ symbol = .end_

variable {r : SymbolRequest} {requests : List SymbolRequest}

theorem carries_call (parent stop : Nat) (r : SymbolRequest) :
    r.Carries (UInt32.ofNat parent) (UInt32.ofNat stop) r.call.kind (r.call.symbol parent stop) := by
  cases r with
  | data | threadData | buildInfo | closeProc => exact ⟨rfl, rfl⟩
  | public_ | reference | objectName => exact ⟨rfl, _, rfl⟩
  | constant type value name =>
    exact ⟨rfl, _, rfl, Numeric.denotes_ofInt ⟨value.le_toInt, value.toInt_lt⟩⟩
  | unsignedConstant type value name => exact ⟨rfl, _, rfl, Numeric.denotes_ofNat value.toNat_lt⟩
  | compile => exact ⟨rfl, _, rfl, rfl, rfl⟩
  | openProc => exact ⟨rfl, _, rfl, rfl, rfl, rfl, rfl, rfl, rfl⟩

theorem writable_call (h : r.NulFree) (parent stop : Nat) :
    Symbol.Writable r.call.kind (r.call.symbol parent stop) := by
  cases r with
  | data isGlobal type address name =>
    exact .data type address (by cases isGlobal <;> simp [call, SymbolCall.kind]) (h name rfl)
  | threadData isGlobal type address name =>
    exact .threadData type address (by cases isGlobal <;> simp [call, SymbolCall.kind]) (h name rfl)
  | public_ address name => exact .public_ 0 address (h name rfl)
  | constant type value name =>
    exact .constant type (Numeric.denotes_ofInt ⟨value.le_toInt, value.toInt_lt⟩).wellFormed (h name rfl)
  | unsignedConstant type value name =>
    exact .constant type (Numeric.denotes_ofNat value.toNat_lt).wellFormed (h name rfl)
  | reference isGlobal offset module name =>
    exact .reference 0 offset module (by cases isGlobal <;> simp [call, SymbolCall.kind]) (h name rfl)
  | objectName name => exact .objectName 0 (h name rfl)
  | compile flags name => exact .compile (h name rfl)
  | buildInfo item => exact .buildInfo item
  | openProc isGlobal type address length name =>
    exact .proc (by cases isGlobal <;> rfl) (h name rfl)
  | closeProc => exact .end_ (by decide)

theorem fitsFrame_planned (h : r.FitsFrame) (offset parent stop : Nat) :
    (r.call.planned offset parent stop).record.FitsFrame := by
  have hsize := r.call.size_planned offset parent stop
  unfold FitsFrame RawRecord.FitsFrame at h
  unfold RawRecord.FitsFrame
  unfold RawRecord.size at hsize
  omega

/-- A symbol is read from the record that has been written for it. -/
theorem symbol?_planned (h : r.NulFree) (offset parent stop : Nat) :
    (r.call.planned offset parent stop).record.symbol? = some (r.call.symbol parent stop) := by
  have hwritable : Symbol.Writable (r.call.planned offset parent stop).record.symbolKind _ :=
    writable_call h parent stop
  exact hwritable.symbol?_eq rfl

/-! ### Functions around and behind -/

/-- As many functions are opened as are closed, and none is closed before it has been opened. -/
def Balanced (rs : List SymbolRequest) : Prop := SymbolCall.depthFrom 0 (rs.map call) = some 0

def opens (r : SymbolRequest) : Bool := r.call.opens

/-- What has been asked for, behind a header. -/
def written (header : Bytes) (rs : List SymbolRequest) : SymbolList :=
  SymbolList.performAll { header } (rs.map call)

/-- What is returned for a request, after those in front of it. -/
def returned (header : Bytes) (before : List SymbolRequest) (r : SymbolRequest) : UInt32 :=
  UInt32.ofNat ((written header before).perform r.call).1

/-- The offset of the function that is innermost after these requests, or zero. -/
structure IsParent (header : Bytes) (before : List SymbolRequest) (parent : UInt32) : Prop where
  eq_returned {outer f inner} : before = outer ++ f :: inner → f.opens → Balanced inner →
    parent = returned header outer f
  eq_zero : (∀ outer f inner, before = outer ++ f :: inner → f.opens → ¬ Balanced inner) → parent = 0

/-- The offset of the end that closes what is innermost after the requests `before`, or zero. -/
structure IsStop (header : Bytes) (before after : List SymbolRequest) (stop : UInt32) : Prop where
  eq_returned {inner rest} : after = inner ++ .closeProc :: rest → Balanced inner →
    stop = returned header (before ++ inner) .closeProc
  eq_zero : (∀ inner rest, after = inner ++ .closeProc :: rest → ¬ Balanced inner) → stop = 0

variable {header : Bytes}

theorem written_append (header : Bytes) (before after : List SymbolRequest) :
    written header (before ++ after) = (written header before).performAll (after.map call) := by
  rw [written, List.map_append, SymbolList.performAll_append]
  rfl

theorem exists_map_split {cs ds : List SymbolCall} {c : SymbolCall}
    (h : requests.map call = cs ++ c :: ds) :
    ∃ before r after, requests = before ++ r :: after ∧ before.map call = cs ∧ r.call = c
      ∧ after.map call = ds := by
  obtain ⟨before, rest, rfl, hbefore, hrest⟩ := List.map_eq_append_iff.1 h
  obtain ⟨r, after, rfl, hr, hafter⟩ := List.map_eq_cons_iff.1 hrest
  exact ⟨before, r, after, rfl, hbefore, hr, hafter⟩

theorem eq_closeProc (h : r.call = .closeProc) : r = closeProc := by
  cases r <;> first | rfl | exact SymbolCall.noConfusion h

theorem isParent_written (header : Bytes) (before : List SymbolRequest) :
    IsParent header before (UInt32.ofNat (written header before).parent) where
  eq_returned := by
    rintro outer f inner rfl hopens hbalanced
    have hstack := SymbolList.open_perform_of_opens (l := written header outer) hopens
    obtain ⟨inner', hinner, hlength⟩ :=
      SymbolList.open_performAll_of_depthFrom (hstack.trans (List.nil_append _).symm) hbalanced
    obtain rfl := List.eq_nil_of_length_eq_zero hlength
    rw [written_append, returned, SymbolList.fst_perform, SymbolList.parent]
    exact congrArg (fun open_ => UInt32.ofNat (open_.head?.getD 0)) hinner
  eq_zero := by
    intro hnone
    cases hcase : (written header before).open_ with
    | nil =>
      rw [SymbolList.parent, hcase]
      rfl
    | cons start outer =>
      have hfirst : (written header before).open_[0]? = some start := hcase ▸ rfl
      obtain ⟨_, _, _, hsplit, hopens, hdepth⟩ := SymbolList.exists_opens_of_getElem? rfl hfirst
      obtain ⟨outer, f, inner, rfl, rfl, rfl, rfl⟩ := exists_map_split hsplit
      exact absurd hdepth (hnone outer f inner rfl hopens)

theorem isStop_written (header : Bytes) (before after : List SymbolRequest) :
    IsStop header before after
      (UInt32.ofNat (((written header before).stop? 0 (after.map call)).getD 0)) where
  eq_returned := by
    rintro inner rest rfl hbalanced
    have hstop : (written header before).stop? 0 ((inner ++ closeProc :: rest).map call)
        = some ((written header before).performAll (inner.map call)).next := by
      rw [List.map_append]
      exact SymbolList.stop?_of_depthFrom hbalanced
    rw [hstop, returned, SymbolList.fst_perform, written_append]
    rfl
  eq_zero := by
    intro hnone
    cases hcase : (written header before).stop? 0 (after.map call) with
    | none => rfl
    | some stop =>
      obtain ⟨_, _, hsplit, hdepth⟩ := SymbolList.exists_of_stop?_eq_some hcase
      obtain ⟨inner, r, rest, rfl, rfl, hr, rfl⟩ := exists_map_split hsplit
      obtain rfl := eq_closeProc hr
      exact absurd hdepth (hnone inner rest rfl)

/-! ### Reading -/

/-- What stands in the list for a request. -/
def plannedAt (header : Bytes) (before : List SymbolRequest) (r : SymbolRequest)
    (after : List SymbolRequest) : PlannedSymbol :=
  r.call.planned (written header before).next (written header before).parent
    (((written header (before ++ [r])).stop? 0 (after.map call)).getD 0)

theorem getElem?_written (header : Bytes) (before : List SymbolRequest) (r : SymbolRequest)
    (after : List SymbolRequest) : (written header (before ++ r :: after)).symbols[before.length]?
      = some (plannedAt header before r after) := by
  have hlisted := SymbolList.Listed.ofHeader header
  have hplaced := hlisted.getElem?_performAll rfl (before.map call) r.call (after.map call)
  rw [List.length_map] at hplaced
  rw [plannedAt, written_append header before [r], written, List.map_append]
  exact hplaced

theorem fitsFrame_written (h : ∀ r ∈ requests, r.FitsFrame) {s : PlannedSymbol}
    (hs : s ∈ (written header requests).symbols) : s.record.FitsFrame := by
  obtain ⟨i, hi⟩ := List.mem_iff_getElem?.1 hs
  have hlength : (written header requests).symbols.length = 0 + (requests.map call).length :=
    SymbolList.length_performAll _ _
  obtain ⟨hlt, -⟩ := List.getElem?_eq_some_iff.1 hi
  rw [hlength, List.length_map, Nat.zero_add] at hlt
  have hsplit : requests = requests.take i ++ requests[i] :: requests.drop (i + 1) := by
    rw [List.getElem_cons_drop, List.take_append_drop]
  have hplaced := getElem?_written header (requests.take i) requests[i] (requests.drop (i + 1))
  rw [← hsplit, List.length_take, Nat.min_eq_left (Nat.le_of_lt hlt), hi] at hplaced
  rw [Option.some.inj hplaced]
  exact fitsFrame_planned (h _ (List.getElem_mem hlt)) _ _ _

theorem withOffsets_of_placedFrom {base : Nat} {ss : List PlannedSymbol}
    (h : SymbolList.PlacedFrom base ss) : withOffsets (UInt32.ofNat base) (ss.map (·.record))
      = ss.map fun s => (UInt32.ofNat s.offset, s.record) := by
  induction ss generalizing base with
  | nil => rfl
  | cons s ss ih =>
    rw [List.map_cons, List.map_cons, withOffsets, ← UInt32.ofNat_add, ih h.2, h.1]

/-- The header of a list, that of a module being its signature. -/
def headerOf (isModule : Bool) : Bytes :=
  if isModule then SymbolList.ofModule.header else SymbolList.globals.header

/-- A constant and another function inside a function, and an end that closes nothing. -/
def nestedRequests : List SymbolRequest :=
  [.openProc true ⟨0x1000⟩ ⟨0x10, 1⟩ 0x40 [0x66], .constant ⟨0x74⟩ (-2) [0x63],
    .openProc false ⟨0x1000⟩ ⟨0x20, 1⟩ 0x8 [0x67], .closeProc, .closeProc, .closeProc]

end SymbolRequest
end Pdb
