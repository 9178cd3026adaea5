import Mathlib.Data.List.Induction
import Pdb.Proofs.SymbolListing

/-! # The places of symbols, and the functions around them

A symbol stands where the call that has added it stands among the calls, since no other symbol has its
offset (`Listed.getElem?_performAll`). Which functions are open is told by counting (`depthFrom`), and
the list knows nothing else: a function is open with `k` others inside it if that is the count behind
it (`open_performAll_of_depthFrom`, `exists_opens_of_getElem?`), and it is closed by the end that takes
the count below zero (`stop?_of_depthFrom`, `exists_of_stop?_eq_some`).
-/

namespace Pdb

namespace SymbolCall

/-- How many functions are open after the call, if `n` have been; it may not close any other. -/
def depth (n : Nat) : SymbolCall → Option Nat
  | add .. => some n
  | openProc .. => some (n + 1)
  | closeProc => match n with
    | 0 => none
    | n + 1 => some n

def depthFrom (n : Nat) (calls : List SymbolCall) : Option Nat := calls.foldlM depth n

def opens : SymbolCall → Bool
  | openProc .. => true
  | _ => false

theorem depthFrom_cons {n : Nat} (c : SymbolCall) (calls : List SymbolCall) :
    depthFrom n (c :: calls) = (c.depth n).bind (depthFrom · calls) := List.foldlM_cons

theorem depthFrom_append {n : Nat} (calls calls' : List SymbolCall) :
    depthFrom n (calls ++ calls') = (depthFrom n calls).bind (depthFrom · calls') := List.foldlM_append

end SymbolCall

namespace SymbolList
open SymbolCall
variable {l : SymbolList} {c : SymbolCall} {calls : List SymbolCall} {n : Nat}

/-! ### Each symbol in its place -/

theorem offsets_perform (l : SymbolList) (c : SymbolCall) :
    (l.perform c).2.symbols.map (·.offset) = l.symbols.map (·.offset) ++ [l.next] := by
  cases c with
  | add | openProc => exact List.map_append
  | closeProc =>
    cases hopen : l.open_ with
    | nil =>
      rw [perform_closeProc_of_nil hopen]
      exact List.map_append
    | cons start outer =>
      rw [perform_closeProc_of_cons hopen, List.map_map]
      exact (List.map_congr_left fun s _ => offset_closing start l.next s).trans List.map_append

theorem offsets_performAll (l : SymbolList) (calls : List SymbolCall) : ∃ later,
    (l.performAll calls).symbols.map (·.offset) = l.symbols.map (·.offset) ++ later
      ∧ later.length = calls.length := by
  induction calls generalizing l with
  | nil => exact ⟨[], (List.append_nil _).symm, rfl⟩
  | cons c calls ih =>
    obtain ⟨later, hlater, hlength⟩ := ih (l.perform c).2
    refine ⟨l.next :: later, hlater.trans ?_, congrArg (· + 1) hlength⟩
    rw [offsets_perform, List.append_assoc]
    rfl

theorem length_performAll (l : SymbolList) (calls : List SymbolCall) :
    (l.performAll calls).symbols.length = l.symbols.length + calls.length := by
  obtain ⟨later, hlater, hlength⟩ := l.offsets_performAll calls
  have hmap := congrArg List.length hlater
  rwa [List.length_map, List.length_append, List.length_map, hlength] at hmap

/-- What a call has added stands behind what the calls in front of it have added. -/
theorem Listed.getElem?_performAll (h : l.Listed) (hempty : l.symbols = [])
    (before : List SymbolCall) (c : SymbolCall) (after : List SymbolCall) :
    (l.performAll (before ++ c :: after)).symbols[before.length]?
      = some (c.planned (l.performAll before).next (l.performAll before).parent
        (((l.performAll before).perform c).2.stop? 0 after |>.getD 0)) := by
  have hlisted := h.performAll before
  obtain ⟨i, hi⟩ := List.mem_iff_getElem?.1 (hlisted.planned_mem_performAll c after)
  obtain ⟨later, hlater, -⟩ := ((l.performAll before).perform c).2.offsets_performAll after
  have hlength := l.length_performAll before
  rw [hempty, List.length_nil, Nat.zero_add] at hlength
  -- no other symbol has its offset
  have hplace : i = before.length := by
    obtain ⟨hlt, -⟩ := List.getElem?_eq_some_iff.1 hi
    have hnodup := (hlisted.performAll (c :: after)).placed.offsets_nodup
    refine (List.getElem?_inj (by rwa [List.length_map]) hnodup).1 ?_
    rw [List.getElem?_map, hi, show (l.performAll before).performAll (c :: after)
      = (((l.performAll before).perform c).2).performAll after from rfl, hlater, offsets_perform,
      List.append_assoc, List.getElem?_append_right (by rw [List.length_map, hlength]),
      List.length_map, hlength, Nat.sub_self]
    rfl
  rw [performAll_append, ← hplace]
  exact hi

/-! ### Open functions, counted -/

/-- What is open besides `outer` is as many functions as are counted. -/
theorem open_perform_of_depth {inner outer : List Nat} (hopen : l.open_ = inner ++ outer)
    (h : c.depth inner.length = some n) :
    ∃ inner', (l.perform c).2.open_ = inner' ++ outer ∧ inner'.length = n := by
  cases c with
  | add => exact ⟨inner, hopen, Option.some.inj h⟩
  | openProc => exact ⟨l.next :: inner, congrArg (l.next :: ·) hopen, Option.some.inj h⟩
  | closeProc =>
    rw [open_perform_closeProc, hopen]
    cases inner with
    | nil => exact nomatch h
    | cons start inner => exact ⟨inner, rfl, Option.some.inj h⟩

theorem open_perform_of_opens (h : c.opens) : (l.perform c).2.open_ = l.next :: l.open_ := by
  cases c with
  | openProc => rfl
  | add | closeProc => exact absurd h Bool.false_ne_true

theorem open_performAll_of_depthFrom {inner outer : List Nat} (hopen : l.open_ = inner ++ outer)
    (h : depthFrom inner.length calls = some n) :
    ∃ inner', (l.performAll calls).open_ = inner' ++ outer ∧ inner'.length = n := by
  induction calls generalizing l inner with
  | nil => exact ⟨inner, hopen, Option.some.inj h⟩
  | cons c calls ih =>
    rw [depthFrom_cons] at h
    obtain ⟨m, hc, hrest⟩ := Option.bind_eq_some_iff.1 h
    obtain ⟨inner', hopen', rfl⟩ := open_perform_of_depth hopen hc
    exact ih hopen' hrest

/-- Each open function has been opened, and as many others are open inside it as stand in front of it. -/
theorem exists_opens_of_getElem? (hempty : l.open_ = []) {k offset : Nat}
    (h : (l.performAll calls).open_[k]? = some offset) :
    ∃ outer f inner, calls = outer ++ f :: inner ∧ f.opens ∧ depthFrom 0 inner = some k := by
  induction calls using List.reverseRecOn generalizing k offset with
  | nil =>
    rw [show l.performAll [] = l from rfl, hempty] at h
    exact nomatch h
  | append_singleton calls c ih =>
    rw [performAll_append] at h
    have hinside {m : Nat} (hm : (l.performAll calls).open_[m]? = some offset) (hc : c.depth m = some k) :
        ∃ outer f inner, calls ++ [c] = outer ++ f :: inner ∧ f.opens ∧ depthFrom 0 inner = some k := by
      obtain ⟨outer, f, inner, rfl, hopens, hdepth⟩ := ih hm
      refine ⟨outer, f, inner ++ [c], by rw [List.append_assoc, List.cons_append], hopens, ?_⟩
      rw [depthFrom_append, hdepth, Option.bind_some, depthFrom_cons, hc]
      rfl
    cases c with
    | add => exact hinside h rfl
    | openProc =>
      cases k with
      | zero => exact ⟨calls, _, [], rfl, rfl, rfl⟩
      | succ k => exact hinside h rfl
    | closeProc =>
      have htail : ((l.performAll calls).perform .closeProc).2.open_[k]? = some offset := h
      rw [open_perform_closeProc, List.getElem?_tail] at htail
      exact hinside htail rfl

/-- The open function with `n` others inside it is closed by the first end behind which fewer are left. -/
theorem stop?_of_depthFrom {inner rest : List SymbolCall} (h : depthFrom n inner = some 0) :
    l.stop? n (inner ++ .closeProc :: rest) = some (l.performAll inner).next := by
  induction inner generalizing l n with
  | nil =>
    obtain rfl := Option.some.inj h
    rfl
  | cons c inner ih =>
    rw [depthFrom_cons] at h
    obtain ⟨m, hc, hrest⟩ := Option.bind_eq_some_iff.1 h
    cases c with
    | add | openProc =>
      obtain rfl := Option.some.inj hc
      exact ih hrest
    | closeProc =>
      cases n with
      | zero => exact nomatch hc
      | succ n =>
        obtain rfl := Option.some.inj hc
        exact ih hrest

theorem exists_of_stop?_eq_some {stop : Nat} (h : l.stop? n calls = some stop) :
    ∃ inner rest, calls = inner ++ .closeProc :: rest ∧ depthFrom n inner = some 0 := by
  induction calls generalizing l n with
  | nil => exact nomatch h
  | cons c calls ih =>
    have hinside {l' : SymbolList} {m : Nat} (hstop : l'.stop? m calls = some stop)
        (hc : c.depth n = some m) :
        ∃ inner rest, c :: calls = inner ++ .closeProc :: rest ∧ depthFrom n inner = some 0 := by
      obtain ⟨inner, rest, rfl, hdepth⟩ := ih hstop
      refine ⟨c :: inner, rest, rfl, ?_⟩
      rw [depthFrom_cons, hc, Option.bind_some, hdepth]
    cases c with
    | add | openProc => exact hinside h rfl
    | closeProc =>
      cases n with
      | zero => exact ⟨[], calls, rfl, rfl⟩
      | succ n => exact hinside h rfl

end SymbolList
end Pdb
