import Mathlib.Data.Fintype.EquivFin
import Mathlib.Data.Fintype.Pigeonhole
import Mathlib.Data.Option.Basic
import Pdb.TypeStore.Creation

/-! # Where walks along chains of members end

Nothing stops a chain of member lists from leading back to a list that it has come through, and a
walk does not notice it. `halts_start_iff`: a walk ends exactly if its chain comes to no list twice.
The members along a chain, the inheritance model of a record and the table of nested records are
there exactly if the walks that they wait for end: `isSome_fields?_iff`, `isSome_inheritance?_iff`
and `isSome_nesting?_iff`.
-/

namespace Pdb

instance : Finite TypeIndex := by
  refine Finite.of_injective (fun ti : TypeIndex => (⟨ti.toNat, ti.val.toNat_lt⟩ : Fin (2 ^ 32))) ?_
  rintro ⟨a⟩ ⟨b⟩ h
  have hval : a = b := UInt32.toNat_inj.1 (congrArg Fin.val h)
  rw [hval]

namespace Member

/-- Counting base classes stops at a virtual one. -/
def isVirtualBase : Member → Bool
  | .virtualBase .. => true
  | _ => false

theorem next?_cons (m : Member) (ms : List Member) :
    next? (m :: ms) = (next? ms).or m.continuation? := by
  cases h : m.continuation? with
  | none => simp [next?, List.filterMap_cons_none h]
  | some list => simp [next?, List.filterMap_cons_some h, List.getLast?_cons, Option.or_some]

end Member

namespace TypeStream
variable {s : TypeStream} {ti next l : TypeIndex} {m : Member} {ms : List Member}

/-! ### Chains of lists -/

/-- The list that goes on from a list. -/
def nextList? (s : TypeStream) (ti : TypeIndex) : Option TypeIndex :=
  (s.memberList? ti).bind Member.next?

/-- The list that a chain comes to after `n` others. -/
def listAfter (s : TypeStream) (ti : TypeIndex) : Nat → Option TypeIndex
  | 0 => some ti
  | n + 1 => (listAfter s ti n).bind s.nextList?

/-- A chain comes to some list twice. -/
def Circles (s : TypeStream) (ti : TypeIndex) : Prop :=
  ∃ i j l, i < j ∧ s.listAfter ti i = some l ∧ s.listAfter ti j = some l

/-- A member is in one of the lists of a chain. -/
inductive Along (s : TypeStream) : TypeIndex → Member → Prop
  | here {ti : TypeIndex} {ms : List Member} {m : Member} :
    s.memberList? ti = some ms → m ∈ ms → Along s ti m
  | next {ti next : TypeIndex} {ms : List Member} {m : Member} :
    s.memberList? ti = some ms → Member.next? ms = some next → Along s next m → Along s ti m

theorem nextList?_eq_some (h : s.memberList? ti = some ms) (h' : Member.next? ms = some next) :
    s.nextList? ti = some next := by
  rw [nextList?, h, Option.bind_some, h']

theorem listAfter_succ (h : s.nextList? ti = some next) (n : Nat) :
    s.listAfter ti (n + 1) = s.listAfter next n := by
  induction n with
  | zero => simp [listAfter, h]
  | succ n ih => rw [listAfter, ih, ← listAfter]

theorem listAfter_add_congr {i j : Nat} (h : s.listAfter ti i = s.listAfter ti j) (k : Nat) :
    s.listAfter ti (i + k) = s.listAfter ti (j + k) := by
  induction k with
  | zero => exact h
  | succ k ih => rw [← Nat.add_assoc, ← Nat.add_assoc, listAfter, listAfter, ih]

theorem listAfter_add_of_none {n : Nat} (h : s.listAfter ti n = none) (k : Nat) :
    s.listAfter ti (n + k) = none := by
  induction k with
  | zero => exact h
  | succ k ih => rw [← Nat.add_assoc, listAfter, ih, Option.bind_none]

theorem ChainEnds.of_nextList? (h : ∀ next, s.nextList? ti = some next → ChainEnds s next) :
    ChainEnds s ti := by
  cases hms : s.memberList? ti with
  | none => exact .unreadable hms
  | some ms =>
    cases hnext : Member.next? ms with
    | none => exact .last hms hnext
    | some next => exact .next hms hnext (h next (nextList?_eq_some hms hnext))

theorem chainEnds_iff_listAfter : ChainEnds s ti ↔ ∃ n, s.listAfter ti n = none := by
  constructor
  · intro h
    induction h with
    | unreadable h => exact ⟨1, by simp [listAfter, nextList?, h]⟩
    | last h h' => exact ⟨1, by simp [listAfter, nextList?, h, h']⟩
    | next h h' _ ih =>
      obtain ⟨n, hn⟩ := ih
      exact ⟨n + 1, by rwa [listAfter_succ (nextList?_eq_some h h')]⟩
  · rintro ⟨n, hn⟩
    induction n generalizing ti with
    | zero => exact nomatch hn
    | succ n ih => exact .of_nextList? fun next h => ih (by rwa [listAfter_succ h] at hn)

/-- There are only so many lists: a chain without an end comes to one of them again. -/
theorem chainEnds_iff_not_circles : ChainEnds s ti ↔ ¬ s.Circles ti := by
  rw [chainEnds_iff_listAfter]
  constructor
  · rintro hend ⟨i, j, l, hij, hi, hj⟩
    -- from `j` on the chain does the same as from `i` on, so it cannot have ended later
    have hlt : j < Nat.find hend := by
      by_contra hle
      obtain ⟨k, rfl⟩ := Nat.exists_eq_add_of_le (Nat.not_lt.1 hle)
      rw [listAfter_add_of_none (Nat.find_spec hend)] at hj
      exact nomatch hj
    obtain ⟨k, hk⟩ := Nat.exists_eq_add_of_le hlt.le
    refine Nat.find_min hend (m := i + k) (by omega) ?_
    rw [listAfter_add_congr (hi.trans hj.symm), ← hk]
    exact Nat.find_spec hend
  · intro h
    by_contra hend
    simp only [not_exists, ← ne_eq, Option.ne_none_iff_exists'] at hend
    choose list hlist using hend
    obtain ⟨a, b, hab, he⟩ := Finite.exists_ne_map_eq_of_infinite list
    rcases lt_or_gt_of_ne hab with hlt | hlt
    · exact h ⟨a, b, list a, hlt, hlist a, he ▸ hlist b⟩
    · exact h ⟨b, a, list a, hlt, he ▸ hlist b, hlist a⟩

/-! ### Streams in which all chains end -/

/-- No chain of member lists comes to a list twice. -/
def ChainsEnd (s : TypeStream) : Prop := ∀ ti, ¬ s.Circles ti

theorem type?_eq (s : TypeStream) (ti : TypeIndex) :
    s.type? ti = (s.record ti).toOption.bind RawRecord.type? := by
  rw [type?, type]
  cases s.record ti with
  | error e => rfl
  | ok r =>
    dsimp only [bind, Except.bind, Except.toOption, Option.bind_some]
    cases r.type? <;> rfl

/-- Built-in types have no records. -/
theorem record_of_isSimple (h : ti.isSimple) : s.record ti = .error .primitiveType := by
  have hfirst := s.first_isSimple
  refine if_pos ?_
  simp only [TypeIndex.isSimple, isPrimitive, decide_eq_true_eq, decide_eq_false_iff_not,
    UInt32.lt_iff_toNat_lt] at *
  omega

theorem type?_of_isSimple (h : ti.isSimple) : s.type? ti = none := by
  rw [type?_eq, record_of_isSimple h]
  rfl

theorem mem_indexes {record : RawRecord} (h : (s.record ti).toOption = some record) :
    ti ∈ s.indexes := by
  rw [TypeStream.record] at h
  split_ifs at h with hprimitive
  · exact nomatch h
  cases hlist : s.list? with
  | none => rw [hlist] at h; exact nomatch h
  | some list =>
    rw [hlist] at h
    have hlt : ti.toNat - s.first.toNat < s.size := by
      by_contra hle
      have hnone : list.records[ti.toNat - s.first.toNat]? = none := by
        rw [Array.getElem?_eq_none_iff, list.records_eq, Array.size_map]
        simpa [TypeStream.size, hlist] using hle
      simp only [hnone] at h
      exact nomatch h
    have hle : s.first.toNat ≤ ti.toNat := by
      simpa [TypeStream.isPrimitive, TypeIndex.toNat, UInt32.lt_iff_toNat_lt] using hprimitive
    refine List.mem_map.2 ⟨_, List.mem_range.2 hlt, ?_⟩
    rw [Nat.add_sub_cancel' hle, TypeIndex.ofNat, TypeIndex.toNat, UInt32.ofNat_toNat]

theorem mem_indexes_of_memberList? (h : s.memberList? ti = some ms) : ti ∈ s.indexes := by
  cases hr : s.record ti with
  | error e => simp [memberList?, type?, type, hr, bind, Except.bind, Except.toOption] at h
  | ok record => exact mem_indexes (by rw [hr]; rfl)

/-- Only records of the stream are lists that go on. -/
theorem nextList?_eq_none (h : ∀ ti ∈ s.indexes, s.nextList? ti = none) (ti : TypeIndex) :
    s.nextList? ti = none := by
  refine Option.eq_none_iff_forall_ne_some.2 fun next hnext => ?_
  obtain ⟨ms, hms, _⟩ := Option.bind_eq_some_iff.1 hnext
  exact nomatch (h ti (mem_indexes_of_memberList? hms)).symm.trans hnext

theorem chainsEnd_of_nextList?_eq_none (h : ∀ ti ∈ s.indexes, s.nextList? ti = none) :
    s.ChainsEnd := fun ti =>
  chainEnds_iff_not_circles.1 <| .of_nextList? fun _ hnext =>
    nomatch (nextList?_eq_none h ti).symm.trans hnext

/-! ### Walks -/

namespace FieldWalk
variable {w w' : FieldWalk} {m? : Option Member} {P : Member → Prop}

/-- The place after `n` steps, if there are as many. -/
def after (s : TypeStream) : Nat → FieldWalk → Option FieldWalk
  | 0, w => some w
  | n + 1, w => (w.step? s).bind fun r => after s n r.2

/-- A walk comes to the end of its chain. -/
def Halts (s : TypeStream) (w : FieldWalk) : Prop := ∃ n, after s n w = none

/-- A walk comes to the end of its chain or over a member that satisfies `P`. -/
inductive Stops (s : TypeStream) (P : Member → Prop) : FieldWalk → Prop
  | atEnd {w : FieldWalk} : w.step? s = none → Stops s P w
  | found {w w' : FieldWalk} {m : Member} : w.step? s = some (some m, w') → P m → Stops s P w
  | step {w w' : FieldWalk} {m? : Option Member} :
    w.step? s = some (m?, w') → Stops s P w' → Stops s P w

/-- The list that follows what is left of a list. -/
def list? (w : FieldWalk) : Option TypeIndex := (Member.next? w.rest).or w.next?

theorem step?_member {rest : List Member} {next? : Option TypeIndex} (h : m.continuation? = none) :
    step? s ⟨m :: rest, next?⟩ = some (some m, ⟨rest, next?⟩) := by
  simp only [step?, h]

theorem step?_continuation {rest : List Member} {next? : Option TypeIndex}
    (h : m.continuation? = some l) :
    step? s ⟨m :: rest, next?⟩ = some (none, ⟨rest, some l⟩) := by
  simp only [step?, h]

theorem step?_list (h : s.memberList? ti = some ms) :
    step? s ⟨[], some ti⟩ = some (none, ⟨ms, none⟩) := by
  simp only [step?, h, Option.map_some]

theorem halts_iff_stops : Halts s w ↔ Stops s (fun _ => False) w := by
  constructor
  · rintro ⟨n, hn⟩
    induction n generalizing w with
    | zero => exact nomatch hn
    | succ n ih =>
      rcases h : w.step? s with _ | ⟨m?, w'⟩
      · exact .atEnd h
      · rw [after, h] at hn
        exact .step h (ih hn)
  · intro h
    induction h with
    | atEnd h => exact ⟨1, by rw [after, h, Option.bind_none]⟩
    | found _ h => exact h.elim
    | step h _ ih =>
      obtain ⟨n, hn⟩ := ih
      exact ⟨n + 1, by rwa [after, h]⟩

theorem stops_of_mem {rest : List Member} {next? : Option TypeIndex}
    (hP : ∀ m, P m → m.continuation? = none) (hm : m ∈ rest) (h : P m) :
    Stops s P ⟨rest, next?⟩ := by
  induction rest generalizing next? with
  | nil => exact nomatch hm
  | cons m' rest ih =>
    rcases List.mem_cons.1 hm with rfl | hm
    · exact .found (step?_member (hP _ h)) h
    · cases hc : m'.continuation? with
      | none => exact .step (step?_member hc) (ih hm)
      | some list => exact .step (step?_continuation hc) (ih hm)

theorem stops_of_list? {rest : List Member} {next? : Option TypeIndex}
    (h : Stops s P ⟨[], list? ⟨rest, next?⟩⟩) : Stops s P ⟨rest, next?⟩ := by
  induction rest generalizing next? with
  | nil => simpa [list?, Member.next?] using h
  | cons m rest ih =>
    rw [list?, Member.next?_cons, Option.or_assoc] at h
    cases hc : m.continuation? with
    | none => exact .step (step?_member hc) (ih (by rwa [hc, Option.none_or] at h))
    | some list => exact .step (step?_continuation hc) (ih (by rwa [hc, Option.some_or] at h))

theorem stops_of_memberList? (h : s.memberList? ti = some ms)
    (h' : Stops s P ⟨[], Member.next? ms⟩) : Stops s P ⟨[], some ti⟩ :=
  .step (step?_list h) (stops_of_list? (by rwa [list?, Option.or_none]))

theorem stops_of_chainEnds (h : ChainEnds s ti) : Stops s P ⟨[], some ti⟩ := by
  induction h with
  | unreadable h => exact .atEnd (by simp only [step?, h, Option.map_none])
  | last h h' => exact stops_of_memberList? h (h' ▸ .atEnd rfl)
  | next h h' _ ih => exact stops_of_memberList? h (h' ▸ ih)

theorem stops_of_along (hP : ∀ m, P m → m.continuation? = none) (hm : s.Along ti m) (h : P m) :
    Stops s P ⟨[], some ti⟩ := by
  induction hm with
  | here hms hm => exact .step (step?_list hms) (stops_of_mem hP hm h)
  | next hms hnext _ ih => exact stops_of_memberList? hms (hnext ▸ ih h)

theorem step?_cases (h : w.step? s = some (m?, w')) :
    (∃ m rest next?, w = ⟨m :: rest, next?⟩ ∧ m.continuation? = none
      ∧ m? = some m ∧ w' = ⟨rest, next?⟩)
    ∨ (∃ m rest next? l, w = ⟨m :: rest, next?⟩ ∧ m.continuation? = some l
      ∧ m? = none ∧ w' = ⟨rest, some l⟩)
    ∨ ∃ l ms, w = ⟨[], some l⟩ ∧ s.memberList? l = some ms ∧ m? = none ∧ w' = ⟨ms, none⟩ := by
  obtain ⟨_ | ⟨m, rest⟩, next?⟩ := w
  · cases next? with
    | none => exact nomatch h
    | some l =>
      simp only [step?, Option.map_eq_some_iff, Prod.mk.injEq] at h
      obtain ⟨ms, hms, hm, hw⟩ := h
      exact .inr (.inr ⟨l, ms, rfl, hms, hm.symm, hw.symm⟩)
  · cases hc : m.continuation? with
    | none =>
      rw [step?_member hc, Option.some.injEq, Prod.mk.injEq] at h
      exact .inl ⟨m, rest, next?, rfl, hc, h.1.symm, h.2.symm⟩
    | some l =>
      rw [step?_continuation hc, Option.some.injEq, Prod.mk.injEq] at h
      exact .inr (.inl ⟨m, rest, next?, l, rfl, hc, h.1.symm, h.2.symm⟩)

theorem step?_eq_none (h : w.step? s = none) :
    w.list? = none ∨ ∃ l, w.list? = some l ∧ s.memberList? l = none := by
  obtain ⟨_ | ⟨m, rest⟩, _ | l⟩ := w
  · exact .inl rfl
  · rw [step?, Option.map_eq_none_iff] at h
    exact .inr ⟨l, rfl, h⟩
  all_goals
    cases hc : m.continuation? with
    | none => rw [step?_member hc] at h; exact nomatch h
    | some list => rw [step?_continuation hc] at h; exact nomatch h

/-- A walk stops exactly if it meets what it looks for in the list that it is in or in a list that
goes on from there, or if the chain ends. -/
theorem stops_iff (hP : ∀ m, P m → m.continuation? = none) :
    Stops s P w ↔ (∃ m ∈ w.rest, P m)
      ∨ ∀ l, w.list? = some l → ChainEnds s l ∨ ∃ m, s.Along l m ∧ P m := by
  constructor
  · intro h
    induction h with
    | atEnd h =>
      rcases step?_eq_none h with hnone | ⟨l, hl, hms⟩
      · exact .inr fun l hl => nomatch hnone.symm.trans hl
      · exact .inr fun l' hl' => .inl (.unreadable (Option.some.inj (hl.symm.trans hl') ▸ hms))
    | found h hm =>
      rcases step?_cases h with ⟨m, rest, next?, rfl, _, he, _⟩ | ⟨_, _, _, _, _, _, he, _⟩
        | ⟨_, _, _, _, he, _⟩
      · exact .inl ⟨m, List.mem_cons_self, Option.some.inj he ▸ hm⟩
      · exact nomatch he
      · exact nomatch he
    | step h _ ih =>
      rcases step?_cases h with ⟨m, rest, next?, rfl, hc, _, rfl⟩ | ⟨m, rest, next?, l, rfl, hc, _, rfl⟩
        | ⟨l, ms, rfl, hms, _, rfl⟩
      · refine ih.imp (fun ⟨m, hm, h⟩ => ⟨m, List.mem_cons_of_mem _ hm, h⟩) fun ih l hl => ih l ?_
        rwa [list?, Member.next?_cons, hc, Option.or_none] at hl
      · refine ih.imp (fun ⟨m, hm, h⟩ => ⟨m, List.mem_cons_of_mem _ hm, h⟩) fun ih l hl => ih l ?_
        rwa [list?, Member.next?_cons, hc, Option.or_assoc, Option.some_or] at hl
      · refine .inr fun l' hl' => ?_
        obtain rfl : l = l' := Option.some.inj hl'
        rcases ih with ⟨m, hm, h⟩ | ih
        · exact .inr ⟨m, .here hms hm, h⟩
        · cases hnext : Member.next? ms with
          | none => exact .inl (.last hms hnext)
          | some next =>
            have hlist : list? ⟨ms, none⟩ = some next := by rw [list?, hnext, Option.some_or]
            rcases ih next hlist with h | ⟨m, hm, h⟩
            · exact .inl (.next hms hnext h)
            · exact .inr ⟨m, .next hms hnext hm, h⟩
  · obtain ⟨rest, next?⟩ := w
    rintro (⟨m, hm, h⟩ | h)
    · exact stops_of_mem hP hm h
    · refine stops_of_list? ?_
      cases hl : list? ⟨rest, next?⟩ with
      | none => exact .atEnd rfl
      | some l =>
        rcases h l hl with h | ⟨m, hm, h⟩
        · exact stops_of_chainEnds h
        · exact stops_of_along hP hm h

theorem stops_start_iff (hP : ∀ m, P m → m.continuation? = none) :
    Stops s P (start ti) ↔ ti = .none ∨ ChainEnds s ti ∨ ∃ m, s.Along ti m ∧ P m := by
  rw [stops_iff hP]
  by_cases h : ti = .none
  · simp [start, h, list?, Member.next?]
  · simp [start, h, list?, Member.next?]

/-- A walk ends after finitely many steps exactly if its chain comes to no list twice. -/
theorem halts_start_iff : Halts s (start ti) ↔ ti = .none ∨ ¬ s.Circles ti := by
  rw [halts_iff_stops, stops_start_iff fun _ h => h.elim, chainEnds_iff_not_circles]
  simp

/-! ### Visits along a walk -/

/-- Visiting the members has a result exactly if the walk stops where `visit` is done. -/
theorem isSome_run_iff {β : Type} {visit : β → Member → ForInStep β}
    (h : ∀ b m, (∃ c, visit b m = .done c) ↔ P m) (b : β) :
    (w.run s visit b).isSome ↔ Stops s P w := by
  constructor
  · intro hrun
    obtain ⟨c, hc⟩ := Option.isSome_iff_exists.1 hrun
    refine run.partial_correctness s visit (fun _ w _ => Stops s P w) ?_ b w c hc
    intro run ih b w c hc
    rcases hstep : w.step? s with _ | ⟨m?, w'⟩
    · exact .atEnd hstep
    · rw [hstep] at hc
      cases m? with
      | none => exact .step hstep (ih _ _ _ hc)
      | some m =>
        cases hv : visit b m with
        | done c' => exact .found hstep ((h b m).1 ⟨c', hv⟩)
        | yield c' =>
          simp only [hv] at hc
          exact .step hstep (ih _ _ _ hc)
  · intro hstops
    induction hstops generalizing b with
    | atEnd hstep => rw [run, hstep]; rfl
    | found hstep hm =>
      obtain ⟨c, hc⟩ := (h b _).2 hm
      rw [run, hstep]
      simp [hc]
    | @step w w' m? hstep _ ih =>
      rw [run, hstep]
      cases m? with
      | none => exact ih b
      | some m =>
        cases hv : visit b m with
        | done c => simp [hv]
        | yield c => simpa [hv] using ih c

/-! ### The members that a walk visits -/

/-- A walk still has to come over a member. -/
def Ahead (s : TypeStream) (w : FieldWalk) (m : Member) : Prop :=
  (m ∈ w.rest ∨ ∃ l, w.list? = some l ∧ s.Along l m) ∧ m.continuation? = none

theorem not_ahead_of_step?_eq_none (h : w.step? s = none) : ¬ Ahead s w m := by
  rintro ⟨hm, -⟩
  obtain ⟨_ | ⟨m', rest⟩, next?⟩ := w
  · rcases hm with hm | ⟨l, hl, hm⟩
    · exact nomatch hm
    · rcases step?_eq_none h with hnone | ⟨l', hl', hms⟩
      · exact nomatch hl.symm.trans hnone
      · obtain rfl := Option.some.inj (hl.symm.trans hl')
        cases hm with
        | here hms' _ => exact nomatch hms.symm.trans hms'
        | next hms' _ _ => exact nomatch hms.symm.trans hms'
  · cases hc : m'.continuation? with
    | none => rw [step?_member hc] at h; exact nomatch h
    | some l => rw [step?_continuation hc] at h; exact nomatch h

/-- A step takes the member that it comes over off what is ahead, and nothing else. -/
theorem ahead_step? (h : w.step? s = some (m?, w')) :
    Ahead s w m ↔ m? = some m ∨ Ahead s w' m := by
  rcases step?_cases h with ⟨m', rest, next?, rfl, hc, rfl, rfl⟩
    | ⟨m', rest, next?, l, rfl, hc, rfl, rfl⟩ | ⟨l, ms, rfl, hms, rfl, rfl⟩
  · have hlist : list? ⟨m' :: rest, next?⟩ = list? ⟨rest, next?⟩ := by
      rw [list?, list?, Member.next?_cons, hc, Option.or_none]
    simp only [Ahead, hlist, List.mem_cons, Option.some.injEq]
    constructor
    · rintro ⟨(rfl | hm) | hm, hnone⟩
      exacts [.inl rfl, .inr ⟨.inl hm, hnone⟩, .inr ⟨.inr hm, hnone⟩]
    · rintro (rfl | ⟨hm | hm, hnone⟩)
      exacts [⟨.inl (.inl rfl), hc⟩, ⟨.inl (.inr hm), hnone⟩, ⟨.inr hm, hnone⟩]
  · have hlist : list? ⟨m' :: rest, next?⟩ = list? ⟨rest, some l⟩ := by
      rw [list?, list?, Member.next?_cons, hc, Option.or_assoc, Option.some_or]
    simp only [Ahead, hlist, List.mem_cons, reduceCtorEq, false_or]
    constructor
    · rintro ⟨(rfl | hm) | hm, hnone⟩
      · exact nomatch hc.symm.trans hnone
      · exact ⟨.inl hm, hnone⟩
      · exact ⟨.inr hm, hnone⟩
    · rintro ⟨hm | hm, hnone⟩
      exacts [⟨.inl (.inr hm), hnone⟩, ⟨.inr hm, hnone⟩]
  · have hlist : list? ⟨[], some l⟩ = some l := rfl
    have hnext : list? ⟨ms, none⟩ = Member.next? ms := Option.or_none
    simp only [Ahead, hlist, hnext, List.not_mem_nil, reduceCtorEq, false_or, Option.some.injEq,
      exists_eq_left']
    refine and_congr_left fun _ => ⟨fun hm => ?_, ?_⟩
    · cases hm with
      | here hms' hm => exact .inl (Option.some.inj (hms.symm.trans hms') ▸ hm)
      | next hms' hnext' hm =>
        exact .inr ⟨_, Option.some.inj (hms.symm.trans hms') ▸ hnext', hm⟩
    · rintro (hm | ⟨next, hnext', hm⟩)
      exacts [.here hms hm, .next hms hnext' hm]

/-- Collecting members finds those that are ahead, besides what there is already. -/
theorem mem_of_run_cons {ms ms' : List Member}
    (h : w.run s (fun ms m => .yield (m :: ms)) ms = some ms') :
    m ∈ ms' ↔ m ∈ ms ∨ Ahead s w m := by
  refine run.partial_correctness s (fun ms m => .yield (m :: ms))
    (fun ms w ms' => m ∈ ms' ↔ m ∈ ms ∨ Ahead s w m) ?_ ms w ms' h
  intro run ih ms w ms' h
  rcases hstep : w.step? s with _ | ⟨m?, w'⟩
  · rw [hstep] at h
    obtain rfl := Option.some.inj h
    simp [not_ahead_of_step?_eq_none hstep]
  · rw [hstep] at h
    rw [ahead_step? hstep]
    cases m? with
    | none => simpa using ih _ _ _ h
    | some m' =>
      rw [ih _ _ _ h, List.mem_cons, Option.some.injEq, eq_comm (a := m), or_assoc, or_left_comm]

end FieldWalk

theorem fields?_none (s : TypeStream) : s.fields? .none = some [] := by
  rw [fields?, FieldWalk.run]
  rfl

/-- The members of a list and of those that go on from it are those along its chain, other than
continuations. -/
theorem mem_fields? (h : s.fields? ti = some ms) (hti : ti ≠ .none) :
    m ∈ ms ↔ s.Along ti m ∧ m.continuation? = none := by
  obtain ⟨ms', hrun, rfl⟩ := Option.map_eq_some_iff.1 h
  rw [List.mem_reverse, FieldWalk.mem_of_run_cons hrun]
  simp [FieldWalk.Ahead, FieldWalk.start, if_neg hti, FieldWalk.list?, Member.next?]

/-! ### A list that does not go on -/

theorem continuation?_eq_none_of_next? (h : Member.next? ms = none) (hm : m ∈ ms) :
    m.continuation? = none := by
  rw [Member.next?, List.getLast?_eq_none_iff, List.filterMap_eq_nil_iff] at h
  exact h m hm

theorem FieldWalk.run_of_next?_eq_none (h : Member.next? ms = none) (ms' : List Member) :
    run s (fun ms m => .yield (m :: ms)) ms' ⟨ms, none⟩ = some (ms.reverse ++ ms') := by
  induction ms generalizing ms' with
  | nil => rw [run]; rfl
  | cons m ms ih =>
    have hm := continuation?_eq_none_of_next? h List.mem_cons_self
    rw [Member.next?_cons, Option.or_eq_none_iff] at h
    rw [run, step?_member hm]
    simpa using ih h.1 (m :: ms')

theorem fields?_of_nextList?_eq_none (h : s.nextList? ti = none) :
    s.fields? ti = some ((s.memberList? ti).getD []) := by
  rw [fields?, FieldWalk.start]
  by_cases hti : ti = .none
  · have hnone : s.memberList? ti = none := by
      rw [memberList?, type?_of_isSimple (hti ▸ rfl)]
    rw [if_pos hti, hnone, FieldWalk.run_of_next?_eq_none rfl]
    rfl
  · rw [if_neg hti, FieldWalk.run]
    cases hms : s.memberList? ti with
    | none =>
      simp [FieldWalk.step?, hms]
    | some ms =>
      rw [nextList?, hms, Option.bind_some] at h
      simp [FieldWalk.step?, hms, FieldWalk.run_of_next?_eq_none h]

/-! ### What waits for the end of a chain -/

/-- The members along a chain can be listed exactly if the chain comes to no list twice. -/
theorem isSome_fields?_iff : (s.fields? ti).isSome ↔ ti = .none ∨ ¬ s.Circles ti := by
  rw [fields?, Option.isSome_map, FieldWalk.isSome_run_iff (P := fun _ => False) (by simp),
    ← FieldWalk.halts_iff_stops, FieldWalk.halts_start_iff]

/-- Counting the base classes may end at a virtual one before the chain does. -/
theorem isSome_inheritance?_iff : (s.inheritance? ti).isSome
    ↔ ti = .none ∨ ¬ s.Circles ti ∨ ∃ m, s.Along ti m ∧ m.isVirtualBase := by
  rw [inheritance?, Option.isSome_map, FieldWalk.isSome_run_iff (P := fun m => m.isVirtualBase),
    FieldWalk.stops_start_iff, chainEnds_iff_not_circles]
  · intro m h
    cases m <;> simp_all [Member.isVirtualBase, Member.continuation?]
  · intro b m
    cases m <;> simp [InheritanceModel.countBase, Member.isVirtualBase]

theorem isSome_foldlM_iff {α β : Type} {f : β → α → Option β} {p : α → Prop}
    (h : ∀ b a, (f b a).isSome ↔ p a) (as : List α) (b : β) :
    (as.foldlM f b).isSome ↔ ∀ a ∈ as, p a := by
  induction as generalizing b with
  | nil => simp
  | cons a as ih =>
    rw [List.foldlM_cons, List.forall_mem_cons, ← h b a]
    cases f b a with
    | none => simp
    | some b => simpa using ih b

theorem ne_none_of_nester? {unique : Bytes} {list : TypeIndex}
    (h : s.nester? ti = some (unique, list)) : list ≠ .none := by
  simp only [nester?, Option.bind_eq_bind, Option.bind_eq_some_iff, Option.pure_def,
    Option.some.injEq, Prod.mk.injEq] at h
  obtain ⟨t, _, _, _, _, _, list', hlist, _, _, _, rfl⟩ := h
  exact of_decide_eq_true (Option.filter_eq_some_iff.1 hlist).2

/-- The table of nested records is there exactly if no list of members that it is made from is the
start of a chain that comes to a list twice. -/
theorem isSome_nesting?_iff : s.nesting?.isSome
    ↔ ∀ ti ∈ s.indexes, ∀ unique list, s.nester? ti = some (unique, list) → ¬ s.Circles list := by
  refine isSome_foldlM_iff (fun n ti => ?_) ..
  rw [enterAll?]
  rcases h : s.nester? ti with _ | ⟨unique, list⟩
  · simp
  · simp [isSome_fields?_iff, ne_none_of_nester? h]

end TypeStream
end Pdb
