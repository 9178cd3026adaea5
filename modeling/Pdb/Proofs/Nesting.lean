import Pdb.Nesting
import Pdb.Proofs.SymbolFile
import Pdb.Writer.Types

/-! # What the table of nested records says

An entry of the table stands for a member of the outer record: it comes from a nested type that the
outer record lists under the name that makes up the difference between the two unique names
(`Listing`). The table is built record after record and a later record may overwrite the entry of an
earlier one, so it has an entry wherever there is a listing, for one of the records that list it.

Nothing looks for circles. There are none because the unique name of a nested record, and so also
that of the definition that a forward reference leads to, is longer than that of the record around
it: `nesting?_correct`.
-/

namespace Pdb

namespace UniqueName

theorem length_of_nests {parent child name : Bytes} (h : nests parent child name) :
    child.length = parent.length + name.length + 1 := by
  rw [nests] at h
  split at h
  · next c scopes letter rest hparent hchild =>
    have hdrop : (parent.drop 3).length = scopes.length + 1 := by rw [hparent, List.length_cons]
    have hchild := congrArg List.length (of_decide_eq_true h)
    rw [List.length_drop] at hdrop
    simp only [List.length_append, List.length_take, List.length_cons] at hchild
    omega
  · exact absurd h Bool.false_ne_true

end UniqueName

theorem TypeRecord.isTag_of_properties? {t : TypeRecord} {p : Properties}
    (h : t.properties? = some p) : t.isTag := by
  cases t <;> first | rfl | exact nomatch h

theorem TypeRecord.isForwardRef_eq {t : TypeRecord} {p : Properties} (h : t.properties? = some p) :
    t.isForwardRef = p.forwardRef := by
  rw [isForwardRef, h, Option.map_some, Option.getD_some]

namespace TypeStream
variable {s : TypeStream} {c p ti : TypeIndex} {m : Member} {t : TypeRecord} {n n' : Nesting}

/-! ### Unique names -/

/-- The unique name of the record at `ti`. -/
def uniqueName? (s : TypeStream) (ti : TypeIndex) : Option Bytes :=
  (s.type? ti).bind TypeRecord.uniqueName?

/-- A definition has the unique name of the forward references that lead to it. -/
theorem uniqueName?_definition {u : Bytes} (h : s.uniqueName? ti = some u) :
    s.uniqueName? (s.definition ti) = some u := by
  rw [definition]
  rcases hf : s.forwardRef? ti with _ | ⟨leaf, f, name⟩
  · exact h
  · dsimp only
    cases hc : (s.find name).find? fun c => c ≠ ti && s.defines leaf f c with
    | none => exact h
    | some c =>
      have hdef := List.find?_some hc
      simp only [Bool.and_eq_true] at hdef
      have hdef := hdef.2
      have hu : f.uniqueName? = some u := by
        simp only [forwardRef?, Option.bind_eq_bind, Option.bind_eq_some_iff, Option.pure_def,
          Option.some.injEq, Prod.mk.injEq] at hf
        obtain ⟨r, hr, t, ht, _, _, _, _, _, _, _, rfl, _⟩ := hf
        rwa [uniqueName?, type?_eq, hr, Option.bind_some, ht, Option.bind_some] at h
      rw [defines] at hdef
      rw [Option.getD_some, uniqueName?, type?_eq]
      cases hr : s.record c with
      | error e => rw [hr] at hdef; exact absurd hdef Bool.false_ne_true
      | ok r =>
        rw [hr] at hdef
        cases ht : r.type? with
        | none => simp [ht] at hdef
        | some t => simp_all [matches_, Except.toOption]

/-! ### Listings -/

/-- How the record at `c` is listed in the one at `p` as defined there: the one at `p` is a
definition that has nested types, and the chain of its members has the one at `c` under a name that
makes its unique name out of that of the one at `p`. -/
structure Listing (s : TypeStream) (c p : TypeIndex) where
  outer : TypeRecord
  outer_eq : s.type? p = some outer
  outer_isTag : outer.isTag
  outer_isDefinition : outer.isForwardRef = false
  properties : Properties
  properties_eq : outer.properties? = some properties
  containsNested : properties.containsNested
  outerName : Bytes
  outerName_eq : outer.uniqueName? = some outerName
  list : TypeIndex
  list_eq : outer.members? = some list
  member : Member
  along : s.Along list member
  name : Bytes
  member_eq : member.nested? = some (c, name)
  isRecord : c.isSimple = false
  inner : TypeRecord
  inner_eq : s.type? c = some inner
  inner_isTag : inner.isTag
  innerName : Bytes
  innerName_eq : inner.uniqueName? = some innerName
  nests : UniqueName.nests outerName innerName name

/-- The record at `c` is listed in the one at `p`, or is the definition of a forward reference that
is. -/
def NestedIn (s : TypeStream) (c p : TypeIndex) : Prop :=
  ∃ (c' : TypeIndex) (l : s.Listing c' p), c = c' ∨ l.inner.isForwardRef ∧ c = s.definition c'

theorem Listing.uniqueName?_eq {c' : TypeIndex} (l : s.Listing c' p)
    (hc : c = c' ∨ l.inner.isForwardRef ∧ c = s.definition c') :
    s.uniqueName? c = some l.innerName := by
  have hinner : s.uniqueName? c' = some l.innerName := by
    rw [uniqueName?, l.inner_eq, Option.bind_some, l.innerName_eq]
  rcases hc with rfl | ⟨-, rfl⟩
  · exact hinner
  · exact uniqueName?_definition hinner

/-- The unique name of a nested record is longer than that of the record around it. -/
theorem NestedIn.shorter (h : s.NestedIn c p) : ∃ u v, s.uniqueName? c = some u
    ∧ s.uniqueName? p = some v ∧ v.length < u.length := by
  obtain ⟨c', l, hc⟩ := h
  have houter : s.uniqueName? p = some l.outerName := by
    rw [uniqueName?, l.outer_eq, Option.bind_some, l.outerName_eq]
  have hlength := UniqueName.length_of_nests l.nests
  exact ⟨l.innerName, l.outerName, l.uniqueName?_eq hc, houter, by omega⟩

theorem NestedIn.mem_indexes (h : s.NestedIn c p) : p ∈ s.indexes := by
  obtain ⟨_, l, _⟩ := h
  have houter := l.outer_eq
  rw [type?_eq, Option.bind_eq_some_iff] at houter
  obtain ⟨record, hrecord, _⟩ := houter
  exact TypeStream.mem_indexes hrecord

/-! ### Building the table -/

theorem nester?_eq_some {u : Bytes} {list : TypeIndex} :
    s.nester? p = some (u, list) ↔ ∃ t q, s.type? p = some t ∧ t.properties? = some q
      ∧ q.forwardRef = false ∧ q.containsNested ∧ t.members? = some list
      ∧ t.uniqueName? = some u := by
  simp only [nester?, Option.bind_eq_bind, Option.bind_eq_some_iff, Option.guard_eq_some',
    Option.pure_def, Option.some.injEq, Prod.mk.injEq, Bool.and_eq_true, Bool.not_eq_true']
  constructor
  · rintro ⟨t, ht, q, hq, _, ⟨hf, hn⟩, l, hl, v, hv, rfl, rfl⟩
    exact ⟨t, q, ht, hq, hf, hn, hl, hv⟩
  · rintro ⟨t, q, ht, hq, hf, hn, hl, hv⟩
    exact ⟨t, ht, q, hq, (), ⟨hf, hn⟩, list, hl, u, hv, rfl, rfl⟩

theorem nestedIn?_eq_some {u : Bytes} :
    s.nestedIn? u m = some (c, t) ↔ ∃ name v, m.nested? = some (c, name) ∧ c.isSimple = false
      ∧ s.type? c = some t ∧ t.isTag ∧ t.uniqueName? = some v ∧ UniqueName.nests u v name := by
  simp only [nestedIn?, Option.bind_eq_bind, Option.bind_eq_some_iff, Option.guard_eq_some',
    Option.pure_def, Option.some.injEq, Prod.mk.injEq, Bool.not_eq_true', Prod.exists]
  constructor
  · rintro ⟨c, name, hm, _, hc, t, ht, _, htag, v, hv, _, hn, rfl, rfl⟩
    exact ⟨name, v, hm, hc, ht, htag, hv, hn⟩
  · rintro ⟨name, v, hm, hc, ht, htag, hv, hn⟩
    exact ⟨c, name, hm, (), hc, t, ht, (), htag, v, hv, (), hn, rfl, rfl⟩

theorem not_continuation_of_nested? {q : TypeIndex × Bytes} (h : m.nested? = some q) :
    m.continuation? = none := by
  cases m <;> first | rfl | exact nomatch h

theorem exists_listing {u : Bytes} {list : TypeIndex} (hp : s.nester? p = some (u, list))
    (hm : s.Along list m) (ht : s.nestedIn? u m = some (c, t)) :
    ∃ l : s.Listing c p, l.inner = t := by
  obtain ⟨outer, q, houter, hq, hforward, hnested, hmembers, hu⟩ := nester?_eq_some.1 hp
  obtain ⟨name, v, hname, hsimple, hinner, htag, hv, hnests⟩ := nestedIn?_eq_some.1 ht
  exact ⟨{
    outer, outer_eq := houter, outer_isTag := TypeRecord.isTag_of_properties? hq
    outer_isDefinition := (TypeRecord.isForwardRef_eq hq).trans hforward
    properties := q, properties_eq := hq, containsNested := hnested
    outerName := u, outerName_eq := hu, list, list_eq := hmembers
    member := m, along := hm, name, member_eq := hname
    isRecord := hsimple, inner := t, inner_eq := hinner, inner_isTag := htag
    innerName := v, innerName_eq := hv, nests := hnests }, rfl⟩

/-- What is nested in a record, by the members that are found along its chain. -/
theorem nestedIn_iff {u : Bytes} {list : TypeIndex} {ms : List Member}
    (hp : s.nester? p = some (u, list)) (hms : s.fields? list = some ms) :
    s.NestedIn c p ↔ ∃ e ∈ ms.filterMap (s.nestedIn? u),
      c = e.1 ∨ e.2.isForwardRef ∧ c = s.definition e.1 := by
  have hlist := ne_none_of_nester? hp
  constructor
  · rintro ⟨c', l, hc⟩
    obtain ⟨outer, q, houter, -, -, -, hmembers, hu⟩ := nester?_eq_some.1 hp
    obtain rfl := Option.some.inj (houter.symm.trans l.outer_eq)
    obtain rfl := Option.some.inj (hu.symm.trans l.outerName_eq)
    obtain rfl := Option.some.inj (hmembers.symm.trans l.list_eq)
    refine ⟨(c', l.inner), List.mem_filterMap.2 ⟨l.member, ?_, ?_⟩, hc⟩
    · exact (mem_fields? hms hlist).2 ⟨l.along, not_continuation_of_nested? l.member_eq⟩
    · exact nestedIn?_eq_some.2 ⟨l.name, l.innerName, l.member_eq, l.isRecord, l.inner_eq,
        l.inner_isTag, l.innerName_eq, l.nests⟩
  · rintro ⟨⟨c', t⟩, hmem, hc⟩
    obtain ⟨m, hm, ht⟩ := List.mem_filterMap.1 hmem
    obtain ⟨l, rfl⟩ := exists_listing hp ((mem_fields? hms hlist).1 hm).1 ht
    exact ⟨c', l, hc⟩

theorem not_nestedIn_of_nester? (h : s.nester? p = none) : ¬ s.NestedIn c p := by
  rintro ⟨_, l, _⟩
  have hsome : s.nester? p = some (l.outerName, l.list) := nester?_eq_some.2
    ⟨l.outer, l.properties, l.outer_eq, l.properties_eq,
      (TypeRecord.isForwardRef_eq l.properties_eq).symm.trans l.outer_isDefinition,
      l.containsNested, l.list_eq, l.outerName_eq⟩
  exact nomatch h.symm.trans hsome

theorem find?_enterNested (k : TypeIndex) : (s.enterNested p n c t).find? k
    = if k = c ∨ t.isForwardRef ∧ k = s.definition c then some p else n.find? k := by
  rw [enterNested]
  dsimp only
  by_cases hf : t.isForwardRef
  · by_cases hfull : s.definition c = c
    · simp [hf, hfull, Table.find?_insert]
    · simp only [hf, hfull, if_true, if_false, Table.find?_insert, true_and]
      by_cases hk : k = c <;> by_cases hd : k = s.definition c <;> simp [hk, hd]
  · simp [hf, Table.find?_insert]

theorem find?_foldl_enterNested (es : List (TypeIndex × TypeRecord)) (n : Nesting) (k : TypeIndex) :
    ((∃ e ∈ es, k = e.1 ∨ e.2.isForwardRef ∧ k = s.definition e.1) →
      (es.foldl (fun n e => s.enterNested p n e.1 e.2) n).find? k = some p)
    ∧ ((¬ ∃ e ∈ es, k = e.1 ∨ e.2.isForwardRef ∧ k = s.definition e.1) →
      (es.foldl (fun n e => s.enterNested p n e.1 e.2) n).find? k = n.find? k) := by
  induction es generalizing n with
  | nil => simp
  | cons e es ih =>
    rw [List.foldl_cons]
    have hfirst := find?_enterNested (s := s) (p := p) (n := n) (c := e.1) (t := e.2) k
    obtain ⟨hin, hout⟩ := ih (s.enterNested p n e.1 e.2)
    by_cases hes : ∃ e ∈ es, k = e.1 ∨ e.2.isForwardRef ∧ k = s.definition e.1
    · refine ⟨fun _ => hin hes, fun hnot => absurd ?_ hnot⟩
      obtain ⟨e', he', hk⟩ := hes
      exact ⟨e', List.mem_cons_of_mem _ he', hk⟩
    · rw [hout hes, hfirst]
      constructor
      · rintro ⟨e', he', hk⟩
        rcases List.mem_cons.1 he' with rfl | he'
        · exact if_pos hk
        · exact absurd ⟨e', he', hk⟩ hes
      · exact fun hnot => if_neg fun hk => hnot ⟨e, List.mem_cons_self, hk⟩

/-- A record is entered for all that is nested in it, and for nothing else. -/
theorem find?_enterAll? (h : s.enterAll? n p = some n') (k : TypeIndex) :
    (s.NestedIn k p → n'.find? k = some p) ∧ (¬ s.NestedIn k p → n'.find? k = n.find? k) := by
  rw [enterAll?] at h
  rcases hp : s.nester? p with _ | ⟨u, list⟩
  · rw [hp] at h
    obtain rfl := Option.some.inj h
    exact ⟨fun hk => absurd hk (not_nestedIn_of_nester? hp), fun _ => rfl⟩
  · rw [hp] at h
    obtain ⟨ms, hms, rfl⟩ := Option.map_eq_some_iff.1 h
    rw [nestedIn_iff hp hms]
    exact find?_foldl_enterNested _ n k

/-- The table of nested records of a stream in which no list of members goes on. -/
theorem nesting?_of_nextList?_eq_none (h : ∀ ti ∈ s.indexes, s.nextList? ti = none) :
    s.nesting? = some (s.indexes.foldl (fun n ti => match s.nester? ti with
      | none => n
      | some (unique, list) => (((s.memberList? list).getD []).filterMap (s.nestedIn? unique)).foldl
        (fun n c => s.enterNested ti n c.1 c.2) n) .empty) := by
  have henter (n : Nesting) (ti : TypeIndex) : s.enterAll? n ti = some (match s.nester? ti with
      | none => n
      | some (unique, list) => (((s.memberList? list).getD []).filterMap (s.nestedIn? unique)).foldl
        (fun n c => s.enterNested ti n c.1 c.2) n) := by
    rw [enterAll?]
    rcases s.nester? ti with _ | ⟨unique, list⟩
    · rfl
    · simp only [fields?_of_nextList?_eq_none (nextList?_eq_none h list), Option.map_some]
  rw [nesting?, show s.enterAll? = _ from funext fun n => funext (henter n)]
  exact List.foldlM_pure ..

/-- Entering records one after another: the last one that `c` is nested in is the one around it. -/
theorem find?_foldlM_enterAll? {ps : List TypeIndex} (h : ps.foldlM s.enterAll? n = some n')
    (c : TypeIndex) :
    ((∀ q ∈ ps, ¬ s.NestedIn c q) ∧ n'.find? c = n.find? c)
      ∨ ∃ q ∈ ps, s.NestedIn c q ∧ n'.find? c = some q := by
  induction ps generalizing n with
  | nil => exact .inl ⟨nofun, Option.some.inj h ▸ rfl⟩
  | cons q ps ih =>
    rw [List.foldlM_cons] at h
    obtain ⟨n₁, hq, hps⟩ := Option.bind_eq_some_iff.1 h
    obtain ⟨hin, hout⟩ := find?_enterAll? hq c
    rcases ih hps with ⟨hnot, hsame⟩ | ⟨r, hr, hc, hlast⟩
    · by_cases hc : s.NestedIn c q
      · exact .inr ⟨q, List.mem_cons_self, hc, hsame.trans (hin hc)⟩
      · exact .inl ⟨List.forall_mem_cons.2 ⟨hc, hnot⟩, hsame.trans (hout hc)⟩
    · exact .inr ⟨r, List.mem_cons_of_mem _ hr, hc, hlast⟩

theorem nestedIn_of_nesting? (h : s.nesting? = some n) (hc : n.find? c = some p) :
    s.NestedIn c p := by
  rcases find?_foldlM_enterAll? h c with ⟨-, hsame⟩ | ⟨q, -, hcq, hlast⟩
  · exact absurd (hsame.symm.trans hc) (by simp [Table.find?_empty])
  · exact Option.some.inj (hlast.symm.trans hc) ▸ hcq

theorem isSome_find?_of_nestedIn (h : s.nesting? = some n) (hc : s.NestedIn c p) :
    (n.find? c).isSome := by
  rcases find?_foldlM_enterAll? h c with ⟨hnot, -⟩ | ⟨q, -, -, hlast⟩
  · exact absurd hc (hnot p hc.mem_indexes)
  · rw [hlast]
    rfl

end TypeStream

/-! ### From the inside out -/

namespace Nesting
variable {s : TypeStream} {n : Nesting} {ti a : TypeIndex} {i j k : Nat}

/-- The record that is `k` records further out. -/
def outward? (n : Nesting) : (k : Nat) → TypeIndex → Option TypeIndex
  | 0, ti => some ti
  | k + 1, ti => (n.find? ti).bind (outward? n k)

/-- The length of the unique name of a record, as a measure of how deep it is inside of others. -/
def nameLength (s : TypeStream) (ti : TypeIndex) : Nat := ((s.uniqueName? ti).map List.length).getD 0

theorem nameLength_lt (h : s.nesting? = some n) (hp : n.find? ti = some a) :
    nameLength s a < nameLength s ti := by
  obtain ⟨u, v, hu, hv, hlt⟩ := (TypeStream.nestedIn_of_nesting? h hp).shorter
  simpa [nameLength, hu, hv] using hlt

theorem nameLength_outward? (h : s.nesting? = some n) (ha : n.outward? k ti = some a) :
    nameLength s a + k ≤ nameLength s ti := by
  induction k generalizing ti with
  | zero => exact Option.some.inj ha ▸ Nat.le_refl _
  | succ k ih =>
    obtain ⟨p, hp, ha⟩ := Option.bind_eq_some_iff.1 ha
    have hlt := nameLength_lt h hp
    have hle := ih ha
    omega

theorem outward?_add (n : Nesting) (i j : Nat) (ti : TypeIndex) :
    n.outward? (i + j) ti = (n.outward? i ti).bind (n.outward? j) := by
  induction i generalizing ti with
  | zero => rw [Nat.zero_add, outward?, Option.bind_some]
  | succ i ih =>
    rw [Nat.succ_add, outward?, outward?, Option.bind_assoc]
    exact Option.bind_congr fun p _ => ih p

theorem outward?_inj (h : s.nesting? = some n) (hi : n.outward? i ti = some a)
    (hj : n.outward? j ti = some a) : i = j := by
  have hle {i j : Nat} (hi : n.outward? i ti = some a) (hj : n.outward? j ti = some a) : j ≤ i := by
    by_contra hlt
    obtain ⟨k, rfl⟩ := Nat.exists_eq_add_of_le (Nat.le_of_lt (Nat.not_le.1 hlt))
    rw [outward?_add, hi, Option.bind_some] at hj
    have hlength := nameLength_outward? h hj
    omega
  exact Nat.le_antisymm (hle hj hi) (hle hi hj)

/-- What the table of nested records of a stream should be. -/
structure Correct (s : TypeStream) (n : Nesting) : Prop where
  sound {c p : TypeIndex} : n.find? c = some p → s.NestedIn c p
  complete {c p : TypeIndex} : s.NestedIn c p → ∃ p', n.find? c = some p'
  shorter {c p : TypeIndex} : n.find? c = some p → ∃ u v, s.uniqueName? c = some u
    ∧ s.uniqueName? p = some v ∧ v.length < u.length
  /-- Going from a record to the one around it comes to an end. -/
  ends (ti : TypeIndex) : ∃ k, n.outward? k ti = none
  /-- It comes to no record twice. -/
  once {ti a : TypeIndex} {i j : Nat} :
    n.outward? i ti = some a → n.outward? j ti = some a → i = j

theorem correct_of_nesting? (h : s.nesting? = some n) : n.Correct s where
  sound hp := TypeStream.nestedIn_of_nesting? h hp
  complete hc := Option.isSome_iff_exists.1 (TypeStream.isSome_find?_of_nestedIn h hc)
  shorter hp := (TypeStream.nestedIn_of_nesting? h hp).shorter
  ends ti := by
    refine ⟨nameLength s ti + 1, Option.eq_none_iff_forall_ne_some.2 fun a ha => ?_⟩
    have hlength := nameLength_outward? h ha
    omega
  once hi hj := outward?_inj h hi hj

end Nesting

namespace TypeStream

/-- Where chains of members end there is a table of nested records. It says of each record that is
listed as nested where it is, and of no other, and leads outwards from any record to an end. -/
theorem nesting?_correct {s : TypeStream} (h : s.ChainsEnd) :
    ∃ n, s.nesting? = some n ∧ n.Correct s := by
  have hsome : s.nesting?.isSome := isSome_nesting?_iff.2 fun _ _ _ list _ => h list
  obtain ⟨n, hn⟩ := Option.isSome_iff_exists.1 hsome
  exact ⟨n, hn, Nesting.correct_of_nesting? hn⟩

/-- A stream with a reference to a structure at `0x1000`, its definition at `0x1002`, and at `0x1004`
the class that it is nested in. -/
def nestedTypes : TypeStream :=
  let inner := Text.utf8 "Outer::Inner"
  let innerName := some (Text.utf8 ".?AUInner@Outer@@")
  let (reference, t) := TypeList.addClass {} .structure_ inner innerName .none 0 true
  let (empty, t) := t.addFields []
  let (_, t) := t.addClass .structure_ inner innerName empty 1 false
  let (list, t) := t.addFields [.nested reference (Text.utf8 "Inner"), .nested ⟨0x74⟩ (Text.utf8 "Int")]
  let (_, t) := t.addClass .class_ (Text.utf8 "Outer") (some (Text.utf8 ".?AVOuter@@")) list 1 false
  match TypeStream.parse .types (.ofBytes t.encode) with
  | .ok s => s
  | .error _ => .empty .types

theorem chainsEnd_nestedTypes : nestedTypes.ChainsEnd :=
  chainsEnd_of_nextList?_eq_none (by decide +kernel)

theorem nestedIn_nestedTypes {c : TypeIndex} (hc : c = ⟨0x1000⟩ ∨ c = ⟨0x1002⟩) :
    nestedTypes.NestedIn c ⟨0x1004⟩ := by
  let member : Member := .nested ⟨0x1000⟩ (Text.utf8 "Inner")
  have hrecords : nestedTypes.nester? ⟨0x1004⟩ = some (Text.utf8 ".?AVOuter@@", ⟨0x1003⟩)
      ∧ nestedTypes.memberList? ⟨0x1003⟩ = some [member, .nested ⟨0x74⟩ (Text.utf8 "Int")]
      ∧ (nestedTypes.nestedIn? (Text.utf8 ".?AVOuter@@") member).map
        (fun e => (e.1, e.2.isForwardRef)) = some (⟨0x1000⟩, true)
      ∧ nestedTypes.definition ⟨0x1000⟩ = ⟨0x1002⟩ := by
    decide +kernel
  obtain ⟨hp, hlist, hinner, hdefinition⟩ := hrecords
  obtain ⟨ms, hms⟩ := Option.isSome_iff_exists.1
    (isSome_fields?_iff.2 (.inr (chainsEnd_nestedTypes ⟨0x1003⟩)))
  have hmember : member ∈ ms :=
    (mem_fields? hms (by decide)).2 ⟨.here hlist List.mem_cons_self, rfl⟩
  obtain ⟨⟨c', t⟩, he, heq⟩ := Option.map_eq_some_iff.1 hinner
  obtain ⟨rfl, hforward⟩ := Prod.mk.inj heq
  refine (nestedIn_iff hp hms).2 ⟨_, List.mem_filterMap.2 ⟨member, hmember, he⟩, ?_⟩
  exact hc.imp_right fun hc => ⟨hforward, hc.trans hdefinition.symm⟩

theorem nesting?_correct_nested : ∃ n, nestedTypes.nesting? = some n ∧ n.Correct nestedTypes
    ∧ (n.find? ⟨0x1000⟩).isSome ∧ (n.find? ⟨0x1002⟩).isSome := by
  obtain ⟨n, hn, hcorrect⟩ := nesting?_correct chainsEnd_nestedTypes
  have hentry {c : TypeIndex} (hc : c = ⟨0x1000⟩ ∨ c = ⟨0x1002⟩) : (n.find? c).isSome :=
    Option.isSome_iff_exists.2 (hcorrect.complete (nestedIn_nestedTypes hc))
  exact ⟨n, hn, hcorrect, hentry (.inl rfl), hentry (.inr rfl)⟩

end TypeStream
end Pdb
