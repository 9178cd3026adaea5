import Pdb.Proofs.Codec
import Pdb.Proofs.FieldWalk
import Pdb.Writer.Types
import Pdb.Proofs.SymbolFile

/-! # The members along a chain, in order

`Lists` are the lists of a chain, each taken from the bytes of its record member by member, and
`FieldWalk.Produces` is what is still to come from a place on. A continuation is only remembered
until the list that it stands in is over, so what comes from within a list is the rest of that list
and then what comes from the list that is remembered last (`produces_rest`). Main statement: along a
chain that comes to no list twice, a walk comes over the members of its lists one list after
another, without the continuations, and ends (`fields?_of_not_circles`).
-/

namespace Pdb

namespace Member

/-- The bytes of a list spell members until no further one can be decoded. -/
inductive Spelled : Bytes → List Member → Prop
  | stop {bs : Bytes} : next bs = none → Spelled bs []
  | member {bs rest : Bytes} {m : Member} {ms : List Member} :
    next bs = some (m, rest) → Spelled rest ms → Spelled bs (m :: ms)

/-- The member is part of what a list describes, not a link to another list. -/
def isPlain (m : Member) : Bool := m.continuation?.isNone

theorem Spelled.unique {bs : Bytes} {ms ms' : List Member} (h : Spelled bs ms) (h' : Spelled bs ms') :
    ms = ms' := by
  induction h generalizing ms' with
  | stop hstop =>
    cases h' with
    | stop _ => rfl
    | member hnext _ => exact nomatch hstop.symm.trans hnext
  | member hnext _ ih =>
    cases h' with
    | stop hstop => exact nomatch hnext.symm.trans hstop
    | member hnext' hms' =>
      obtain ⟨rfl, rfl⟩ := Prod.mk.inj (Option.some.inj (hnext.symm.trans hnext'))
      rw [ih hms']

theorem spelled_list (bs : Bytes) : Spelled bs (list bs) := by
  induction bs using Decoder.many_induct next_progress with
  | stop bs h =>
    rw [list, listWithRest, Decoder.many_eq, h]
    exact .stop h
  | value bs m r h ih =>
    rw [list, listWithRest, Decoder.many_eq, h]
    exact .member h ih

theorem spelled_iff {bs : Bytes} {ms : List Member} : Spelled bs ms ↔ list bs = ms :=
  ⟨(spelled_list bs).unique, fun h => h ▸ spelled_list bs⟩

end Member

namespace TypeStream
variable {s : TypeStream} {ti next : TypeIndex} {bs : Bytes} {ms : List Member}
  {lists : List (List Member)}

/-- The member lists of a chain, one behind another. The last one is that which goes on nowhere, or
only to something that cannot be read as a member list. -/
inductive Lists (s : TypeStream) : TypeIndex → List (List Member) → Prop
  | unreadable {ti : TypeIndex} : (∀ bs, s.type? ti ≠ some (.fieldList bs)) → Lists s ti []
  | last {ti : TypeIndex} {bs : Bytes} {ms : List Member} :
    s.type? ti = some (.fieldList bs) → Member.Spelled bs ms → Member.next? ms = none →
      Lists s ti [ms]
  | next {ti next : TypeIndex} {bs : Bytes} {ms : List Member} {lists : List (List Member)} :
    s.type? ti = some (.fieldList bs) → Member.Spelled bs ms → Member.next? ms = some next →
      Lists s next lists → Lists s ti (ms :: lists)

theorem memberList?_eq_some_iff : s.memberList? ti = some ms
    ↔ ∃ bs, s.type? ti = some (.fieldList bs) ∧ Member.Spelled bs ms := by
  simp only [Member.spelled_iff]
  rw [memberList?]
  split
  · next bs h => simp [h]
  · next h => simpa using fun bs hbs => absurd hbs (h bs)

theorem memberList?_eq_none_iff :
    s.memberList? ti = none ↔ ∀ bs, s.type? ti ≠ some (.fieldList bs) := by
  rw [memberList?]
  split
  · next bs h => simp [h]
  · next h => simpa using h

theorem exists_lists (h : ChainEnds s ti) : ∃ lists, s.Lists ti lists := by
  induction h with
  | unreadable h => exact ⟨[], .unreadable (memberList?_eq_none_iff.1 h)⟩
  | last h h' =>
    obtain ⟨bs, hbs, hms⟩ := memberList?_eq_some_iff.1 h
    exact ⟨[_], .last hbs hms h'⟩
  | next h h' _ ih =>
    obtain ⟨bs, hbs, hms⟩ := memberList?_eq_some_iff.1 h
    obtain ⟨lists, hlists⟩ := ih
    exact ⟨_ :: lists, .next hbs hms h' hlists⟩

/-! ### What is still to come -/

namespace FieldWalk
variable {w w' : FieldWalk} {m : Member}

/-- From a place on, the walk comes over these members, in this order, and ends. -/
inductive Produces (s : TypeStream) : FieldWalk → List Member → Prop
  | atEnd {w : FieldWalk} : w.step? s = none → Produces s w []
  | pass {w w' : FieldWalk} {ms : List Member} :
    w.step? s = some (none, w') → Produces s w' ms → Produces s w ms
  | member {w w' : FieldWalk} {m : Member} {ms : List Member} :
    w.step? s = some (some m, w') → Produces s w' ms → Produces s w (m :: ms)

/-- Visits members until `visit` is done. -/
def visitAll {β : Type} (visit : β → Member → ForInStep β) : β → List Member → β
  | b, [] => b
  | b, m :: ms =>
    match visit b m with
    | .done b => b
    | .yield b => visitAll visit b ms

theorem visitAll_cons (ms ms' : List Member) :
    visitAll (fun ms m => .yield (m :: ms)) ms' ms = ms.reverse ++ ms' := by
  induction ms generalizing ms' with
  | nil => rfl
  | cons m ms ih => simp [visitAll, ih]

/-- A loop over the walk is a loop over what the walk produces. -/
theorem Produces.run_eq {β : Type} (h : Produces s w ms) (visit : β → Member → ForInStep β) (b : β) :
    w.run s visit b = some (visitAll visit b ms) := by
  induction h generalizing b with
  | atEnd h => rw [run, h, visitAll]
  | pass h _ ih =>
    rw [run, h]
    exact ih b
  | member h _ ih =>
    rw [run, h, visitAll]
    dsimp only
    cases visit b _ with
    | done b => rfl
    | yield b => exact ih b

/-- Within a list: its own members are ahead, and behind it what the continuation leads to that is
remembered at its end. -/
theorem produces_rest {rest : List Member} {next? : Option TypeIndex}
    (h : Produces s ⟨[], list? ⟨rest, next?⟩⟩ ms) :
    Produces s ⟨rest, next?⟩ (rest.filter Member.isPlain ++ ms) := by
  induction rest generalizing next? with
  | nil => simpa [list?, Member.next?] using h
  | cons m rest ih =>
    rw [list?, Member.next?_cons, Option.or_assoc] at h
    cases hm : m.continuation? with
    | none =>
      rw [List.filter_cons_of_pos (by simp [Member.isPlain, hm])]
      exact .member (step?_member hm) (ih (by rwa [hm, Option.none_or] at h))
    | some list =>
      rw [List.filter_cons_of_neg (by simp [Member.isPlain, hm])]
      exact .pass (step?_continuation hm) (ih (by rwa [hm, Option.some_or] at h))

theorem produces_list (h : s.memberList? ti = some ms) {ms' : List Member}
    (h' : Produces s ⟨[], Member.next? ms⟩ ms') :
    Produces s ⟨[], some ti⟩ (ms.filter Member.isPlain ++ ms') :=
  .pass (step?_list h) (produces_rest (by rwa [list?, Option.or_none]))

end FieldWalk

theorem Lists.produces (h : s.Lists ti lists) :
    FieldWalk.Produces s ⟨[], some ti⟩ (lists.flatten.filter Member.isPlain) := by
  induction h with
  | unreadable h =>
    refine .atEnd ?_
    simp only [FieldWalk.step?, memberList?_eq_none_iff.2 h, Option.map_none]
  | last h hms hnext =>
    rw [List.flatten_singleton]
    have hend : FieldWalk.Produces s ⟨[], none⟩ [] := .atEnd rfl
    have hlist := FieldWalk.produces_list (memberList?_eq_some_iff.2 ⟨_, h, hms⟩) (hnext ▸ hend)
    rwa [List.append_nil] at hlist
  | next h hms hnext _ ih =>
    rw [List.flatten_cons, List.filter_append]
    exact FieldWalk.produces_list (memberList?_eq_some_iff.2 ⟨_, h, hms⟩) (hnext ▸ ih)

theorem Lists.produces_start (h : s.Lists ti lists) :
    FieldWalk.Produces s (.start ti) (lists.flatten.filter Member.isPlain) := by
  rw [FieldWalk.start]
  -- the index 0 stands for no list
  split_ifs with hti
  · have hnone : s.type? ti = none := type?_of_isSimple (hti ▸ rfl)
    cases h with
    | unreadable _ => exact .atEnd rfl
    | last h _ _ => cases hnone.symm.trans h
    | next h _ _ _ => cases hnone.symm.trans h
  · exact h.produces

theorem Lists.fields?_eq (h : s.Lists ti lists) :
    s.fields? ti = some (lists.flatten.filter Member.isPlain) := by
  rw [fields?, h.produces_start.run_eq, FieldWalk.visitAll_cons, List.append_nil, Option.map_some,
    List.reverse_reverse]

theorem Lists.eq_nil (h : s.Lists ti lists) (hnone : s.memberList? ti = none) : lists = [] := by
  cases h with
  | unreadable _ => rfl
  | last h hms _ => exact nomatch hnone.symm.trans (memberList?_eq_some_iff.2 ⟨_, h, hms⟩)
  | next h hms _ _ => exact nomatch hnone.symm.trans (memberList?_eq_some_iff.2 ⟨_, h, hms⟩)

theorem Lists.cases_of_memberList? (h : s.Lists ti lists) (hlist : s.memberList? ti = some ms) :
    Member.next? ms = none ∧ lists = [ms]
      ∨ ∃ next lists', Member.next? ms = some next ∧ s.Lists next lists' ∧ lists = ms :: lists' := by
  cases h with
  | unreadable h => exact nomatch (memberList?_eq_none_iff.2 h).symm.trans hlist
  | last h hms hnext =>
    obtain rfl := Option.some.inj ((memberList?_eq_some_iff.2 ⟨_, h, hms⟩).symm.trans hlist)
    exact .inl ⟨hnext, rfl⟩
  | next h hms hnext hlists =>
    obtain rfl := Option.some.inj ((memberList?_eq_some_iff.2 ⟨_, h, hms⟩).symm.trans hlist)
    exact .inr ⟨_, _, hnext, hlists, rfl⟩

theorem Lists.unique {lists' : List (List Member)} (h : s.Lists ti lists) (h' : s.Lists ti lists') :
    lists' = lists := by
  induction h generalizing lists' with
  | unreadable h => exact h'.eq_nil (memberList?_eq_none_iff.2 h)
  | last h hms hnext =>
    simpa [hnext] using h'.cases_of_memberList? (memberList?_eq_some_iff.2 ⟨_, h, hms⟩)
  | next h hms hnext _ ih =>
    obtain ⟨lists'', hlists, rfl⟩ : ∃ lists'', s.Lists _ lists'' ∧ lists' = _ :: lists'' := by
      simpa [hnext] using h'.cases_of_memberList? (memberList?_eq_some_iff.2 ⟨_, h, hms⟩)
    rw [ih hlists]

/-- Along a chain that comes to no list twice, exactly the members of its lists are listed: list
after list in their order, each once, and the continuations left out. A loop that visits the members
visits these ones, whatever it does and wherever it stops. -/
theorem fields?_of_not_circles (h : ¬ s.Circles ti) : ∃ lists, s.Lists ti lists
    ∧ (∀ lists', s.Lists ti lists' → lists' = lists)
    ∧ s.fields? ti = some (lists.flatten.filter Member.isPlain)
    ∧ ∀ (β : Type) (visit : β → Member → ForInStep β) (b : β), (FieldWalk.start ti).run s visit b
      = some (FieldWalk.visitAll visit b (lists.flatten.filter Member.isPlain)) := by
  obtain ⟨lists, hlists⟩ := exists_lists (chainEnds_iff_not_circles.2 h)
  exact ⟨lists, hlists, fun _ => hlists.unique, hlists.fields?_eq, fun _ => hlists.produces_start.run_eq⟩

/-- A list that goes on in an earlier one from between two of its members, and has bytes in front of
its last member that are none. The earlier one goes on in a record that does not exist. -/
def continuedTypes : TypeStream :=
  let (tail, t) := TypeList.addFields {} [.friendClass ⟨3⟩, .continuation ⟨0x2000⟩]
  let head := Member.encodeList [.friendClass ⟨1⟩, .continuation tail, .friendClass ⟨2⟩]
  let (_, t) := t.addPayload .fieldList
    (head ++ [0x34, 0x12, 0, 0] ++ Member.encodeList [.friendClass ⟨4⟩])
  match TypeStream.parse .types (.ofBytes t.encode) with
  | .ok s => s
  | .error _ => .empty .types

theorem fields?_continuedTypes : ¬ continuedTypes.Circles ⟨0x1001⟩
    ∧ continuedTypes.Lists ⟨0x1001⟩ [[.friendClass ⟨1⟩, .continuation ⟨0x1000⟩, .friendClass ⟨2⟩],
      [.friendClass ⟨3⟩, .continuation ⟨0x2000⟩]]
    ∧ continuedTypes.fields? ⟨0x1001⟩
      = some [.friendClass ⟨1⟩, .friendClass ⟨2⟩, .friendClass ⟨3⟩] := by
  have hrecords : continuedTypes.memberList? ⟨0x1001⟩
        = some [.friendClass ⟨1⟩, .continuation ⟨0x1000⟩, .friendClass ⟨2⟩]
      ∧ continuedTypes.memberList? ⟨0x1000⟩ = some [.friendClass ⟨3⟩, .continuation ⟨0x2000⟩]
      ∧ continuedTypes.memberList? ⟨0x2000⟩ = none := by
    decide +kernel
  obtain ⟨hhead, htail, hend⟩ := hrecords
  have hcircles : ¬ continuedTypes.Circles ⟨0x1001⟩ :=
    chainEnds_iff_not_circles.1 (.next hhead rfl (.next htail rfl (.unreadable hend)))
  obtain ⟨lists, hlists, -, hfields, -⟩ := fields?_of_not_circles hcircles
  obtain ⟨bs, hbs, hms⟩ := memberList?_eq_some_iff.1 hhead
  obtain ⟨bs', hbs', hms'⟩ := memberList?_eq_some_iff.1 htail
  have hchain := Lists.next hbs hms rfl
    (.next hbs' hms' rfl (.unreadable (memberList?_eq_none_iff.1 hend)))
  rw [hchain.unique hlists] at hfields
  exact ⟨hcircles, hchain, hfields⟩

end TypeStream
end Pdb
