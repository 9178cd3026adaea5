import Pdb.TypeStream

/-! # Chains of member lists

A member list that is too long for one record goes on in another one, which its last continuation
member names. A `FieldWalk` goes along a chain member by member, and `fields?` are the members along
the whole chain, without the continuations. A chain may lead back to a list that it has come
through: a walk that waits for its end then has no result. `ChainEnds` says that there is an end. -/

namespace Pdb
namespace Member

/-- The list that a continuation member names. -/
def continuation? : Member → Option TypeIndex
  | .continuation list => some list
  | _ => none

/-- Where a list goes on: its last continuation member counts. -/
def next? (ms : List Member) : Option TypeIndex := (ms.filterMap continuation?).getLast?

end Member

namespace TypeStream

/-- The members in a record, if it is a member list. -/
def memberList? (s : TypeStream) (ti : TypeIndex) : Option (List Member) :=
  match s.type? ti with
  | some (.fieldList bs) => some (Member.list bs)
  | _ => none

/-- The chain from `ti` on comes to an end. -/
inductive ChainEnds (s : TypeStream) : TypeIndex → Prop
  | unreadable {ti : TypeIndex} : s.memberList? ti = none → ChainEnds s ti
  | last {ti : TypeIndex} {ms : List Member} :
    s.memberList? ti = some ms → Member.next? ms = none → ChainEnds s ti
  | next {ti next : TypeIndex} {ms : List Member} :
    s.memberList? ti = some ms → Member.next? ms = some next → ChainEnds s next → ChainEnds s ti

/-- A place in a chain: what is left of a list, and the list that goes on from it, as far as the
members so far say. -/
structure FieldWalk where
  rest : List Member
  next? : Option TypeIndex
  deriving DecidableEq, Repr

namespace FieldWalk

def start (ti : TypeIndex) : FieldWalk := ⟨[], if ti = .none then none else some ti⟩

/-- One step along the chain, over a member, over a continuation or to the next list; `none` is the
end of the chain. -/
def step? (s : TypeStream) : FieldWalk → Option (Option Member × FieldWalk)
  | ⟨m :: rest, next?⟩ =>
    match m.continuation? with
    | some list => some (none, ⟨rest, some list⟩)
    | none => some (some m, ⟨rest, next?⟩)
  | ⟨[], some list⟩ => (s.memberList? list).map fun ms => (none, ⟨ms, none⟩)
  | ⟨[], none⟩ => none

/-- Visits the members from a place on until `visit` is done or the chain ends. If neither happens
there is no result. -/
def run {β : Type} (s : TypeStream) (visit : β → Member → ForInStep β) (b : β) (w : FieldWalk) :
    Option β :=
  match w.step? s with
  | none => some b
  | some (none, w) => w |>.run s visit b
  | some (some m, w) =>
    match visit b m with
    | .done b => some b
    | .yield b => w |>.run s visit b
partial_fixpoint

end FieldWalk

/-- The members of the list at `ti` and of those that go on from it, if the chain ends. -/
def fields? (s : TypeStream) (ti : TypeIndex) : Option (List Member) :=
  ((FieldWalk.start ti).run s (fun ms m => .yield (m :: ms)) []).map List.reverse

/-- The indexes of the records that reading a chain looks at. -/
def chainIndexes (s : TypeStream) : (n : Nat) → TypeIndex → List TypeIndex
  | 0, _ => []
  | n + 1, ti =>
    match (s.memberList? ti).bind Member.next? with
    | none => [ti]
    | some next => ti :: chainIndexes s n next

end TypeStream
end Pdb
