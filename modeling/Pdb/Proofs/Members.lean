import Pdb.Proofs.Keeps
import Pdb.TypeStore.Completion

/-! # What completing a tag type keeps

Completing a tag type asks for the types of its members, and each change that it makes on the way
adds a member. What both keep is kept until the definition ends (`wp_addMembers`). Before the first
member it may still be found that there are none to add; after that nothing fails any more, since a
member that cannot be added is passed over.
-/

namespace Pdb

/-- The change is a new member of the tag type. -/
def TagChange.AddsMember : TagChange → Prop
  | .start | .external _ | .complete _ => False
  | _ => True

/-! ### Places of data members -/

namespace TypeStream
variable {s : TypeStream} {type list : TypeIndex} {ms : List Member} {m : Member}

/-- The bit field that the type of a data member may be. -/
def bitField? (s : TypeStream) (type : TypeIndex) : Option BitFieldRecord :=
  match s.type? type with
  | some (.bitField b) => some b
  | _ => none

/-- What a data member with this type has a part of. -/
def baseType (s : TypeStream) (type : TypeIndex) : TypeIndex :=
  (s.bitField? type).elim type (·.underlying)

def bitWidth? (s : TypeStream) (type : TypeIndex) : Option Nat :=
  (s.bitField? type).map (·.length.toNat)

/-- The first bit of a data member with this type. -/
def firstBit (s : TypeStream) (type : TypeIndex) : Nat :=
  (s.bitField? type).elim 0 (·.position.toNat)

/-- The place of a data member in bits, if its offset is a number of 64 bits. -/
def place? (s : TypeStream) : Member → Option Nat
  | .data _ type offset _ => offset.size?.map fun o => 8 * o + s.firstBit type
  | _ => none

/-- The place of a member fits into a word. -/
def Fits (s : TypeStream) (m : Member) : Prop := ∀ n ∈ s.place? m, n < 2 ^ 64

instance (s : TypeStream) (m : Member) : Decidable (s.Fits m) :=
  inferInstanceAs (Decidable (∀ n ∈ s.place? m, n < 2 ^ 64))

/-- All data members have places that fit into a word. -/
def PlacesFit (s : TypeStream) : Prop :=
  ∀ list ms, s.memberList? list = some ms → ∀ m ∈ ms, s.Fits m

/-- What cannot happen when a type is completed. -/
def CompletingAverts (s : TypeStream) : Halt → Prop
  | .endless => s.ChainsEnd
  | .overflow => s.PlacesFit

theorem makingAverts_of_completingAverts {h : Halt} (ha : s.CompletingAverts h) : s.MakingAverts h := by
  cases h with
  | endless => exact ha
  | overflow => trivial

theorem completingAverts (hends : s.ChainsEnd) (hfit : s.PlacesFit) (h : Halt) :
    s.CompletingAverts h := by
  cases h with
  | endless => exact hends
  | overflow => exact hfit

theorem PlacesFit.along (h : s.PlacesFit) (hm : s.Along list m) : s.Fits m := by
  induction hm with
  | here hlist hm => exact h _ _ hlist _ hm
  | next _ _ _ ih => exact ih

theorem PlacesFit.fits (h : s.PlacesFit) (hms : s.fields? list = some ms) (hm : m ∈ ms) : s.Fits m := by
  by_cases hlist : list = .none
  · rw [hlist, fields?_none] at hms
    obtain rfl := Option.some.inj hms
    exact absurd hm List.not_mem_nil
  · exact h.along ((mem_fields? hms hlist).1 hm).1

/-- Only the lists in the stream have to be looked at. -/
theorem placesFit_of_indexes
    (h : ∀ ti ∈ s.indexes, ∀ ms ∈ s.memberList? ti, ∀ m ∈ ms, s.Fits m) : s.PlacesFit :=
  fun ti ms hms => h ti (mem_indexes_of_memberList? hms) ms hms

end TypeStream

namespace TypeGraph
open Creation
variable {σ : Type} [TypeSystem σ] {g : TypeGraph} {averts : Halt → Prop} {I : TypeStore σ → Prop}
  {W : TypeIndex → TypeObject → Prop} {want : TypeIndex → Creation σ TypeObject} {ti : TypeIndex}
  {s : TypeStore σ} {t : TagShape} {handle : TypeHandle}

theorem dataPlace_eq (g : TypeGraph) (type : TypeIndex) : g.dataPlace type
    = (g.stream.baseType type, g.stream.bitWidth? type, g.stream.firstBit type) := by
  rw [dataPlace, TypeStream.baseType, TypeStream.bitWidth?, TypeStream.firstBit, TypeStream.bitField?]
  rcases g.stream.type? type with _ | r
  · rfl
  · cases r <;> rfl

omit [TypeSystem σ] in
theorem keeps_word64 {n : Nat} (h : averts .overflow → n < 2 ^ 64) :
    Keeps averts I (word64 n : Creation σ Nat) fun _ => True := by
  refine fun s hs => (wp_word64 n).2 ?_
  split
  · exact ⟨hs, fun _ _ => trivial⟩
  · next hlt => exact fun ha => hlt (h ha)

theorem keeps_change {c : TagChange}
    (h : ∀ s, I s → I { s with system := TypeSystem.change s.system handle c }) :
    Keeps averts I (change handle c : Creation σ Unit) fun _ => True :=
  fun s hs => (wp_ask _).2 ⟨h s hs, fun _ _ => trivial⟩

/-- By induction on the members. A member that cannot be added leaves the layout as it is. -/
theorem wp_addMembers_with {J : List Member → RecordLayout → TypeStore σ → Prop}
    (done : List Member) (layout : RecordLayout) (ms : List Member)
    (hstep : ∀ done layout s, ∀ m ∈ ms, J done layout s →
      wp averts (g.addMember want t layout m) (fun r s' => J (done ++ [m]) (r.getD layout) s') s)
    (hs : J done layout s) :
    wp averts (g.addMembers want t layout ms) (fun r s' => ∃ l, r = some l ∧ J (done ++ ms) l s') s := by
  induction ms generalizing done layout s with
  | nil => exact ⟨layout, rfl, (List.append_nil done).symm ▸ hs⟩
  | cons m ms ih =>
    rw [addMembers, wp_bind, wp_attempt]
    refine wp_mono (hstep done layout s m List.mem_cons_self hs) fun r s' hs' => ?_
    rw [List.append_cons]
    exact ih _ _ (fun done layout s m hm => hstep done layout s m (List.mem_cons_of_mem _ hm)) hs'

/-- The same, if nothing has to be known of the layout. There is one even if no member can be added.
-/
theorem wp_addMembers_of {J : List Member → TypeStore σ → Prop} (done : List Member)
    {ms : List Member} (hstep : ∀ done m layout s, m ∈ ms → J done s →
      wp averts (g.addMember want t layout m) (fun _ s' => J (done ++ [m]) s') s)
    (hs : J done s) (layout : RecordLayout) :
    wp averts (g.addMembers want t layout ms)
      (fun r s' => (∃ l, r = some l) ∧ J (done ++ ms) s') s := by
  refine wp_mono (wp_addMembers_with (J := fun done _ => J done) done layout ms
    (fun done layout s m hm hs => hstep done m layout s hm hs) hs) ?_
  rintro _ s' ⟨l, rfl, hs'⟩
  exact ⟨⟨l, rfl⟩, hs'⟩

section
variable (hw : ∀ p, Keeps averts I (want p) (W p))
  (hc : ∀ s c, c.AddsMember → I s → I { s with system := TypeSystem.change s.system t.handle c })
include hw hc

theorem keeps_addMethod (attr : MemberAttributes) (type : TypeIndex) (name : String) :
    Keeps averts I (addMethod t attr type name want) fun _ => True :=
  .bind (hw type) fun _ _ => keeps_change fun s hs => hc s _ trivial hs

theorem keeps_addMember (layout : RecordLayout) {m : Member} (hfits : averts .overflow → g.stream.Fits m) :
    Keeps averts I (g.addMember want t layout m) fun _ => True := by
  have hreturn (layout : RecordLayout) :
      Keeps averts I (pure layout : Creation σ RecordLayout) fun _ => True := .pure trivial
  have hchange (c : TagChange) (layout : RecordLayout) (h : c.AddsMember) :
      Keeps averts I (do change t.handle c; return layout : Creation σ RecordLayout) fun _ => True :=
    .bind (keeps_change fun s hs => hc s c h hs) fun _ _ => hreturn _
  have hwant (type : TypeIndex) (c : TypeObject → TagChange) (layout : TypeObject → RecordLayout)
      (h : ∀ type, (c type).AddsMember) : Keeps averts I
        (do let type ← want type; change t.handle (c type); return layout type) fun _ => True :=
    .bind (hw type) fun type _ => hchange _ _ (h type)
  cases m with
  | data attr type offset name =>
    refine .bind (.ofOption _) fun o ho => .bind (hw _) fun _ _ => ?_
    refine .bind (keeps_word64 fun ha => ?_) fun _ _ => hchange _ _ trivial
    show 8 * o + (g.dataPlace type).2.2 < 2 ^ 64
    refine hfits ha _ ?_
    rw [TypeStream.place?, ho, dataPlace_eq]
    rfl
  | baseClass attr type offset => exact hwant _ _ _ fun _ => trivial
  | virtualBase indirect attr type pointer offset index => exact hwant _ _ _ fun _ => trivial
  | nested type name =>
    rw [addMember]
    split
    · exact hreturn _
    · exact hwant _ _ _ fun _ => trivial
  | nestedEx attr type name =>
    rw [addMember]
    split
    · exact hreturn _
    · exact hwant _ _ _ fun _ => trivial
  | static attr type name => exact hwant _ _ _ fun _ => trivial
  | method attr type offset name =>
    exact .bind (keeps_addMethod hw hc _ _ _) fun _ _ => hreturn _
  | overloads count list name =>
    refine .bind (.ofOption _) fun type _ => ?_
    split
    · refine .bind (.forM fun e _ => ?_) fun _ _ => hreturn _
      exact .bind (keeps_addMethod hw hc _ _ _).attempt fun _ _ => .pure trivial
    · exact .failure
  | enumerator attr value name =>
    exact .bind (.ofOption _) fun _ _ => .bind (.ofOption _) fun _ _ => hchange _ _ trivial
  | _ => exact hreturn _

theorem wp_addMembers (hs : I s) (layout : RecordLayout) {ms : List Member}
    (hfits : averts .overflow → ∀ m ∈ ms, g.stream.Fits m) :
    wp averts (g.addMembers want t layout ms) (fun r s' => (∃ l, r = some l) ∧ I s') s := by
  refine wp_addMembers_of (J := fun _ => I) [] (fun done m layout s hm hs => ?_) hs layout
  exact wp_mono (keeps_addMember hw hc layout (fun ha => hfits ha m hm) s hs) fun r s' hr => hr.1

end

/-- Only a record that is a definition has a shape. -/
theorem exists_record_of_shape? (h : g.shape? ti handle = some t) : ∃ record r,
    (g.stream.record ti).toOption = some record ∧ record.type? = some r
      ∧ g.stream.type? ti = some r ∧ r.isForwardRef = false := by
  simp only [shape?, Option.bind_eq_bind, Option.bind_eq_some_iff] at h
  obtain ⟨record, hrecord, r, hr, h⟩ := h
  refine ⟨record, r, hrecord, hr, ?_, ?_⟩
  · rw [TypeStream.type?_eq, hrecord, Option.bind_some, hr]
  · split at h
    · obtain ⟨_, hnone, _⟩ := Option.bind_eq_some_iff.1 h
      exact nomatch hnone
    · next hforward => exact Bool.eq_false_iff.2 hforward

/-- A shape is that of the record of a tag type, which is a definition. -/
theorem shape?_eq_some (h : g.shape? ti handle = some t) : t.index = ti ∧ t.handle = handle
    ∧ ∃ r, g.stream.type? ti = some r ∧ r.isForwardRef = false ∧ r.fieldList? = some t.fieldList
      ∧ t.uniqueName? = r.uniqueName? := by
  obtain ⟨record, r, hrecord, hr, ht, hforward⟩ := exists_record_of_shape? h
  simp only [shape?, Option.bind_eq_bind, hrecord, hr, hforward, Option.bind_some,
    Bool.false_eq_true, if_false] at h
  cases r with
  | class_ r => exact Option.some.inj h ▸ ⟨rfl, rfl, _, ht, hforward, rfl, rfl⟩
  | union r => exact Option.some.inj h ▸ ⟨rfl, rfl, _, ht, hforward, rfl, rfl⟩
  | enum r => exact Option.some.inj h ▸ ⟨rfl, rfl, _, ht, hforward, rfl, rfl⟩
  | _ => exact nomatch h

theorem handle_of_shape? (h : g.shape? ti handle = some t) : t.handle = handle :=
  (shape?_eq_some h).2.1

/-- If it fails nothing has happened yet. -/
theorem wp_completeTag_of {Q : Option Unit → TypeStore σ → Prop}
    (hends : averts .endless → g.stream.ChainsEnd) (hnone : Q none s)
    (hmembers : ∀ t ms, g.shape? ti handle = some t → g.stream.fields? t.fieldList = some ms →
      wp averts (g.addMembers want t ⟨t.size, [], []⟩ ms) (fun r s' => ∃ layout, r = some layout
        ∧ Q (some ()) { s' with
          system := TypeSystem.change s'.system handle (.complete layout) }) s) :
    wp averts (g.completeTag want ti handle) Q s := by
  rw [completeTag, wp_bind, wp_ofOption]
  cases hshape : g.shape? ti handle with
  | none => exact hnone
  | some t =>
    have hadd : wp averts (do
        let members ← atEnd (g.stream.fields? t.fieldList)
        let layout ← g.addMembers want t ⟨t.size, [], []⟩ members
        change handle (.complete layout)) Q s := by
      rw [wp_bind, wp_atEnd]
      cases hfields : g.stream.fields? t.fieldList with
      | none =>
        intro h
        have hsome := TypeStream.isSome_fields?_iff.2 (.inr (hends h t.fieldList))
        rw [hfields] at hsome
        exact nomatch hsome
      | some members =>
        refine (wp_bind _ _).2 (wp_mono (hmembers t members hshape hfields) ?_)
        rintro _ s' ⟨layout, rfl, hdone⟩
        exact (wp_ask _).2 hdone
    dsimp only
    split
    · exact (wp_bind _ _).2 (wp_failure.2 hnone)
    · exact hadd

/-- What is left to show of completing a tag type. If it fails then it has only been noted that no
members will come later. -/
theorem wp_completeDeclared_of_members {tag : TagDecl} {Q : Option Bool → TypeStore σ → Prop}
    (hends : averts .endless → g.stream.ChainsEnd)
    (hfail : Q (some false) { s with system := TypeSystem.change s.system handle (.external false) })
    (hmembers : ∀ t ms, g.shape? ti handle = some t → g.stream.fields? t.fieldList = some ms →
      wp averts (g.addMembers g.want t ⟨t.size, [], []⟩ ms) (fun r s' => ∃ layout, r = some layout
        ∧ Q (some true) ({ s' with
          system := TypeSystem.change s'.system handle (.complete layout)
          completing := s'.completing.erase ti }.resolve tag ti)) { s with
        system := TypeSystem.change s.system handle (.external false)
        completing := ti :: s.completing }) :
    wp averts (g.completeDeclared tag ti handle) Q s := by
  simp only [completeDeclared, Creation.change, wp_bind, wp_update, wp_ask, wp_attempt]
  refine wp_completeTag_of hends ?_ hmembers
  rw [List.erase_cons_head]
  exact hfail

/-- The same, if what has been made so far does not depend on the members. -/
theorem wp_completeDeclared_of {tag : TagDecl} {Q : Option Bool → TypeStore σ → Prop}
    (hends : averts .endless → g.stream.ChainsEnd) (hfits : averts .overflow → g.stream.PlacesFit)
    (hw : ∀ p, Keeps averts I (g.want p) (W p))
    (hc : ∀ s c, c.AddsMember → I s → I { s with system := TypeSystem.change s.system handle c })
    (hs : I { s with
      system := TypeSystem.change s.system handle (.external false)
      completing := ti :: s.completing })
    (hfail : Q (some false) { s with system := TypeSystem.change s.system handle (.external false) })
    (hdone : ∀ s' layout, I s' → Q (some true) ({ s' with
      system := TypeSystem.change s'.system handle (.complete layout)
      completing := s'.completing.erase ti }.resolve tag ti)) :
    wp averts (g.completeDeclared tag ti handle) Q s := by
  refine wp_completeDeclared_of_members hends hfail fun t ms hshape hfields => ?_
  obtain rfl := handle_of_shape? hshape
  refine wp_mono (wp_addMembers hw hc hs _ fun ha _ hm => (hfits ha).fits hfields hm) ?_
  rintro _ s' ⟨⟨layout, rfl⟩, hs'⟩
  exact ⟨layout, rfl, hdone s' layout hs'⟩

/-- The same, if it is known of making types what they keep. -/
theorem wp_completeDeclared_making {tag : TagDecl} {Q : Option Bool → TypeStore σ → Prop}
    (hw : ∀ p, Keeps g.stream.MakingAverts I (g.want p) (W p))
    (hc : ∀ s c, c.AddsMember → I s → I { s with system := TypeSystem.change s.system handle c })
    (hs : I { s with
      system := TypeSystem.change s.system handle (.external false)
      completing := ti :: s.completing })
    (hfail : Q (some false) { s with system := TypeSystem.change s.system handle (.external false) })
    (hdone : ∀ s' layout, I s' → Q (some true) ({ s' with
      system := TypeSystem.change s'.system handle (.complete layout)
      completing := s'.completing.erase ti }.resolve tag ti)) :
    wp g.stream.CompletingAverts (g.completeDeclared tag ti handle) Q s :=
  wp_completeDeclared_of id id
    (fun p => (hw p).weaken fun _ => TypeStream.makingAverts_of_completingAverts) hc hs hfail hdone

/-- What is left to show of completing a type: that nothing happens, or what is done to a tag type
that is not complete. -/
theorem wp_complete_cases {Q : Option (Except CompletionFault Bool) → TypeStore σ → Prop}
    (hnone : Q (some (.ok false)) s) (hforeign : ∀ tag, Q (some (.error (.foreign tag))) s)
    (hfull : ∀ tag ti, TypeSystem.tagOf? s.system handle = some tag →
      s.declarations.find? tag = some ⟨ti, .full⟩ → Q (some (.ok true)) s)
    (hdeclared : ∀ tag ti, TypeSystem.tagOf? s.system handle = some tag →
      s.declarations.find? tag = some ⟨ti, .forward⟩ →
      wp averts (g.completeDeclared tag ti handle) (fun r s' => Q (r.map .ok) s') s) :
    wp averts (g.complete handle) Q s := by
  simp only [complete, wp_bind, wp_attempt, tagOf, wp_look, wp_ofOption]
  cases htag : TypeSystem.tagOf? s.system handle with
  | none => exact hnone
  | some tag =>
    simp only [wp_bind, wp_look]
    cases hd : s.declarations.find? tag with
    | none => exact hforeign tag
    | some d =>
      obtain ⟨ti, state⟩ := d
      cases state with
      | full => exact hfull tag ti htag hd
      | forward =>
        simp only [wp_ite, wp_bind, wp_look, decide_eq_true_eq, reduceCtorEq, if_false]
        split_ifs with hbusy
        · exact hnone
        · refine wp_mono (hdeclared tag ti htag hd) fun r s' hr => ?_
          cases r <;> exact hr

/-- Completing a tag type that is declared and has members succeeds. -/
theorem wp_complete_of_shape {Q : Option (Except CompletionFault Bool) → TypeStore σ → Prop}
    {tag : TagDecl} {ms : List Member} (htag : TypeSystem.tagOf? s.system handle = some tag)
    (hentry : s.declarations.find? tag = some ⟨ti, .forward⟩) (hfree : ti ∉ s.completing)
    (hshape : g.shape? ti handle = some t) (hhas : g.hasMembers t)
    (hfields : g.stream.fields? t.fieldList = some ms)
    (hmembers : wp averts (g.addMembers g.want t ⟨t.size, [], []⟩ ms) (fun r s' => ∃ layout,
      r = some layout ∧ Q (some (.ok true)) ({ s' with
        system := TypeSystem.change s'.system handle (.complete layout)
        completing := s'.completing.erase ti }.resolve tag ti)) { s with
      system := TypeSystem.change s.system handle (.external false)
      completing := ti :: s.completing }) :
    wp averts (g.complete handle) Q s := by
  simp only [complete, completeDeclared, completeTag, Creation.change, wp_bind, wp_attempt, tagOf,
    wp_look, wp_ofOption, wp_ask, wp_update, wp_atEnd, wp_ite, wp_pure, htag, hentry, hfree, hshape,
    hhas, hfields, reduceCtorEq, if_false, decide_false, Bool.not_true, Bool.false_eq_true]
  refine wp_mono hmembers ?_
  rintro _ s' ⟨layout, rfl, hdone⟩
  exact hdone

/-- The same, if nothing has to be known of the answer when nothing happens. -/
theorem wp_complete_of {Q : Option (Except CompletionFault Bool) → TypeStore σ → Prop}
    (hsame : ∀ r, Q (some r) s)
    (hdeclared : ∀ tag ti, TypeSystem.tagOf? s.system handle = some tag →
      s.declarations.find? tag = some ⟨ti, .forward⟩ →
      wp averts (g.completeDeclared tag ti handle) (fun r s' => Q (r.map .ok) s') s) :
    wp averts (g.complete handle) Q s :=
  wp_complete_cases (hsame _) (fun _ => hsame _) (fun _ _ _ _ => hsame _) hdeclared

end TypeGraph
end Pdb
