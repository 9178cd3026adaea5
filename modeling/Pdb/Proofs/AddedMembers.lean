import Pdb.Proofs.Additions

/-! # What a tag type gets from its members

While the members of a record are added one after another, more types are made. So what has been added
so far is stated for any `h` that gives the types made so far and nothing for an index without a type
(`Names`): what gives the types of a later store gives those of an earlier one as well.
`Filling` is kept by asking for a type, which changes no tag type that there was, and goes on by the
additions of a member when that has been dealt with (`wp_addMember_filling`). At the end each tag type
that is complete has what its members add, in their order, and nothing else
(`wp_complete_completed`). There is an end unless a data member that has a type is too far away for a
place in bits (`wp_complete_placed`).
-/

namespace Pdb

namespace TypeStream
variable {s : TypeStream} {ti : TypeIndex} {ms : List Member} {m : Member}

theorem exists_list_of_memberList? (h : s.memberList? ti = some ms) : ∃ bs, Member.list bs = ms := by
  rw [memberList?] at h
  split at h
  · exact ⟨_, Option.some.inj h⟩
  · cases h

theorem wellFormed_of_along (h : s.Along ti m) : m.WellFormed := by
  induction h with
  | here hlist hm =>
    obtain ⟨bs, rfl⟩ := exists_list_of_memberList? hlist
    exact Member.wellFormed_of_mem hm
  | next _ _ _ ih => exact ih

theorem wellFormed_of_mem_fields? (h : s.fields? ti = some ms) (hm : m ∈ ms) : m.WellFormed := by
  by_cases hti : ti = .none
  · rw [hti, fields?_none] at h
    cases h
    exact absurd hm List.not_mem_nil
  · exact wellFormed_of_along ((mem_fields? h hti).1 hm).1

end TypeStream

/-! ### Types that stay -/

namespace TypeStore
variable {s s' s'' : TypeStore TypeModel}

/-- What leads to a type leads to it later, too. -/
structure Recalls {σ : Type} (s s' : TypeStore σ) : Prop where
  cached {k : TypeIndex} {id : TypeId} : s.cached? k = some id → s'.cached? k = some id
  object {id : TypeId} {t : TypeObject} : s.object? id = some t →
    ∃ t', s'.object? id = some t' ∧ t'.handle = t.handle

namespace Recalls

theorem of_eq (hids : s'.ids = s.ids) (hobjects : s'.objects = s.objects) : Recalls s s' where
  cached h := by rwa [cached?, hids]
  object {_ t} h := ⟨t, by rwa [object?, hobjects], rfl⟩

theorem trans (h : Recalls s s') (h' : Recalls s' s'') : Recalls s s'' where
  cached hk := h'.cached (h.cached hk)
  object ht := by
    obtain ⟨t', ht', hhandle⟩ := h.object ht
    obtain ⟨t'', ht'', hhandle'⟩ := h'.object ht'
    exact ⟨t'', ht'', hhandle'.trans hhandle⟩

theorem resolve (tag : TagDecl) {ti : TypeIndex} {id : TypeId} (hid : s.cached? ti = some id) :
    Recalls s (s.resolve tag ti) where
  cached hk := hk
  object {id' t} ht := by
    rw [object?_resolve tag hid, ht]
    split
    · exact ⟨_, rfl, rfl⟩
    · exact ⟨t, rfl, rfl⟩

end Recalls
end TypeStore

namespace TypeGraph
open Creation TypeStore TypeModel TypeSystem
variable {g : TypeGraph} {averts : Halt → Prop} {origin : TypeModel} {s₀ s s' : TypeStore TypeModel}
  {p : TypeIndex}

/-- All types that there were are there. -/
def Holds (s₀ s : TypeStore TypeModel) : Prop :=
  ∀ id t, s₀.object? id = some t → s.object? id = some t

theorem upkeep_holds (s₀ : TypeStore TypeModel) : Upkeep averts (fun _ => Holds s₀) fun _ _ => True where
  steady _ := ⟨fun _ _ h => h, fun _ h => h, fun _ h => h⟩
  mark _ _ h := h
  unmark _ _ h := h
  ready_unmark _ _ := trivial
  full _ := trivial
  declare _ _ _ _ _ h := ⟨h, fun _ _ => trivial⟩
  store {s t} _ h _ := by
    have hadd : Holds s₀ (s.add t) := fun id u hu => object?_add_of_some (h id u hu) t
    exact wp_store_of (fun _ => hadd) fun _ _ _ => hadd
  redirect _ _ _ h := h

theorem keeps_get_holds (s₀ : TypeStore TypeModel) (p : TypeIndex) :
    Keeps (fun _ => False) (Holds s₀) (g.get p) fun _ => True := by
  intro s hs
  refine wp_mono ((upkeep_holds s₀).wp_getFueled (A := fun _ _ _ => True) False.elim
    (fun h => h.elim) (fun _ _ _ _ _ _ _ _ _ _ => trivial) [] hs trivial) ?_
  exact fun _ _ h => ⟨h, fun _ _ => trivial⟩

/-- `h` gives the types that have been made, and none where there is no type. -/
structure Names (g : TypeGraph) (origin : TypeModel) (s : TypeStore TypeModel)
    (h : TypeIndex → Option TypeHandle) : Prop where
  made {p : TypeIndex} {id : TypeId} {t : TypeObject} : s.cached? p = some id →
    s.object? id = some t → h p = some t.handle
  missing {p : TypeIndex} : (∀ n, ¬ g.HasSize (MustHave origin) p n) → h p = none

variable {h : TypeIndex → Option TypeHandle}

theorem Names.of_recalls (hn : g.Names origin s' h) (hs : Recalls s s') : g.Names origin s h where
  made hid ht := by
    obtain ⟨t', ht', hhandle⟩ := hs.object ht
    rw [← hhandle]
    exact hn.made (hs.cached hid) ht'
  missing := hn.missing

/-- A data member that has a type is too far away: its place in bits does not fit into a word. -/
def Overflows (g : TypeGraph) (origin : TypeModel) : Member → Prop
  | .data _ type offset _ => ∃ o n, offset.Offset o ∧ g.HasSize (MustHave origin) (g.stream.baseType type) n
    ∧ 2 ^ 64 ≤ 8 * o + g.stream.firstBit type
  | _ => False

/-- What has been added is near enough for a place in bits, as long as nothing overflows. -/
theorem place_lt_of_not_overflows {t : TagShape} {m : Member} {x : ModelField × Nat} (hm : m.WellFormed)
    (hn : g.Names origin s h) (hfits : ¬ g.Overflows origin m)
    (hx : x ∈ (g.additions t h m).fields) : x.2 < 2 ^ 64 := by
  obtain ⟨attr, type, offset, name, rfl, o, hoffset, hsome, hplace⟩ := exists_place_of_mem_fields hm hx
  by_contra hle
  refine hfits ⟨o, ?_⟩
  by_cases hsize : ∃ n, g.HasSize (MustHave origin) (g.stream.baseType type) n
  · obtain ⟨n, hsize⟩ := hsize
    exact ⟨n, hoffset, hsize, by omega⟩
  · rw [hn.missing fun n hsize' => hsize ⟨n, hsize'⟩] at hsome
    exact nomatch hsome

/-- A tag type has exactly what `adds` says, whatever the types are called. -/
def HasAdded (g : TypeGraph) (origin : TypeModel) (s : TypeStore TypeModel) (d : TagDecl)
    (layout : RecordLayout) (adds : (TypeIndex → Option TypeHandle) → List Additions) : Prop :=
  ∃ tag, s.system.tags[d]? = some tag ∧ ∀ h, g.Names origin s h → AddedUp tag layout (adds h)

section
variable {d : TagDecl} {layout : RecordLayout} {tag : ModelTag}
  {adds : (TypeIndex → Option TypeHandle) → List Additions}
  {a : (TypeIndex → Option TypeHandle) → Additions}

theorem HasAdded.mono (hs : g.HasAdded origin s d layout adds) (hrecalls : Recalls s s')
    (htag : s'.system.tags[d]? = s.system.tags[d]?) : g.HasAdded origin s' d layout adds := by
  obtain ⟨tag, htag', hadded⟩ := hs
  exact ⟨tag, htag.trans htag', fun h hn => hadded h (hn.of_recalls hrecalls)⟩

theorem HasAdded.imp {adds' : (TypeIndex → Option TypeHandle) → List Additions}
    (hs : g.HasAdded origin s d layout adds)
    (himp : ∀ h tag, g.Names origin s h → AddedUp tag layout (adds h) →
      AddedUp tag layout (adds' h)) :
    g.HasAdded origin s d layout adds' := by
  obtain ⟨tag, htag, hadded⟩ := hs
  exact ⟨tag, htag, fun h hn => himp h tag hn (hadded h hn)⟩

theorem HasAdded.change {type : TypeHandle} {c : TagChange} {b : Additions}
    (hs : g.HasAdded origin s d layout adds) (htag : s.system.tagOf? type = some d)
    (hb : ∀ tag : ModelTag, tag.apply c = tag.add b) (ha : ∀ h, g.Names origin s h → a h = b) :
    g.HasAdded origin { s with system := TypeSystem.change s.system type c } d (layout.add b)
      fun h => adds h ++ [a h] := by
  obtain ⟨tag, htag', hadded⟩ := hs
  refine ⟨tag.add b, ?_, fun h hn => ?_⟩
  · show (s.system.change type c).tags[d]? = _
    rw [getElem?_tags_change, if_pos htag, htag', Option.map_some, hb]
  · have hn' : g.Names origin s h := hn.of_recalls (.of_eq rfl rfl)
    show AddedUp _ _ (adds h ++ [a h])
    rw [ha h hn']
    exact (hadded h hn').add b

/-! ### Adding the members of one tag type -/

/-- The tag type `d` has been given `adds` since the store was `start`. -/
structure Filling (g : TypeGraph) (origin : TypeModel) (start : TypeStore TypeModel) (d : TagDecl)
    (adds : (TypeIndex → Option TypeHandle) → List Additions) (layout : RecordLayout)
    (s : TypeStore TypeModel) : Prop where
  reaches : Reaches g origin [] [] start s
  grown : Grown (· = d) start s
  recalls : Recalls start s
  added : g.HasAdded origin s d layout adds

/-- The definition of the tag type `d` has begun in the store `start`. -/
structure Begun (g : TypeGraph) (origin : TypeModel) (start : TypeStore TypeModel) (d : TagDecl)
    (handle : TypeHandle) : Prop where
  underway : start.underway = []
  sound : Sound g origin [] start
  lt : d < start.system.tags.size
  tagOf : start.system.tagOf? handle = some d

theorem not_overflows_of_fits {m : Member} (hm : m.WellFormed) (h : g.stream.Fits m) :
    ¬ g.Overflows origin m := by
  cases m with
  | data attr type offset name =>
    rintro ⟨o, n, ho, _, hle⟩
    have hlt := h (8 * o + g.stream.firstBit type) (by rw [TypeStream.place?, hm.1.offset_iff.1 ho]; rfl)
    omega
  | _ => exact False.elim

variable {start : TypeStore TypeModel} {t : TagShape}

theorem Filling.imp {adds' : (TypeIndex → Option TypeHandle) → List Additions}
    (hs : Filling g origin start d adds layout s)
    (himp : ∀ h tag, g.Names origin s h → AddedUp tag layout (adds h) →
      AddedUp tag layout (adds' h)) :
    Filling g origin start d adds' layout s :=
  ⟨hs.reaches, hs.grown, hs.recalls, hs.added.imp himp⟩

theorem Filling.pass (hs : Filling g origin start d adds layout s)
    (ha : ∀ h, g.Names origin s h → a h = .none) :
    Filling g origin start d (fun h => adds h ++ [a h]) layout s :=
  hs.imp fun h _ hn hadded => (ha h hn).symm ▸ hadded.pass

variable (hmake : ∀ h, averts h → g.stream.MakingAverts h) (hstart : Begun g origin start d t.handle)
include hstart

theorem Filling.change (hs : Filling g origin start d adds layout s) {c : TagChange}
    (hc : c.AddsMember) {b : Additions} (hb : ∀ tag : ModelTag, tag.apply c = tag.add b)
    (ha : ∀ h, g.Names origin s h → a h = b) :
    Filling g origin start d (fun h => adds h ++ [a h]) (layout.add b)
      { s with system := TypeSystem.change s.system t.handle c } where
  reaches := hs.reaches.trans ⟨⟨id, id, rfl, rfl⟩, fun _ => rfl,
    hs.reaches.sound.with_system (FreshTags.quiet_change s.system t.handle c)⟩
  grown := hs.grown.change_touched (hs.grown.types.tagOf? hstart.tagOf) hstart.lt rfl hc
  recalls := hs.recalls.trans (.of_eq rfl rfl)
  added := hs.added.change (hs.grown.types.tagOf? hstart.tagOf) hb ha

attribute [local simp] ModelTag.apply ModelTag.add RecordLayout.add

theorem wp_addEnumerator_filling (hs : Filling g origin start d adds layout s)
    (attr : MemberAttributes) (value : Numeric) (name : Bytes) :
    wp averts (g.addMember g.want t layout (.enumerator attr value name))
      (fun r s' => Filling g origin start d
        (fun h => adds h ++ [g.additions t h (.enumerator attr value name)]) (r.getD layout) s') s := by
  refine (wp_bind _ _).2 ((wp_ofOption _).2 ?_)
  rcases hintegers : t.integers? with _ | ⟨size, signed⟩
  · exact hs.pass fun h _ => by simp only [additions, hintegers]
  · refine (wp_bind _ _).2 ((wp_ofOption _).2 ?_)
    cases hbits : value.bits? with
    | none => exact hs.pass fun h _ => by simp only [additions, hintegers, hbits]
    | some bits =>
      refine (wp_bind _ _).2 ((wp_ask _).2 ((wp_pure _).2 ?_))
      let denoted := truncated (bits.extended bits.signed) size signed
      have hchange := hs.change hstart (c := .enumerator (Text.lossy name) denoted) trivial
        (b := { enumerators := [(Text.lossy name, denoted)] })
        (a := fun h => g.additions t h (.enumerator attr value name)) (by simp) fun h _ => by
          simp only [additions, hintegers, hbits, denoted]
      simpa using hchange

include hmake

/-- Asking for a type adds nothing, and finds what the type is called from then on. -/
theorem wp_want_filling (p : TypeIndex) (hs : Filling g origin start d adds layout s) :
    wp averts (g.want p) (fun r s' => Filling g origin start d adds layout s'
      ∧ match r with
        | some u => u.index = g.target p ∧ (∃ n, g.HasSize (MustHave origin) p n)
          ∧ ∀ h, g.Names origin s' h → h p = some u.handle
        | none => (∀ n, ¬ g.HasSize (MustHave origin) p n) ∧ ∀ h, g.Names origin s' h → h p = none)
      s := by
  have hunder := hs.reaches.underway.trans hstart.underway
  have hold (d : TagDecl) (e : DeclStatus) (he : start.declarations.find? d = some e) :
      d < start.system.tags.size := hstart.sound.lt_of_entry he
  have hold' (d : TagDecl) (e : DeclStatus) (he : s.declarations.find? d = some e) :
      d < s.system.tags.size := hs.reaches.sound.lt_of_entry he
  have htouched : Keeps (fun _ => False) (Grown (· = d) start) (g.get p) fun _ => True :=
    keeps_get_grown hold p
  have hquiet : Keeps (fun _ => False) (Grown (fun _ => False) s) (g.get p) fun _ => True :=
    keeps_get_grown hold' p
  refine (wp_bind _ _).2 (wp_mono (wp_and (wp_averts (wp_get hs.reaches.sound hunder) hmake)
    (wp_and (keeps_get_holds s p s fun _ _ h => h)
      (wp_and (htouched s hs.grown) (hquiet s (.refl s))))) ?_)
  rintro r s' ⟨⟨hreach, hgot⟩, ⟨hholds, _⟩, ⟨hgrown, _⟩, hstill, _⟩
  have hrecalls : Recalls s s' := ⟨hreach.cached, fun hu => ⟨_, hholds _ _ hu, rfl⟩⟩
  have hs' : Filling g origin start d adds layout s' := ⟨hs.reaches.trans hreach, hgrown,
    hs.recalls.trans hrecalls, hs.added.mono hrecalls (hstill.tag (hstart.lt.trans_le hs.grown.size) id)⟩
  cases r with
  | none =>
    have hnone (n : Nat) (hn : g.HasSize (MustHave origin) p n) : False := hgot n hn clear_nil
    exact ⟨hs', hnone, fun h hn => hn.missing hnone⟩
  | some id =>
    obtain ⟨u, hu, htarget⟩ := hreach.sound.cached hgot
    have hsize := (hreach.sound.hasSize hgot hu).mono fun b hb => hb.mustHave fun _ _ _ => rfl
    simp only [object, wp_bind, wp_look, wp_ofOption, hu]
    exact ⟨hs', htarget, ⟨u.size, hsize⟩, fun h hn => hn.made hgot hu⟩

/-- What is added once a type has been found. -/
theorem wp_want_change {p : TypeIndex} {c : TypeObject → TagChange} {b : TypeHandle → Additions}
    (hs : Filling g origin start d adds layout s) (hc : ∀ u, (c u).AddsMember)
    (hb : ∀ u (tag : ModelTag), tag.apply (c u) = tag.add (b u.handle)) {k : TypeObject → RecordLayout}
    (hk : ∀ u, u.index = g.target p → k u = layout.add (b u.handle)) :
    wp averts (do
        let u ← g.want p
        Creation.change t.handle (c u)
        return k u)
      (fun r s' => Filling g origin start d (fun h => adds h ++ [(h p).elim .none b])
        (r.getD layout) s') s := by
  refine (wp_bind _ _).2 (wp_mono (wp_want_filling hmake hstart p hs) ?_)
  rintro (_ | u) s' ⟨hs', hfound⟩
  · exact hs'.pass fun h hn => by rw [hfound.2 h hn]; rfl
  · obtain ⟨hindex, _, hnamed⟩ := hfound
    refine (wp_bind _ _).2 ((wp_ask _).2 ((wp_pure _).2 ?_))
    show Filling _ _ _ _ _ (k u) _
    rw [hk u hindex]
    exact hs'.change hstart (hc u) (hb u) fun h hn => by rw [hnamed h hn]; rfl

theorem wp_addMethod_filling (hs : Filling g origin start d adds layout s) (attr : MemberAttributes)
    (type : TypeIndex) (name : Bytes) :
    wp averts (addMethod t attr type (Text.lossy name) g.want)
      (fun _ s' => Filling g origin start d
        (fun h => adds h ++ [{ methods := additions.function t h attr type name }]) layout s') s := by
  refine (wp_bind _ _).2 (wp_mono (wp_want_filling hmake hstart type hs) ?_)
  rintro (_ | u) s' ⟨hs', hfound⟩
  · exact hs'.pass fun h hn => by rw [additions.function, hfound.2 h hn]; rfl
  · have hchange := hs'.change hstart
      (c := .method (Text.lossy name) u.handle (attr.accessOr t.defaultAccess) attr.traits) trivial
      (b := { methods := [⟨Text.lossy name, u.handle, attr.accessOr t.defaultAccess, attr.traits⟩] })
      (a := fun h => { methods := additions.function t h attr type name })
      (by simp) (fun h hn => by rw [additions.function, hfound.2.2 h hn]; rfl)
    exact (wp_ask _).2 (by simpa using hchange)

theorem wp_forM_filling {name : Bytes} (es : List MethodEntry)
    (hs : Filling g origin start d adds layout s) :
    wp averts (es.forM fun e =>
        discard (attempt (addMethod t e.attr e.type (Text.lossy name) g.want)))
      (fun r s' => r = some () ∧ Filling g origin start d (fun h => adds h ++ es.map fun e =>
        { methods := additions.function t h e.attr e.type name }) layout s') s := by
  induction es generalizing adds s with
  | nil => exact (wp_pure _).2 ⟨rfl, by simpa using hs⟩
  | cons e es ih =>
    refine (wp_bind _ _).2 ((wp_bind _ _).2 ((wp_attempt _ _).2 ?_))
    refine wp_mono (wp_addMethod_filling hmake hstart hs e.attr e.type name) fun r s' hs' => ?_
    refine (wp_pure ()).2 (wp_mono (ih hs') fun r s'' hs'' => ⟨hs''.1, ?_⟩)
    simpa using hs''.2

theorem wp_addNested_filling (hs : Filling g origin start d adds layout s) (type : TypeIndex)
    (name : Bytes) : wp averts (do
        if g.definesNested t type name then return layout
        let nested ← g.want type
        Creation.change t.handle (.nested (Text.lossy name) nested.handle)
        return layout)
      (fun r s' => Filling g origin start d
        (fun h => adds h ++ [g.additions t h (.nested type name)]) (r.getD layout) s') s := by
  cases hinside : g.definesNested t type name with
  | true => exact (wp_pure _).2 (hs.pass fun h _ => by simp only [additions, hinside, if_true])
  | false =>
    simp only [additions, hinside, Bool.false_eq_true, if_false]
    refine wp_want_change hmake hstart hs (fun u => ?_) (fun u tag => ?_) fun u hu => ?_
    · trivial
    · simp
    · simp

theorem wp_addOverloads_filling (hs : Filling g origin start d adds layout s) (count : UInt16)
    (list : TypeIndex) (name : Bytes) :
    wp averts (g.addMember g.want t layout (.overloads count list name))
      (fun r s' => Filling g origin start d
        (fun h => adds h ++ [g.additions t h (.overloads count list name)]) (r.getD layout) s') s := by
  refine (wp_bind _ _).2 ((wp_ofOption _).2 ?_)
  rcases htype : g.stream.type? list with _ | r
  · exact hs.pass fun h _ => by simp only [additions, htype]
  · cases r with
    | methodList bs =>
      refine (wp_bind _ _).2 (wp_mono (wp_forM_filling hmake hstart _ hs) ?_)
      rintro _ s' ⟨rfl, hs'⟩
      refine hs'.imp fun h tag _ hadded => ?_
      simp only [additions, htype]
      exact hadded.gather
    | _ => exact wp_failure.2 (hs.pass fun h _ => by simp only [additions, htype])

/-- What is added by a data member with an offset. -/
theorem wp_addData_filling (hs : Filling g origin start d adds layout s) {attr : MemberAttributes}
    {type : TypeIndex} {offset : Numeric} {name : Bytes} {o : Nat}
    (hm : (Member.data attr type offset name).WellFormed) (ho : offset.size? = some o)
    (hfits : averts .overflow → ¬ g.Overflows origin (.data attr type offset name)) :
    wp averts (g.addMember g.want t layout (.data attr type offset name))
      (fun r s' => Filling g origin start d
          (fun h => adds h ++ [g.additions t h (.data attr type offset name)]) (r.getD layout) s'
        ∧ ¬ g.Overflows origin (.data attr type offset name)) s := by
  have hoffset := hm.1.offset_iff.2 ho
  simp only [addMember, ho, additions, dataPlace_eq]
  refine (wp_bind _ _).2 ((wp_ofOption _).2 ((wp_bind _ _).2
    (wp_mono (wp_want_filling hmake hstart _ hs) ?_)))
  rintro (_ | u) s' ⟨hs', hfound⟩
  · refine ⟨hs'.pass fun h hn => by rw [hfound.2 h hn], ?_⟩
    rintro ⟨_, n, _, hn, _⟩
    exact hfound.1 n hn
  · obtain ⟨_, ⟨n, hn⟩, hnamed⟩ := hfound
    refine (wp_bind _ _).2 ((wp_word64 _).2 ?_)
    split
    · next hlt =>
      refine (wp_bind _ _).2 ((wp_ask _).2 ((wp_pure _).2 ⟨?_, ?_⟩))
      · have hchange := hs'.change hstart (c := .field (Text.lossy name) u.handle
            (attr.accessOr t.defaultAccess) (g.stream.bitWidth? type)) trivial
          (b := { fields := [(⟨Text.lossy name, u.handle, attr.accessOr t.defaultAccess,
            g.stream.bitWidth? type⟩, 8 * o + g.stream.firstBit type)] })
          (a := fun h => g.additions t h (.data attr type offset name)) (by simp) fun h hn => by
            simp only [additions, dataPlace_eq, ho, hnamed h hn]
        simpa [additions, dataPlace_eq, ho] using hchange
      · rintro ⟨o', _, ho', _, hle⟩
        obtain rfl := hoffset.unique ho'
        omega
    · next hle => exact fun ha => hfits ha ⟨o, n, hoffset, hn, Nat.le_of_not_lt hle⟩

theorem wp_addMember_filling (hs : Filling g origin start d adds layout s) {m : Member}
    (hm : m.WellFormed) (hfits : averts .overflow → ¬ g.Overflows origin m) :
    wp averts (g.addMember g.want t layout m)
      (fun r s' => Filling g origin start d (fun h => adds h ++ [g.additions t h m])
        (r.getD layout) s' ∧ ¬ g.Overflows origin m) s := by
  by_cases hdata : ∃ attr type offset name, m = .data attr type offset name
  · obtain ⟨attr, type, offset, name, rfl⟩ := hdata
    cases ho : offset.size? with
    | none =>
      refine (wp_bind _ _).2 ((wp_ofOption _).2 ?_)
      rw [ho]
      refine ⟨hs.pass fun h _ => by simp only [additions, ho], ?_⟩
      rintro ⟨o, _, hoffset, _⟩
      cases ho.symm.trans (hm.1.offset_iff.1 hoffset)
    | some o => exact wp_addData_filling hmake hstart hs hm ho hfits
  have hover : ¬ g.Overflows origin m := by
    cases m with
    | data => exact absurd ⟨_, _, _, _, rfl⟩ hdata
    | _ => exact id
  suffices hwp : wp averts (g.addMember g.want t layout m) (fun r s' => Filling g origin start d
      (fun h => adds h ++ [g.additions t h m]) (r.getD layout) s') s from
    wp_mono hwp fun _ _ h => ⟨h, hover⟩
  cases m with
  | data => exact absurd ⟨_, _, _, _, rfl⟩ hdata
  | baseClass attr type offset =>
    refine wp_want_change hmake hstart hs (fun u => ?_) (fun u tag => ?_) fun u hu => ?_
    · trivial
    · simp
    · simp [TypeObject.uid, hu]
  | virtualBase indirect attr type pointer offset index =>
    refine wp_want_change hmake hstart hs (fun u => ?_) (fun u tag => ?_) fun u hu => ?_
    · trivial
    · simp
    · simp
  | nested type name => exact wp_addNested_filling hmake hstart hs type name
  | nestedEx attr type name => exact wp_addNested_filling hmake hstart hs type name
  | static attr type name =>
    refine wp_want_change hmake hstart hs (fun u => ?_) (fun u tag => ?_) fun u hu => ?_
    · trivial
    · simp
    · simp
  | method attr type offset name =>
    refine (wp_bind _ _).2 (wp_mono (wp_addMethod_filling hmake hstart hs attr type name) ?_)
    rintro (_ | _) s' hs' <;> exact hs'
  | overloads count list name => exact wp_addOverloads_filling hmake hstart hs count list name
  | enumerator attr value name => exact wp_addEnumerator_filling hstart hs attr value name
  | _ => exact (wp_pure _).2 (hs.pass fun _ _ => rfl)

/-- There is an end exactly if no member overflows. -/
theorem wp_addMembers_filling {ti : TypeIndex} {ms : List Member} (halive : Alive origin start)
    (hentry : start.declarations.find? d = some ⟨ti, .forward⟩) (hms : ∀ m ∈ ms, m.WellFormed)
    (hfits : averts .overflow → ∀ m ∈ ms, ¬ g.Overflows origin m) :
    wp averts (g.addMembers g.want t ⟨t.size, [], []⟩ ms) (fun r s' => ∃ layout, r = some layout
      ∧ Filling g origin start d (fun h => ms.map (g.additions t h)) layout s'
      ∧ ∀ m ∈ ms, ¬ g.Overflows origin m) start := by
  obtain ⟨tag, hsome⟩ : ∃ tag, start.system.tags[d]? = some tag :=
    ⟨_, Array.getElem?_eq_getElem hstart.lt⟩
  have hblank := halive.blank hsome (hstart.sound.le_of_entry hentry)
    fun ti' hfull => nomatch hentry.symm.trans hfull
  refine wp_addMembers_with
    (J := fun done layout s => Filling g origin start d (fun h => done.map (g.additions t h)) layout s
      ∧ ∀ m ∈ done, ¬ g.Overflows origin m) [] _ ms (fun done layout s m hm hs => ?_) ?_
  · refine wp_mono (wp_addMember_filling hmake hstart hs.1 (hms m hm) fun ha => hfits ha m hm) ?_
    rintro r s' ⟨hs', hfit⟩
    exact ⟨by simpa using hs', by simpa [or_imp, forall_and] using ⟨hs.2, hfit⟩⟩
  · exact ⟨⟨.refl hstart.sound, .refl start, .of_eq rfl rfl, tag, hsome,
      fun _ _ => .of_isBlank hblank t.size⟩, fun _ hm => absurd hm List.not_mem_nil⟩

end

/-! ### What holds of all that has been completed -/

variable {d : TagDecl} {ti : TypeIndex} {handle : TypeHandle}

/-- What completing has made of a tag type, by the record that it was completed from. -/
structure Completed (g : TypeGraph) (origin : TypeModel) (s : TypeStore TypeModel) (ti : TypeIndex)
    (tag : ModelTag) (t : TagShape) (ms : List Member) (layout : RecordLayout) : Prop where
  shape : ∃ handle, g.shape? ti handle = some t
  members : g.stream.fields? t.fieldList = some ms
  layout_eq : tag.layout = some layout
  added (h : TypeIndex → Option TypeHandle) : g.Names origin s h →
    AddedUp tag layout (ms.map (g.additions t h))
  fits : ∀ m ∈ ms, ¬ g.Overflows origin m

def AllCompleted (g : TypeGraph) (origin : TypeModel) (s : TypeStore TypeModel) : Prop :=
  ∀ d ti, s.declarations.find? d = some ⟨ti, .full⟩ → ∃ tag t ms layout,
    s.system.tags[d]? = some tag ∧ g.Completed origin s ti tag t ms layout

/-- What was complete is so still, and nothing else is. -/
theorem AllCompleted.mono (h : g.AllCompleted origin s) (hrecalls : Recalls s s')
    (hfull : ∀ d ti, s'.declarations.find? d = some ⟨ti, .full⟩ →
      s.declarations.find? d = some ⟨ti, .full⟩ ∧ s'.system.tags[d]? = s.system.tags[d]?) :
    g.AllCompleted origin s' := by
  intro d ti hd
  obtain ⟨hd', htag⟩ := hfull d ti hd
  obtain ⟨tag, t, ms, layout, htag', hcompleted⟩ := h d ti hd'
  exact ⟨tag, t, ms, layout, htag.trans htag', hcompleted.shape, hcompleted.members,
    hcompleted.layout_eq, fun h hn => hcompleted.added h (hn.of_recalls hrecalls), hcompleted.fits⟩

theorem AllCompleted.change (h : g.AllCompleted origin s) {c : TagChange}
    (htag : s.system.tagOf? handle = some d) (hd : s.declarations.find? d = some ⟨ti, .forward⟩) :
    g.AllCompleted origin { s with system := TypeSystem.change s.system handle c } := by
  refine h.mono (.of_eq rfl rfl) fun d' ti' hd' => ⟨hd', ?_⟩
  show (s.system.change handle c).tags[d']? = _
  rw [getElem?_tags_change, if_neg]
  rw [htag]
  rintro ⟨⟩
  exact nomatch hd.symm.trans hd'

theorem AllCompleted.grown (h : g.AllCompleted origin s) (hs : Sound g origin [] s)
    (hrecalls : Recalls s s') (hgrown : Grown (fun _ => False) s s') : g.AllCompleted origin s' := by
  refine h.mono hrecalls fun d ti hd => ?_
  rcases hgrown.entered hd with hfull | hforward
  · exact ⟨hfull, hgrown.tag (hs.lt_of_entry hfull) id⟩
  · exact nomatch hforward

theorem Filling.complete {start : TypeStore TypeModel} {tag : TagDecl} {t : TagShape}
    {ms : List Member} {layout : RecordLayout} {completing : List TypeIndex}
    (hstart : Begun g origin start tag handle)
    (hs : Filling g origin start tag (fun h => ms.map (g.additions t h)) layout s)
    (hfits : ∀ m ∈ ms, ¬ g.Overflows origin m) (hall : g.AllCompleted origin start)
    (hentry : start.declarations.find? tag = some ⟨ti, .forward⟩)
    (hshape : g.shape? ti handle = some t) (hfields : g.stream.fields? t.fieldList = some ms) :
    g.AllCompleted origin ({ s with
      system := TypeSystem.change s.system handle (.complete layout), completing }.resolve tag ti) := by
  obtain ⟨id, u, hu, rfl, _⟩ := hs.reaches.sound.entry (hs.reaches.entry hentry)
  have hended : Recalls s { s with
      system := TypeSystem.change s.system handle (.complete layout), completing } := .of_eq rfl rfl
  have hrecalls := hended.trans (.resolve tag (hs.reaches.sound.object hu))
  have htag : s.system.tagOf? handle = some tag := hs.grown.types.tagOf? hstart.tagOf
  have htags (d : TagDecl) : (TypeSystem.change s.system handle (.complete layout)).tags[d]? = _ :=
    getElem?_tags_change s.system handle (.complete layout) d
  intro d ti' hd
  rw [find?_resolve] at hd
  split at hd
  · next heq =>
    obtain rfl := heq
    obtain ⟨rfl, _⟩ := DeclStatus.mk.inj (Option.some.inj hd)
    obtain ⟨tag, htag', hadded⟩ := hs.added
    refine ⟨tag.apply (.complete layout), t, ms, layout, ?_, ⟨handle, hshape⟩, hfields, rfl, ?_, hfits⟩
    · exact (htags d).trans (by rw [if_pos htag, htag']; rfl)
    · exact fun h hn => (hadded h (hn.of_recalls hrecalls)).complete
  · next hne =>
    -- what else is complete was so before
    rcases hs.grown.entered hd with hfull | hforward
    · obtain ⟨tag', t', ms', layout', htag', hcompleted⟩ := hall d ti' hfull
      have hsame : s.system.tags[d]? = start.system.tags[d]? :=
        hs.grown.tag (hstart.sound.lt_of_entry hfull) hne
      have hother : s.system.tagOf? handle ≠ some d := by
        rw [htag]
        exact fun heq => hne (Option.some.inj heq).symm
      refine ⟨tag', t', ms', layout', ?_, hcompleted.shape, hcompleted.members,
        hcompleted.layout_eq, ?_, hcompleted.fits⟩
      · exact (htags d).trans (by rw [if_neg hother, hsame, htag'])
      · exact fun h hn => hcompleted.added h (hn.of_recalls (hs.recalls.trans hrecalls))
    · cases hforward

theorem Begun.of_sound (hunder : s.underway = []) (hs : Sound g origin [] s)
    (htag : s.system.tagOf? handle = some d) (hentry : s.declarations.find? d = some ⟨ti, .forward⟩)
    (completing : List TypeIndex) : Begun g origin { s with
      system := TypeSystem.change s.system handle (.external false), completing } d handle := by
  have hquiet := FreshTags.quiet_change s.system handle (.external false)
  have hsound : Sound g origin [] { s with
      system := TypeSystem.change s.system handle (.external false), completing } :=
    (hs.with_system hquiet).with_marks _ _
  exact ⟨hunder, hsound, hsound.lt_of_entry hentry, hquiet.tagOf? _ _ htag⟩

theorem wp_complete_completed (hunder : s.underway = []) (hs : Sound g origin [] s)
    (halive : Alive origin s) (hall : g.AllCompleted origin s) (handle : TypeHandle) :
    wp g.stream.CompletingAverts (g.complete handle) (fun _ s' => g.AllCompleted origin s') s := by
  refine wp_complete_of (fun _ => hall) fun tag ti htag hentry => ?_
  let start : TypeStore TypeModel := { s with
    system := TypeSystem.change s.system handle (.external false), completing := ti :: s.completing }
  have hstart : Begun g origin start tag handle := .of_sound hunder hs htag hentry _
  have hall' : g.AllCompleted origin start :=
    (hall.change htag hentry).mono (.of_eq rfl rfl) fun _ _ hd => ⟨hd, rfl⟩
  refine wp_completeDeclared_of_members id (hall.change htag hentry) fun t ms hshape hfields => ?_
  obtain rfl := handle_of_shape? hshape
  have hms (m : Member) (hm : m ∈ ms) := TypeStream.wellFormed_of_mem_fields? hfields hm
  refine wp_mono (wp_addMembers_filling (fun _ => TypeStream.makingAverts_of_completingAverts) hstart
    (halive.external t.handle false _) hentry hms fun hfit m hm =>
      not_overflows_of_fits (hms m hm) (hfit.fits hfields hm)) ?_
  rintro _ s' ⟨layout, rfl, hs', hfits⟩
  exact ⟨layout, rfl, hs'.complete hstart hfits hall' hentry hshape hfields⟩

/-- What cannot happen when a tag type with these members is completed. -/
def PlacingAverts (g : TypeGraph) (origin : TypeModel) (ms : List Member) : Halt → Prop
  | .endless => g.stream.ChainsEnd
  | .overflow => ∀ m ∈ ms, ¬ g.Overflows origin m

/-- A tag type that is a definition becomes complete, unless a data member is too far away. -/
theorem wp_complete_placed {t : TagShape} {ms : List Member} (hunder : s.underway = [])
    (hs : Sound g origin [] s) (halive : Alive origin s) (htag : s.system.tagOf? handle = some d)
    (hentry : s.declarations.find? d = some ⟨ti, .forward⟩) (hfree : ti ∉ s.completing)
    (hshape : g.shape? ti handle = some t) (hhas : g.hasMembers t)
    (hfields : g.stream.fields? t.fieldList = some ms) :
    wp (g.PlacingAverts origin ms) (g.complete handle) (fun r _ => r = some (.ok true)
      ∧ ∀ m ∈ ms, ¬ g.Overflows origin m) s := by
  have hstart : Begun g origin { s with
      system := TypeSystem.change s.system handle (.external false)
      completing := ti :: s.completing } d handle := .of_sound hunder hs htag hentry _
  refine wp_complete_of_shape htag hentry hfree hshape hhas hfields ?_
  obtain rfl := handle_of_shape? hshape
  refine wp_mono (wp_addMembers_filling (fun h ha => ?_) hstart (halive.external _ false _) hentry
    (fun m hm => TypeStream.wellFormed_of_mem_fields? hfields hm) fun hfit => hfit) ?_
  · cases h with
    | endless => exact ha
    | overflow => trivial
  · rintro _ s' ⟨layout, rfl, _, hfit⟩
    exact ⟨layout, rfl, rfl, hfit⟩

/-- No other tag type is changed, none that is new has any members, and each that there was is still
that of its record. -/
theorem wp_complete_frame (hunder : s.underway = []) (hs : Sound g origin [] s) (handle : TypeHandle) :
    wp (fun _ => False) (g.complete handle) (fun _ s' =>
      (∀ d, s.system.tagOf? handle ≠ some d → d < s.system.tags.size →
        s'.system.tags[d]? = s.system.tags[d]?)
      ∧ (∀ d tag, s.system.tags.size ≤ d → s'.system.tags[d]? = some tag → tag.IsBlank)
      ∧ ∀ d e, s.declarations.find? d = some e →
        ∃ state, s'.declarations.find? d = some ⟨e.index, state⟩) s := by
  have hnone {d : TagDecl} {tag : ModelTag} (hle : s.system.tags.size ≤ d)
      (h : s.system.tags[d]? = some tag) : tag.IsBlank :=
    nomatch (Array.getElem?_eq_none hle).symm.trans h
  refine wp_complete_of (fun _ => ⟨fun _ _ _ => rfl, fun _ _ => hnone, fun _ e he => ⟨e.state, he⟩⟩)
    fun d ti htag hentry => ?_
  let start : TypeStore TypeModel := { s with
    system := TypeSystem.change s.system handle (.external false), completing := ti :: s.completing }
  have hstart : Begun g origin start d handle := .of_sound hunder hs htag hentry _
  have hsize : start.system.tags.size = s.system.tags.size := size_tags_change _ _ _
  have hold (d' : TagDecl) (e : DeclStatus) (he : start.declarations.find? d' = some e) :
      d' < start.system.tags.size := hstart.sound.lt_of_entry he
  have hother {d' : TagDecl} {m : TypeModel} (c : TagChange) (hm : m.tagOf? handle = some d)
      (hd' : s.system.tagOf? handle ≠ some d') :
      (TypeSystem.change m handle c).tags[d']? = m.tags[d']? :=
    (getElem?_tags_change m handle c d').trans (if_neg fun h => hd' (htag.trans (hm.symm.trans h)))
  have hnew {d' : TagDecl} (hle : s.system.tags.size ≤ d') : s.system.tagOf? handle ≠ some d' := by
    rw [show s.system.tagOf? handle = some d from htag]
    rintro ⟨⟩
    exact absurd (hs.lt_of_entry hentry) (Nat.not_lt.2 hle)
  refine wp_completeDeclared_of False.elim False.elim (W := fun _ _ => True)
    (I := Grown (· = d) start)
    (fun p => .bind (keeps_get_grown hold p) fun id _ => keeps_object id) ?_ (.refl start) ?_ ?_
  · exact fun s' c hc hs' => hs'.change_touched (hs'.types.tagOf? hstart.tagOf) hstart.lt rfl hc
  · refine ⟨fun d' hd' _ => hother _ htag hd', fun d' tag hle h => hnone hle ?_,
      fun _ e he => ⟨e.state, he⟩⟩
    exact (hother _ htag (hnew hle)).symm.trans h
  · intro s' layout hs'
    have htag' : s'.system.tagOf? handle = some d := hs'.types.tagOf? hstart.tagOf
    refine ⟨fun d' hd' hlt => ?_, fun d' tag hle h => ?_, fun d' e he => ?_⟩
    · have hne : d' ≠ d := by
        rintro rfl
        exact hd' htag
      exact (hother _ htag' hd').trans ((hs'.tag (hsize ▸ hlt) hne).trans (hother _ htag hd'))
    · exact hs'.fresh (hsize ▸ hle) ((hother _ htag' (hnew hle)).symm.trans h)
    · rw [find?_resolve]
      split
      · next heq =>
        obtain rfl := Option.some.inj (hentry.symm.trans (heq ▸ he))
        exact ⟨.full, rfl⟩
      · exact ⟨e.state, hs'.entry he⟩

end TypeGraph
end Pdb
