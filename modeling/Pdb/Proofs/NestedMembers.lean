import Pdb.Proofs.Enclosing
import Pdb.Proofs.Lifecycle

/-! # Where nested types go when a record is completed

A nested type of a record that is completed is either added to the tag type under its name, or it is
passed over as declared in there already. The table of nested records decides on the second by the
index that is listed, or by that of its definition; where the type is declared goes by the definition
alone. The two differ only if a later record lists the definition again: then the nested type is
declared in that one, and the record that has been completed knows nothing of it
(`complete_nested`, `nested_lost`).
-/

namespace Pdb

namespace TypeStore
open TypeModel
variable {s s' s'' : TypeStore TypeModel} {d : TagDecl} {ti : TypeIndex} {name : Bytes}

/-- The tag type `d` has the type at `ti` for a nested type with a name. -/
def Gives (s : TypeStore TypeModel) (d : TagDecl) (ti : TypeIndex) (name : Bytes) : Prop :=
  ∃ id t tag, s.cached? ti = some id ∧ s.object? id = some t ∧ s.system.tags[d]? = some tag
    ∧ (Text.lossy name, t.handle) ∈ tag.nested

/-- No type goes, and the tag type `d` loses no nested type. -/
structure Retains (d : TagDecl) (s s' : TypeStore TypeModel) : Prop where
  cached {k : TypeIndex} {id : TypeId} : s.cached? k = some id → s'.cached? k = some id
  objects {id : TypeId} {t : TypeObject} : s.object? id = some t →
    ∃ state, s'.object? id = some { t with state }
  nested {tag : ModelTag} : s.system.tags[d]? = some tag →
    ∃ tag', s'.system.tags[d]? = some tag' ∧ tag.nested ⊆ tag'.nested

theorem Retains.trans (h : Retains d s s') (h' : Retains d s' s'') : Retains d s s'' where
  cached hk := h'.cached (h.cached hk)
  objects ht := by
    obtain ⟨state, ht'⟩ := h.objects ht
    obtain ⟨state', ht''⟩ := h'.objects ht'
    exact ⟨state', ht''⟩
  nested htag := by
    obtain ⟨tag', htag', hsub⟩ := h.nested htag
    obtain ⟨tag'', htag'', hsub'⟩ := h'.nested htag'
    exact ⟨tag'', htag'', List.Subset.trans hsub hsub'⟩

theorem Gives.mono (h : s.Gives d ti name) (hs : Retains d s s') : s'.Gives d ti name := by
  obtain ⟨id, t, tag, hid, ht, htag, hmem⟩ := h
  obtain ⟨state, ht'⟩ := hs.objects ht
  obtain ⟨tag', htag', hsub⟩ := hs.nested htag
  exact ⟨id, _, tag', hs.cached hid, ht', htag', hsub hmem⟩

end TypeStore

theorem ModelTag.nested_apply (t : ModelTag) (c : TagChange) : t.nested ⊆ (t.apply c).nested := by
  intro x hx
  cases c with
  | nested name type => exact List.mem_append_left _ hx
  | _ => exact hx

namespace TypeStore
open TypeModel
variable {s s' : TypeStore TypeModel} {d : TagDecl}

/-- A tag type keeps its nested types whatever is changed. -/
theorem Retains.change (d : TagDecl) (s : TypeStore TypeModel) (type : TypeHandle) (c : TagChange)
    (completing : List TypeIndex) : Retains d s { s with
      system := TypeSystem.change s.system type c, completing } where
  cached hk := hk
  objects {id t} ht := ⟨t.state, ht⟩
  nested {tag} htag := by
    rw [show (TypeSystem.change s.system type c).tags[d]? = _ from
      TypeModel.getElem?_tags_change s.system type c d, htag]
    split
    · exact ⟨_, rfl, tag.nested_apply c⟩
    · exact ⟨tag, rfl, List.Subset.refl _⟩

/-- A nested type that has been made is given when it is added. -/
theorem Gives.of_change {p : TypeIndex} {id : TypeId} {u : TypeObject} {type : TypeHandle}
    (htag : s.system.tagOf? type = some d) (hd : d < s.system.tags.size)
    (hid : s.cached? p = some id) (hu : s.object? id = some u) (name : Bytes) :
    Gives { s with
      system := TypeSystem.change s.system type (.nested (Text.lossy name) u.handle) } d p name := by
  refine ⟨id, u, s.system.tags[d].apply (.nested (Text.lossy name) u.handle), hid, hu, ?_,
    List.mem_append_right _ (List.mem_singleton_self _)⟩
  show (TypeModel.change s.system type _).tags[d]? = _
  rw [getElem?_tags_change, if_pos htag, Array.getElem?_eq_getElem hd, Option.map_some]

theorem Retains.resolve {tag : TagDecl} {ti : TypeIndex} {id : TypeId} (hid : s.cached? ti = some id) :
    Retains d s (s.resolve tag ti) where
  cached hk := hk
  objects {id' t} ht := by
    rw [object?_resolve tag hid, ht]
    split
    · exact ⟨.full, rfl⟩
    · exact ⟨t.state, rfl⟩
  nested {tag} htag := ⟨tag, htag, List.Subset.refl _⟩

/-- Making types leaves the tag types that there are alone. -/
theorem Grown.retains {Touched : TagDecl → Prop} (h : Grown Touched s s') (hgrows : Later s s')
    (hdevelops : Develops s s') (hd : d < s.system.tags.size) (hnot : ¬ Touched d) :
    Retains d s s' where
  cached := hgrows.cached
  objects := hdevelops.objects
  nested {tag} htag := ⟨tag, (h.tag hd hnot).trans htag, List.Subset.refl _⟩

end TypeStore

namespace TypeGraph
open Creation TypeStore TypeSystem TypeModel
variable {g : TypeGraph} {P : BasicType → Prop} {origin : TypeModel} {d : TagDecl}
  {t : TagShape} {s s' start : TypeStore TypeModel} {done ms : List Member} {m : Member}
  {p ti : TypeIndex} {handle : TypeHandle}

/-- All nested types among some members that are not declared in the tag type itself are among its
nested types, if they can be made. -/
def Given (g : TypeGraph) (P : BasicType → Prop) (s : TypeStore TypeModel) (d : TagDecl)
    (t : TagShape) (ms : List Member) : Prop :=
  ∀ m ∈ ms, ∀ p name n, m.nested? = some (p, name) → g.definesNested t p name = false →
    g.HasSize P p n → s.Gives d p name

theorem Given.mono (h : g.Given P s d t ms) (hs : Retains d s s') : g.Given P s' d t ms :=
  fun m hm p name n hp hout hsize => (h m hm p name n hp hout hsize).mono hs

/-- One more member is to be given only if it is a nested type that is declared outside. -/
theorem Given.concat (h : g.Given P s d t done)
    (hm : ∀ p name n, m.nested? = some (p, name) → g.definesNested t p name = false →
      g.HasSize P p n → s.Gives d p name) : g.Given P s d t (done ++ [m]) := by
  intro m' hm' p name n hp hout hsize
  rcases List.mem_append.1 hm' with hm' | hm'
  · exact h m' hm' p name n hp hout hsize
  · obtain rfl := List.mem_singleton.1 hm'
    exact hm p name n hp hout hsize

/-- All that has been completed has been given its nested types. -/
def AllGiven (g : TypeGraph) (P : BasicType → Prop) (s : TypeStore TypeModel) : Prop :=
  ∀ d ti, s.declarations.find? d = some ⟨ti, .full⟩ → ∃ t handle ms,
    g.shape? ti handle = some t ∧ g.stream.fields? t.fieldList = some ms ∧ g.Given P s d t ms

/-- Nothing has been completed meanwhile. -/
theorem AllGiven.mono (h : g.AllGiven P s)
    (hentered : ∀ d ti, s'.declarations.find? d = some ⟨ti, .full⟩ →
      s.declarations.find? d = some ⟨ti, .full⟩ ∧ Retains d s s') : g.AllGiven P s' := by
  intro d ti hd
  obtain ⟨hfull, hs⟩ := hentered d ti hd
  obtain ⟨t, handle, ms, hshape, hfields, hgiven⟩ := h d ti hfull
  exact ⟨t, handle, ms, hshape, hfields, hgiven.mono hs⟩

/-! ### Completing -/

/-- A nested type that is declared outside of a tag type is looked for and added to it. -/
theorem addMember_of_nested? {name : Bytes} (hp : m.nested? = some (p, name))
    (hout : g.definesNested t p name = false) {want : TypeIndex → Creation TypeModel TypeObject}
    {layout : RecordLayout} : g.addMember want t layout m = (do
      let nested ← want p
      Creation.change t.handle (.nested (Text.lossy name) nested.handle)
      return layout : Creation TypeModel RecordLayout) := by
  cases m with
  | nested p' name' =>
    obtain ⟨rfl, rfl⟩ := Prod.mk.inj (Option.some.inj hp)
    rw [addMember, hout]
    rfl
  | nestedEx attr p' name' =>
    obtain ⟨rfl, rfl⟩ := Prod.mk.inj (Option.some.inj hp)
    rw [addMember, hout]
    rfl
  | _ => cases hp

section
variable {K : g.Knowledge reading (MustHave origin)}

/-- The members `done` of the tag type `d` have been added since the store was `start`. -/
structure Adding (K : g.Knowledge reading (MustHave origin)) (start : TypeStore TypeModel)
    (d : TagDecl) (t : TagShape) (done : List Member) (s : TypeStore TypeModel) : Prop where
  progress : K.Progress [] start s
  grown : Grown (· = d) start s
  given : g.Given (MustHave origin) s d t done

variable (hfixed : BasicsFixed origin) (henums : g.stream.EnumsSimple)
  (hunder : start.underway = [])
  (hold : ∀ d e, start.declarations.find? d = some e → d < start.system.tags.size)
  (hd : d < start.system.tags.size)
include hfixed henums hunder hold hd

/-- A type is found by its index, and is missing only if there is none. -/
theorem wp_want_adding (p : TypeIndex) (hs : Adding K start d t done s) :
    wp (fun _ => False) (g.want p) (fun r s' => Adding K start d t done s' ∧ match r with
      | some u => ∃ id, s'.cached? p = some id ∧ s'.object? id = some u
      | none => ∀ n, ¬ g.HasSize (MustHave origin) p n) s := by
  have hunder' := hs.progress.underway.trans hunder
  have hold' (d : TagDecl) (e : DeclStatus) (he : s.declarations.find? d = some e) :
      d < s.system.tags.size := hs.progress.sound.lt_of_entry he
  have hget := wp_and (Knowledge.keeps_get hfixed henums hunder' p s
    (.refl hs.progress.sound hs.progress.informed)) (wp_get hs.progress.sound hunder')
  have htouched : Keeps (fun _ => False) (Grown (· = d) start) (g.get p) fun _ => True :=
    keeps_get_grown hold p
  have hquiet : Keeps (fun _ => False) (Grown (fun _ => False) s) (g.get p) fun _ => True :=
    keeps_get_grown hold' p
  refine (wp_bind _ _).2 (wp_mono (wp_and (htouched s hs.grown)
    (wp_and (hquiet s (.refl s)) hget)) ?_)
  rintro r s' ⟨⟨hgrown, _⟩, ⟨hquiet, _⟩, ⟨hprogress, _⟩, hreach, hgot⟩
  have hretains : Retains d s s' := hquiet.retains hreach.toGrows.later hprogress.toDevelops
    (hd.trans_le hs.grown.size) id
  have hs' : Adding K start d t done s' :=
    ⟨hs.progress.trans hprogress, hgrown, hs.given.mono hretains⟩
  cases r with
  | none => exact ⟨hs', fun n hn => hgot n hn clear_nil⟩
  | some id =>
    obtain ⟨u, hu, _⟩ := hreach.sound.cached hgot
    simp only [object, wp_bind, wp_look, wp_ofOption, hu]
    exact ⟨hs', id, hgot, hu⟩

omit hfixed henums hunder hold in
theorem Adding.change (hs : Adding K start d t done s)
    (htag : start.system.tagOf? t.handle = some d) {c : TagChange} (hc : c.AddsMember) :
    Adding K start d t done { s with system := TypeSystem.change s.system t.handle c } where
  progress := hs.progress.quiet (FreshTags.quiet_change s.system t.handle c)
  grown := hs.grown.change_touched (hs.grown.types.tagOf? htag) hd rfl hc
  given := hs.given.mono (.change d s t.handle c s.completing)

theorem wp_addMember_adding (htag : start.system.tagOf? t.handle = some d) (layout : RecordLayout)
    (m : Member) (hs : Adding K start d t done s) :
    wp (fun _ => False) (g.addMember g.want t layout m)
      (fun _ s' => Adding K start d t (done ++ [m]) s') s := by
  have hkeeps : Keeps (fun _ => False) (Adding K start d t done) (g.addMember g.want t layout m)
      fun _ => True := by
    have hw (p : TypeIndex) : Keeps (fun _ => False) (Adding K start d t done) (g.want p)
        fun _ => True := fun s hs =>
      wp_mono (wp_want_adding hfixed henums hunder hold hd p hs) fun _ _ hr =>
        ⟨hr.1, fun _ _ => trivial⟩
    exact keeps_addMember hw (fun _ c hc hs => hs.change hd htag hc) layout False.elim
  by_cases hout : ∃ p name, m.nested? = some (p, name) ∧ g.definesNested t p name = false
  · -- this one is asked for and added
    obtain ⟨p, name, hp, hout⟩ := hout
    rw [addMember_of_nested? hp hout, wp_bind]
    refine wp_mono (wp_want_adding hfixed henums hunder hold hd p hs) fun r s' hr => ?_
    obtain ⟨hs', hfound⟩ := hr
    cases r with
    | none =>
      refine ⟨hs'.progress, hs'.grown, hs'.given.concat fun p' name' n hp' _ hsize => ?_⟩
      obtain ⟨rfl, rfl⟩ := Prod.mk.inj (Option.some.inj (hp.symm.trans hp'))
      exact absurd hsize (hfound n)
    | some u =>
      obtain ⟨id, hid, hu⟩ := hfound
      have hs'' := hs'.change hd htag (c := .nested (Text.lossy name) u.handle) trivial
      refine (wp_bind _ _).2 ((wp_ask _).2 ((wp_pure _).2 ⟨hs''.progress, hs''.grown, ?_⟩))
      refine hs''.given.concat fun p' name' _ hp' _ _ => ?_
      obtain ⟨rfl, rfl⟩ := Prod.mk.inj (Option.some.inj (hp.symm.trans hp'))
      exact .of_change (hs'.grown.types.tagOf? htag) (hd.trans_le hs'.grown.size) hid hu name
  · refine wp_mono (hkeeps s hs) fun r s' hr => ⟨hr.1.progress, hr.1.grown, hr.1.given.concat ?_⟩
    intro p name _ hp hfalse
    exact absurd ⟨p, name, hp, hfalse⟩ hout

omit hunder hold hd in
/-- A tag type that is completed is given its nested types. -/
theorem wp_complete_given (hunder : s.underway = []) (hs : Sound g origin [] s)
    (hinformed : K.Informed s) (hgiven : g.AllGiven (MustHave origin) s) (handle : TypeHandle) :
    wp (fun _ => False) (g.complete handle) (fun _ s' => g.AllGiven (MustHave origin) s') s := by
  refine wp_complete_of (fun _ => hgiven) fun tag ti htag hentry => ?_
  let start : TypeStore TypeModel := { s with
    system := TypeSystem.change s.system handle (.external false), completing := ti :: s.completing }
  have hquiet := FreshTags.quiet_change s.system handle (.external false)
  have hsound : Sound g origin [] start := (hs.with_system hquiet).with_marks _ _
  have hfirst : K.Furthers s start :=
    (Knowledge.Furthers.refl hinformed).of_follows hquiet.follows rfl rfl
  have hunder' : start.underway = [] := hunder
  have hold (d : TagDecl) (e : DeclStatus) (he : start.declarations.find? d = some e) :
      d < start.system.tags.size := hsound.lt_of_entry he
  refine wp_completeDeclared_of_members False.elim ?_ fun t ms hshape hfields => ?_
  · exact hgiven.mono fun d ti hd => ⟨hd, .change d s handle _ s.completing⟩
  obtain rfl := handle_of_shape? hshape
  have htag' : start.system.tagOf? t.handle = some tag := hquiet.tagOf? _ _ htag
  refine wp_mono (wp_addMembers_of (J := Adding K start tag t) []
    (fun done m layout s _ hs => wp_addMember_adding hfixed henums hunder' hold (hold tag _ hentry)
      htag' layout m hs) ⟨.refl hsound hfirst.informed, .refl start, nofun⟩ _) ?_
  rintro _ s' ⟨⟨layout, rfl⟩, hs'⟩
  refine ⟨layout, rfl, fun d ti' hd => ?_⟩
  obtain ⟨id, u, hu, rfl, _⟩ := hs'.progress.sound.entry (hs'.progress.entry hentry)
  have hresolved (d : TagDecl) : Retains d s' ({ s' with
      system := TypeSystem.change s'.system t.handle (.complete layout)
      completing := s'.completing.erase u.index }.resolve tag u.index) :=
    (Retains.change d s' t.handle (.complete layout) _).trans
      (.resolve (hs'.progress.sound.object hu))
  rw [find?_resolve] at hd
  split at hd
  · next htag =>
    obtain ⟨rfl, _⟩ := DeclStatus.mk.inj (Option.some.inj hd)
    exact ⟨t, t.handle, ms, hshape, hfields, htag ▸ hs'.given.mono (hresolved tag)⟩
  · next hne =>
    -- what else is complete was so before
    rcases hs'.grown.entered hd with hfull | hforward
    · obtain ⟨t', handle, ms', hshape', hfields', hgiven'⟩ := hgiven d ti' hfull
      have hbetween : Retains d start s' := hs'.grown.retains hs'.progress.toGrows.later
        hs'.progress.toDevelops (hold d _ hfull) hne
      have hstart : Retains d s start := .change d s t.handle _ _
      exact ⟨t', handle, ms', hshape', hfields',
        hgiven'.mono (hstart.trans (hbetween.trans (hresolved d)))⟩
    · cases hforward

omit hunder hold hd in
theorem keeps_get_still (hunder : s.underway = [])
    (hold : ∀ d e, s.declarations.find? d = some e → d < s.system.tags.size) (ti : TypeIndex) :
    Keeps g.stream.MakingAverts
      (fun s' => K.Progress [] s s' ∧ Grown (fun _ => False) s s') (g.get ti) fun _ => True := by
  intro s' hs'
  have hgrown : Keeps (fun _ => False) (Grown (fun _ => False) s) (g.get ti) fun _ => True :=
    keeps_get_grown hold ti
  refine wp_mono (wp_and (Knowledge.keeps_get hfixed henums hunder ti s' hs'.1)
    (hgrown s' hs'.2)) fun r s'' hr => ?_
  exact ⟨⟨hr.1.1, hr.2.1⟩, fun _ _ => trivial⟩

end

theorem AllGiven.grown (h : g.AllGiven P s) (hold : ∀ d e, s.declarations.find? d = some e →
      d < s.system.tags.size) (hlater : Later s s') (hdevelops : Develops s s')
    (hgrown : Grown (fun _ => False) s s') : g.AllGiven P s' := by
  refine h.mono fun d ti hd => ?_
  rcases hgrown.entered hd with hfull | hforward
  · exact ⟨hfull, hgrown.retains hlater hdevelops (hold d _ hfull) id⟩
  · exact nomatch hforward

/-- Completing says that it has succeeded only of what is complete. -/
theorem wp_complete_true {σ : Type} [TypeSystem σ] {s : TypeStore σ} :
    wp (fun _ => False) (g.complete handle) (fun r s' => r = some (.ok true) → ∃ d ti,
      TypeSystem.tagOf? s.system handle = some d
        ∧ s'.declarations.find? d = some ⟨ti, .full⟩) s := by
  refine wp_complete_cases nofun (fun _ => nofun) (fun d ti htag hd _ => ⟨d, ti, htag, hd⟩) ?_
  intro d ti htag _
  refine wp_completeDeclared_of (I := fun _ => True) False.elim False.elim (fun p => .any (g.want p))
    (fun _ _ _ _ => trivial) trivial
    nofun fun s' layout _ _ => ?_
  exact ⟨d, ti, htag, (find?_resolve ..).trans (if_pos rfl)⟩

/-! ### What the table says of a nested type -/

section
variable {name : Bytes}

theorem exists_tag_of_nesting (h : g.nesting.find? p = some ti) :
    ∃ r, g.stream.type? p = some r ∧ r.isTag := by
  obtain ⟨u, _, hu, _⟩ := (TypeStream.nestedIn_of_nesting? g.nesting_eq h).shorter
  obtain ⟨r, hr, hunique⟩ := Option.bind_eq_some_iff.1 hu
  exact ⟨r, hr, by cases r <;> first | rfl | exact nomatch hunique⟩

theorem nestedIn_definition (h : g.stream.NestedIn p ti) :
    g.stream.NestedIn (g.stream.definition p) ti := by
  obtain ⟨c, l, rfl | ⟨hforward, rfl⟩⟩ := h
  · by_cases hforward : l.inner.isForwardRef
    · exact ⟨p, l, .inr ⟨hforward, rfl⟩⟩
    · rw [TypeStream.definition_of_type? l.inner_eq (Bool.eq_false_iff.2 hforward)]
      exact ⟨p, l, .inl rfl⟩
  · have htwice : g.stream.definition (g.stream.definition c) = g.stream.definition c := by
      simp only [← target_eq_definition, target_target]
    exact ⟨c, l, .inr ⟨hforward, htwice⟩⟩

/-- What is passed over is nested in the record by its definition, or the definition has been listed
again by another record. -/
theorem nesting_of_definesNested (h : g.definesNested t p name = true) :
    g.nesting.find? (g.stream.definition p) = some t.index
      ∨ g.nesting.find? p = some t.index ∧ ∃ q, q ≠ t.index
        ∧ g.nesting.find? (g.stream.definition p) = some q := by
  simp only [definesNested, Bool.and_eq_true, Bool.or_eq_true, decide_eq_true_eq] at h
  obtain ⟨⟨_, hp | hp⟩, _⟩ := h
  · have hnested := nestedIn_definition (TypeStream.nestedIn_of_nesting? g.nesting_eq hp)
    obtain ⟨q, hq⟩ := Option.isSome_iff_exists.1
      (TypeStream.isSome_find?_of_nestedIn g.nesting_eq hnested)
    by_cases heq : q = t.index
    · exact .inl (heq ▸ hq)
    · exact .inr ⟨hp, q, heq, hq⟩
  · exact .inl hp

end

end TypeGraph

namespace SymbolFile
open TypeGraph TypeStore TypeSystem
variable {g : TypeGraph} {origin : TypeModel} {f f' f'' : SymbolFile TypeModel} {q : TypeRequest}
  {qs : List TypeRequest} {K : g.Knowledge TypeModel.reading (MustHave origin)}
  {ti p : TypeIndex} {id : TypeId}

/-- All types are known, and all that has been completed has been given its nested types. -/
structure Fulfilled (K : g.Knowledge TypeModel.reading (MustHave origin))
    (f : SymbolFile TypeModel) : Prop extends Informed K f where
  given : g.AllGiven (MustHave origin) f.store

section
variable (hfixed : BasicsFixed origin) (henums : g.stream.EnumsSimple)
include hfixed henums

/-- One request. -/
theorem Fulfilled.perform? (hf : Fulfilled K f) (h : f.perform? q = some f') : Fulfilled K f' := by
  refine ⟨(hf.toInformed.perform? hfixed henums h).2, ?_⟩
  obtain rfl := hf.graph
  have hold (d : TagDecl) (e : DeclStatus) (he : f.store.declarations.find? d = some e) :
      d < f.store.system.tags.size := hf.store.lt_of_entry he
  have hstill (s : TypeStore TypeModel) (hs : K.Progress [] f.store s
      ∧ Grown (fun _ => False) f.store s) : f.graph.AllGiven (MustHave origin) s :=
    hf.given.grown hold hs.1.toGrows.later hs.1.toDevelops hs.2
  exact of_perform? ⟨.refl hf.store hf.informed, .refl f.store⟩
    (keeps_get_still hfixed henums hf.underway hold) hstill
    (wp_complete_given hfixed henums hf.underway hf.store hf.informed hf.given) h

/-- Any number of requests. -/
theorem Fulfilled.performAll? (hf : Fulfilled K f) (h : f.performAll? qs = some f') :
    Fulfilled K f' :=
  performAll?_induction (fun _ _ _ h₁ hq => h₁.perform? hfixed henums hq) hf h

end

theorem fulfilled_of_ofDatabase? {demangler : Demangler} {database : Database}
    (h : ofDatabase? demangler database origin = some f)
    (K : f.graph.Knowledge TypeModel.reading (MustHave origin)) : Fulfilled K f where
  toInformed := informed_of_ofDatabase? h K
  given := by
    rw [store_of_ofDatabase? h]
    exact nofun

theorem complete_true {σ : Type} [TypeSystem σ] {f f' : SymbolFile σ} {type : TypeHandle}
    (h : f.complete type = some (.ok true, f')) : ∃ d ti,
      tagOf? f.store.system type = some d ∧ f'.store.declarations.find? d = some ⟨ti, .full⟩ := by
  obtain ⟨r?, hrun, hr⟩ := exists_runOn_of_complete h
  refine Creation.wp_run wp_complete_true hrun ?_
  cases r? with
  | none => exact nomatch hr
  | some r => exact congrArg some hr

/-- The type of a record that is nested in a complete one is declared in that. -/
theorem Informed.context_of_nesting (hfixed : BasicsFixed origin)
    (hf : Informed (g.enclosure TypeModel.reading (MustHave origin)) f) {d : TagDecl}
    {e : DeclStatus} {u : TypeObject} (hd : f.store.declarations.find? d = some e)
    (hu : f.object? id = some u) (hp : g.nesting.find? u.index = some e.index) :
    ∃ d' tag, f.store.system.tagOf? u.handle = some d' ∧ f.store.system.tags[d']? = some tag
      ∧ tag.decl.context = .tag d := by
  obtain ⟨r, hr, htag⟩ := exists_tag_of_nesting hp
  obtain ⟨d', _, _, henters, ⟨tag, htag', rfl⟩, _, haround⟩ := (hf.informed.object hu).knows r hr htag
  obtain ⟨id', t, ht, hindex, _⟩ := hf.store.entry hd
  have hsize := (hf.store.size ht).mono fun b hb => hb.mustHave hfixed
  obtain rfl := hf.graph
  obtain ⟨outer, d'', houter, ⟨_, e'', he'', hindex''⟩, hc⟩ := haround _ _ hp (hindex ▸ hsize)
  obtain rfl := hf.store.tag_unique hd he'' (houter.symm.trans hindex''.symm)
  exact ⟨d', tag, henters.tagOf, htag', hc⟩

/-- What has become of the nested type `p` of the record at `ti`, whose tag type `d` is `tag`, and
which has the type `id`. -/
inductive Settled (f : SymbolFile TypeModel) (d : TagDecl) (ti : TypeIndex) (tag : ModelTag)
    (id : TypeId) (p : TypeIndex) (name : Bytes) : Prop
  | listed {u : TypeObject} : f.object? id = some u → (Text.lossy name, u.handle) ∈ tag.nested →
    Settled f d ti tag id p name
  | inside {u : TypeObject} {d' : TagDecl} {tag' : ModelTag} : f.object? id = some u →
    f.store.system.tagOf? u.handle = some d' → f.store.system.tags[d']? = some tag' →
    tag'.decl.context = .tag d → Settled f d ti tag id p name
  /-- Another record lists the definition as well, and counts instead. -/
  | elsewhere {q : TypeIndex} : q ≠ ti → f.graph.nesting.find? p = some ti →
    f.graph.nesting.find? (f.graph.stream.definition p) = some q → Settled f d ti tag id p name

/-! ### A nested type that is passed over -/

/-- A union whose one member is passed over is completed without it. -/
theorem complete_passed {t : TagShape} {name : Bytes}
    (htag : TypeSystem.tagOf? f.store.system handle = some d)
    (hentry : f.store.declarations.find? d = some ⟨ti, .forward⟩) (hfree : ti ∉ f.store.completing)
    (hshape : f.graph.shape? ti handle = some t) (hhas : f.graph.hasMembers t)
    (hfields : f.graph.stream.fields? t.fieldList = some [.nested p name])
    (hpassed : f.graph.definesNested t p name = true) :
    ∃ f', f.complete handle = some (.ok true, f')
      ∧ f'.store = (f.store.begun handle ti).finished handle d ti ⟨t.size, [], []⟩ := by
  have hpass : f.graph.addMember f.graph.want t ⟨t.size, [], []⟩ (.nested p name)
      = (pure ⟨t.size, [], []⟩ : Creation TypeModel RecordLayout) := by
    rw [addMember, hpassed]
    rfl
  refine exists_complete_of_addMembers htag hentry hfree hshape hhas hfields ?_
  rw [addMembers, hpass]
  rfl

theorem stream_relistedFile : relistedFile.graph.stream = relistedTypes := by
  have hopen : ofDatabase? Decorated.demangler (.ofTypes relistedTypes) {} = some relistedFile :=
    ofDatabase?_eq_some _
  rw [graph_of_ofDatabase? hopen, Database.types_ofTypes]

/-- What its record says of the first definition of the outer union. -/
theorem shape?_relistedFile : ∃ t, relistedFile.graph.shape? ⟨0x1004⟩ 2 = some t
    ∧ relistedFile.graph.hasMembers t = true ∧ t.fieldList ≠ .none
    ∧ relistedFile.graph.stream.fields? t.fieldList = some [.nested ⟨0x1000⟩ (Text.utf8 "T")]
    ∧ relistedFile.graph.definesNested t ⟨0x1000⟩ (Text.utf8 "T") = true := by
  have hshape : (relistedFile.graph.shape? ⟨0x1004⟩ 2).any fun t => relistedFile.graph.hasMembers t
      && t.fieldList ≠ .none
      && relistedTypes.memberList? t.fieldList = some [.nested ⟨0x1000⟩ (Text.utf8 "T")]
      && relistedFile.graph.definesNested t ⟨0x1000⟩ (Text.utf8 "T") := by
    decide +kernel
  obtain ⟨t, ht, hshape⟩ := (Option.any_eq_true _ _).1 hshape
  simp only [Bool.and_eq_true, decide_eq_true_eq] at hshape
  obtain ⟨⟨⟨hhas, hne⟩, hlist⟩, hnested⟩ := hshape
  have hfields := TypeStream.fields?_of_nextList?_eq_none
    (TypeStream.nextList?_eq_none nextList?_relistedTypes t.fieldList)
  rw [hlist, ← stream_relistedFile] at hfields
  exact ⟨t, ht, hhas, hne, hfields, hnested⟩

/-- The nested union has been asked for when the first definition of the outer one is completed: it is
passed over there, though it is declared in the second. -/
theorem exists_passed : ∃ (f f' : SymbolFile TypeModel) (tag inner : ModelTag) (u : TypeObject)
    (r : TypeRecord) (list : TypeIndex),
      relistedFile.performAll? [.typeOf ⟨0x1000⟩ false, .typeOf ⟨0x1004⟩ false] = some f
      ∧ f.complete 2 = some (.ok true, f') ∧ tagOf? f.store.system 2 = some 2
      ∧ f'.store.declarations.find? 2 = some ⟨⟨0x1004⟩, .full⟩
      ∧ relistedTypes.type? ⟨0x1004⟩ = some r ∧ r.members? = some list
      ∧ relistedTypes.Along list (.nested ⟨0x1000⟩ (Text.utf8 "T"))
      ∧ f'.typeOf ⟨0x1000⟩ false = some (some 1, f') ∧ f'.object? 1 = some u
      ∧ f'.store.system.tags[2]? = some tag ∧ tag.nested = []
      ∧ f'.store.system.tagOf? u.handle = some 1 ∧ f'.store.system.tags[1]? = some inner
      ∧ inner.decl.context = .tag 0 := by
  have hrun : (relistedFile.performAll? [.typeOf ⟨0x1000⟩ false, .typeOf ⟨0x1004⟩ false]).any fun f =>
      (f.graph.shape? ⟨0x1004⟩ 2).any fun t =>
        let s := (f.store.begun 2 ⟨0x1004⟩).finished 2 2 ⟨0x1004⟩ ⟨t.size, [], []⟩
        f.store.system.tagOf? 2 = some 2
          && f.store.declarations.find? 2 = some ⟨⟨0x1004⟩, .forward⟩ && f.store.completing = []
          && s.cached? ⟨0x1000⟩ = some 1 && (s.object? 1).map (·.handle) = some 1
          && s.system.tagOf? 1 = some 1 && s.system.tags[1]?.map (·.decl.context) = some (.tag 0)
          && s.system.tags[2]?.map (·.nested) = some [] := by
    decide +kernel
  obtain ⟨f, hf, hrun⟩ := (Option.any_eq_true _ _).1 hrun
  obtain ⟨t, ht, hrun⟩ := (Option.any_eq_true _ _).1 hrun
  simp only [Bool.and_eq_true, decide_eq_true_eq] at hrun
  obtain ⟨⟨⟨⟨⟨⟨⟨htag, hentry⟩, hfree⟩, hcached⟩, hobject⟩, htag'⟩, hcontext⟩, hnested⟩ := hrun
  obtain ⟨t', hshape, hhas, hne, hfields, hpassed⟩ := shape?_relistedFile
  have hopen : ofDatabase? Decorated.demangler (.ofTypes relistedTypes) {} = some relistedFile :=
    ofDatabase?_eq_some _
  have hgraph : f.graph = relistedFile.graph :=
    ((sound_of_ofDatabase? hopen).performAll? hf).1.graph
  have hstream : f.graph.stream = relistedTypes := by
    rw [hgraph, stream_relistedFile]
  rw [← hgraph] at hshape hhas hfields hpassed
  obtain rfl := Option.some.inj (ht.symm.trans hshape)
  obtain ⟨f', hcomplete, hstore⟩ := complete_passed htag hentry (hfree ▸ List.not_mem_nil)
    hshape hhas hfields hpassed
  rw [← hstore] at hcached hobject htag' hcontext hnested
  obtain ⟨_, _, r, hr, _, hlist, _⟩ := shape?_eq_some hshape
  obtain ⟨u, hu, hhandle⟩ := Option.map_eq_some_iff.1 hobject
  obtain ⟨inner, hinner, hcontext⟩ := Option.map_eq_some_iff.1 hcontext
  obtain ⟨outer, houter, hnested⟩ := Option.map_eq_some_iff.1 hnested
  refine ⟨f, f', outer, inner, u, r, t.fieldList, hf, hcomplete, htag, ?_, ?_, ?_, ?_,
    typeOf_of_cached hcached, hu, houter, hnested, hhandle ▸ htag', hinner, hcontext⟩
  · rw [hstore]
    exact (find?_resolve ..).trans (if_pos rfl)
  · rw [← hstream, hr]
  · exact Option.filter_eq_some_iff.2 ⟨hlist, decide_eq_true hne⟩
  · have halong := ((TypeStream.mem_fields? hfields hne).1 List.mem_cons_self).1
    rwa [hstream] at halong

/-! ### Where the nested types of a complete record go -/

/-- When a record has been completed, each of its nested types that can be made has been added to it
or is declared in it, unless another record lists the same definition. The enumerations have built-in
underlying types, since one that is under way for the sake of its underlying type cannot be what a type
nested in it is declared in (`unsettled_underlying`). -/
theorem complete_nested (demangler : Demangler) {database : Database} (hends : database.types.ChainsEnd)
    (henums : database.types.EnumsSimple) (system : TypeModel) : ∃ f₀,
      ofDatabase? demangler database system = some f₀ ∧ ∀ qs,
        ((f₀.performAll? qs).isSome ∨ f₀.OverflowsDuring qs) ∧ ∀ f, f₀.performAll? qs = some f →
          ∀ type f', f.complete type = some (.ok true, f') → ∃ d ti tag,
            f.store.system.tagOf? type = some d
            ∧ f'.store.declarations.find? d = some ⟨ti, .full⟩ ∧ f'.store.system.tags[d]? = some tag
            ∧ ∀ r list m p name id f'', database.types.type? ti = some r → r.members? = some list →
              database.types.Along list m → m.nested? = some (p, name) →
              f'.typeOf p false = some (some id, f'') → f''.Settled d ti tag id p name := by
  have hfixed : BasicsFixed system := fun _ _ _ => rfl
  obtain ⟨f₀, hopen⟩ := exists_ofDatabase? demangler hends system
  have hgraph := graph_of_ofDatabase? hopen
  rw [← hgraph] at henums ⊢
  refine ⟨f₀, hopen, fun qs => ⟨isSome_performAll?_or_overflows hopen hends qs, fun f hf => ?_⟩⟩
  let K := f₀.graph.enclosure TypeModel.reading (MustHave system)
  have hf₁ : Fulfilled K f :=
    (fulfilled_of_ofDatabase? hopen K).performAll? hfixed henums hf
  intro type f' hcomplete
  have hf' : Fulfilled K f' := hf₁.perform? (q := .complete type) hfixed henums (by
    rw [SymbolFile.perform?, hcomplete, Option.map_some])
  obtain ⟨d, ti, htag, hentry⟩ := complete_true hcomplete
  have hlt : d < f'.store.system.tags.size := hf'.store.lt_of_entry hentry
  obtain ⟨tag, htag'⟩ : ∃ tag, f'.store.system.tags[d]? = some tag :=
    ⟨_, Array.getElem?_eq_getElem hlt⟩
  refine ⟨d, ti, tag, htag, hentry, htag', ?_⟩
  intro r list m p name id f'' hr hlist hm hp hget
  obtain ⟨t, handle, ms, hshape, hfields, hgiven⟩ := hf'.given d ti hentry
  obtain ⟨hindex, _, r', hr', _, hfieldList, _⟩ := shape?_eq_some hshape
  obtain rfl := Option.some.inj (hr.symm.trans hr')
  obtain ⟨hlist', hne⟩ := Option.filter_eq_some_iff.1 hlist
  obtain rfl := Option.some.inj (hlist'.symm.trans hfieldList)
  have hmem : m ∈ ms := (TypeStream.mem_fields? hfields (of_decide_eq_true hne)).2
    ⟨hm, TypeStream.not_continuation_of_nested? hp⟩
  obtain ⟨hdevelops, hf''⟩ := hf'.toInformed.typeOf hfixed henums hget
  obtain ⟨u, hu, huindex, husize, _⟩ := hf'.toInformed.exists_object hfixed henums hget
  obtain ⟨hlater, _, hgot⟩ := hf'.toSound.typeOf hget
  cases hout : f₀.graph.definesNested t p name with
  | false =>
    obtain ⟨id', u', tag'', hid', hu', htag'', hnested⟩ :=
      hgiven m hmem p name _ hp hout (husize.mono fun b hb => hb.mustHave hfixed)
    obtain rfl := Option.some.inj (htag'.symm.trans htag'')
    obtain rfl := Option.some.inj ((hlater.store.cached hid').symm.trans hgot)
    obtain ⟨state, hu''⟩ := hdevelops.objects hu'
    exact .listed hu'' hnested
  | true =>
    obtain ⟨⟨ti', _⟩, hentry', rfl⟩ := hdevelops.entries hentry
    rcases nesting_of_definesNested hout with hnesting | ⟨hnesting, q, hq, hdefinition⟩
    · rw [hindex, ← target_eq_definition, ← huindex] at hnesting
      obtain ⟨d', tag'', hd', htag'', hc⟩ :=
        hf''.context_of_nesting hfixed hentry' hu hnesting
      exact .inside hu hd' htag'' hc
    · rw [← hf''.graph] at hnesting hdefinition
      exact .elsewhere (hindex ▸ hq) (hindex ▸ hnesting) hdefinition

end SymbolFile

/-! A union with nested types of all three kinds -/

/-- A union that another one lists as well, a union, and another name for `int`. -/
def nestedMembers (reference inner : TypeIndex) : List Member := [
  .nested reference (Text.utf8 "T"),
  .nested inner (Text.utf8 "U"),
  .nested ⟨0x74⟩ (Text.utf8 "Int")]

/-- The union is at `0x1004`, and the one that lists a nested union again is at `0x1006`. -/
def sharedTypes : TypeStream :=
  let sharedName := some (Text.utf8 ".?ATT@S@@")
  let outerName := some (Text.utf8 ".?ATS@@")
  let (reference, t) := TypeList.addUnion {} (Text.utf8 "S::T") sharedName .none 0 true
  let (definition, t) := t.addUnion (Text.utf8 "S::T") sharedName .none 1 false
  let (inner, t) := t.addUnion (Text.utf8 "S::U") (some (Text.utf8 ".?ATU@S@@")) .none 1 false
  let (list, t) := t.addFields (nestedMembers reference inner)
  let (_, t) := t.addUnion (Text.utf8 "S") outerName list 1 false
  let (list', t) := t.addFields [.nested definition (Text.utf8 "T")]
  let (_, t) := t.addUnion (Text.utf8 "S") outerName list' 1 false
  match TypeStream.parse .types (.ofBytes t.encode) with
  | .ok s => s
  | .error _ => .empty .types

theorem read_sharedTypes : (∀ ti ∈ sharedTypes.indexes, sharedTypes.nextList? ti = none)
    ∧ (sharedTypes.type? ⟨0x1004⟩).bind TypeRecord.members? = some ⟨0x1003⟩
    ∧ sharedTypes.memberList? ⟨0x1003⟩ = some (nestedMembers ⟨0x1000⟩ ⟨0x1002⟩)
    ∧ sharedTypes.leaf? ⟨0x1003⟩ = some .fieldList ∧ sharedTypes.EnumsSimple := by
  decide +kernel

namespace SymbolFile
open TypeGraph TypeStore TypeSystem

def sharedFile : SymbolFile TypeModel :=
  ofNesting Decorated.demangler (.ofTypes sharedTypes)
    (Database.nesting?_ofTypes (TypeStream.nesting?_of_nextList?_eq_none read_sharedTypes.1)) {}

def sharedRequests : List TypeRequest :=
  [.typeOf ⟨0x1004⟩ false, .typeOf ⟨0x1000⟩ false, .typeOf ⟨0x1002⟩ false, .typeOf ⟨0x74⟩ false]

theorem exists_added : ∃ (f : SymbolFile TypeModel) (t : TagShape) (layout : RecordLayout)
    (s : TypeStore TypeModel), sharedFile.performAll? sharedRequests = some f
      ∧ f.store.system.tagOf? 0 = some 0
      ∧ f.store.declarations.find? 0 = some ⟨⟨0x1004⟩, .forward⟩ ∧ f.store.completing = []
      ∧ f.graph.shape? ⟨0x1004⟩ 0 = some t ∧ t.fieldList = ⟨0x1003⟩
      ∧ (f.graph.addMembers f.graph.want t ⟨t.size, [], []⟩ (nestedMembers ⟨0x1000⟩ ⟨0x1002⟩)).runOn
        (f.store.begun 0 ⟨0x1004⟩) = .ok (some layout, s)
      ∧ let s' := s.finished 0 0 ⟨0x1004⟩ layout
        s'.cached? ⟨0x1000⟩ = some 2 ∧ s'.cached? ⟨0x1002⟩ = some 3 ∧ s'.cached? ⟨0x74⟩ = some 4
        ∧ s'.system.tags[0]?.map (fun tag => tag.nested.map Prod.fst) = some ["Int"]
        ∧ s'.system.tags[3]?.map (·.decl.context) = some (.tag 0)
        ∧ s'.system.tags[2]?.map (·.decl.context) = some (.tag 1) := by
  have hrun : (sharedFile.performAll? sharedRequests).any fun f =>
      (f.graph.shape? ⟨0x1004⟩ 0).any fun t =>
      ((f.graph.addMembers f.graph.want t ⟨t.size, [], []⟩ (nestedMembers ⟨0x1000⟩ ⟨0x1002⟩)).runOn
        (f.store.begun 0 ⟨0x1004⟩)).toOption.any fun (layout?, s) => layout?.any fun layout =>
        let s' := s.finished 0 0 ⟨0x1004⟩ layout
        decide (f.store.system.tagOf? 0 = some 0
          ∧ f.store.declarations.find? 0 = some ⟨⟨0x1004⟩, .forward⟩ ∧ f.store.completing = []
          ∧ t.fieldList = ⟨0x1003⟩
          ∧ s'.cached? ⟨0x1000⟩ = some 2 ∧ s'.cached? ⟨0x1002⟩ = some 3 ∧ s'.cached? ⟨0x74⟩ = some 4
          ∧ s'.system.tags[0]?.map (fun tag => tag.nested.map Prod.fst) = some ["Int"]
          ∧ s'.system.tags[3]?.map (·.decl.context) = some (.tag 0)
          ∧ s'.system.tags[2]?.map (·.decl.context) = some (.tag 1)) := by
    decide +kernel
  obtain ⟨f, hf, hrun⟩ := (Option.any_eq_true _ _).1 hrun
  obtain ⟨t, ht, hrun⟩ := (Option.any_eq_true _ _).1 hrun
  obtain ⟨⟨layout?, s⟩, hadd, hrun⟩ := (Option.any_eq_true _ _).1 hrun
  obtain ⟨layout, rfl, hrun⟩ := (Option.any_eq_true _ _).1 hrun
  obtain ⟨htag, hentry, hfree, hlist, hmade⟩ := of_decide_eq_true hrun
  exact ⟨f, t, layout, s, hf, htag, hentry, hfree, ht, hlist, ok_of_toOption hadd, hmade⟩

/-- `Int` is added, `U` is declared in the union, and `T` in the one that lists its definition. -/
theorem complete_nested_relisted : ∃ (f f' : SymbolFile TypeModel) (tag : ModelTag),
    ofDatabase? Decorated.demangler (.ofTypes sharedTypes) {} = some sharedFile
      ∧ sharedFile.performAll? sharedRequests = some f
      ∧ f.complete 0 = some (.ok true, f') ∧ f'.store.system.tags[0]? = some tag
      ∧ f'.Settled 0 ⟨0x1004⟩ tag 4 ⟨0x74⟩ (Text.utf8 "Int") ∧ tag.nested.map Prod.fst = ["Int"]
      ∧ f'.Settled 0 ⟨0x1004⟩ tag 3 ⟨0x1002⟩ (Text.utf8 "U")
      ∧ f'.store.system.tags[3]?.map (·.decl.context) = some (.tag 0)
      ∧ f'.Settled 0 ⟨0x1004⟩ tag 2 ⟨0x1000⟩ (Text.utf8 "T")
      ∧ f'.store.system.tags[2]?.map (·.decl.context) = some (.tag 1) := by
  obtain ⟨hnext, hmembers, hlist, hleaf, henums⟩ := read_sharedTypes
  have hends : sharedTypes.ChainsEnd := TypeStream.chainsEnd_of_nextList?_eq_none hnext
  have hfields := TypeStream.fields?_of_nextList?_eq_none (TypeStream.nextList?_eq_none hnext ⟨0x1003⟩)
  have hopen : ofDatabase? Decorated.demangler (.ofTypes sharedTypes) {} = some sharedFile :=
    ofDatabase?_eq_some _
  obtain ⟨f, t, layout, s, hf, htag, hentry, hfree, hshape, hfieldList, hadd, h₂, h₃, h₄, hnested,
    hinside, helsewhere⟩ := exists_added
  have hstream : f.graph.stream = sharedTypes := stream_ofTypes hopen hf
  rw [hlist, Option.getD_some, ← hfieldList, ← hstream] at hfields
  have hhas : f.graph.hasMembers t := by
    simp [TypeGraph.hasMembers, hstream, hfieldList, hleaf]
  obtain ⟨f', hcomplete, hstore⟩ := exists_complete_of_addMembers htag hentry
    (hfree ▸ List.not_mem_nil) hshape hhas hfields hadd
  rw [← hstore] at h₂ h₃ h₄ hnested hinside helsewhere
  rw [← Database.types_ofTypes sharedTypes] at hends henums hmembers hlist
  obtain ⟨f₀, hopen', hall⟩ := complete_nested Decorated.demangler hends henums {}
  obtain rfl := Option.some.inj (hopen.symm.trans hopen')
  obtain ⟨d, ti, tag, hd, hentry', htag', hsettled⟩ := (hall _).2 f hf 0 f' hcomplete
  obtain rfl := Option.some.inj (htag.symm.trans hd)
  have hfull : f'.store.declarations.find? 0 = some ⟨⟨0x1004⟩, .full⟩ := by
    rw [hstore]
    exact (find?_resolve ..).trans (if_pos rfl)
  obtain ⟨rfl, _⟩ := DeclStatus.mk.inj (Option.some.inj (hfull.symm.trans hentry'))
  obtain ⟨r, hr, hrecord⟩ := Option.bind_eq_some_iff.1 hmembers
  have hmember {p : TypeIndex} {name : Bytes} {id : TypeId}
      (hm : Member.nested p name ∈ nestedMembers ⟨0x1000⟩ ⟨0x1002⟩)
      (hid : f'.store.cached? p = some id) : f'.Settled 0 ⟨0x1004⟩ tag id p name :=
    hsettled r _ _ _ _ _ f' hr hrecord (.here hlist hm) rfl (typeOf_of_cached hid)
  rw [htag', Option.map_some] at hnested
  exact ⟨f, f', tag, hopen, hf, hcomplete, htag', hmember (by decide) h₄, Option.some.inj hnested,
    hmember (by decide) h₃, hinside, hmember (by decide) h₂, helsewhere⟩

end SymbolFile

/-! An enumeration that is made from a union nested in it -/

/-- The union is at `0x1000`, and the enumeration at `0x1002`. -/
def underlyingTypes : TypeStream :=
  let (inner, t) := TypeList.addUnion {} (Text.utf8 "C::X") (some (Text.utf8 ".?ATX@C@@")) .none 1 false
  let (list, t) := t.addFields [.nested inner (Text.utf8 "X")]
  let (_, t) := t.addEnum (Text.utf8 "C") (some (Text.utf8 ".?AUC@@")) inner list false
  match TypeStream.parse .types (.ofBytes t.encode) with
  | .ok s => s
  | .error _ => .empty .types

theorem read_underlyingTypes : (∀ ti ∈ underlyingTypes.indexes, underlyingTypes.nextList? ti = none)
    ∧ underlyingTypes.memberList? ⟨0x1001⟩ = some [.nested ⟨0x1000⟩ (Text.utf8 "X")] := by
  decide +kernel

namespace SymbolFile
open TypeGraph TypeStore TypeSystem

def underlyingFile : SymbolFile TypeModel :=
  ofNesting Decorated.demangler (.ofTypes underlyingTypes)
    (Database.nesting?_ofTypes (TypeStream.nesting?_of_nextList?_eq_none read_underlyingTypes.1)) {}

/-- The union is made before there is a tag type for the enumeration, and so it is declared outside. The
enumeration passes it over as its own nonetheless. -/
theorem unsettled_underlying : ∃ (f f' : SymbolFile TypeModel) (tag : ModelTag),
    underlyingFile.performAll? [.typeOf ⟨0x1002⟩ false] = some f
      ∧ f.complete 1 = some (.ok true, f') ∧ f'.store.system.tags[1]? = some tag
      ∧ f'.typeOf ⟨0x1000⟩ false = some (some 0, f')
      ∧ ¬ f'.Settled 1 ⟨0x1002⟩ tag 0 ⟨0x1000⟩ (Text.utf8 "X") := by
  have hrun : (underlyingFile.performAll? [.typeOf ⟨0x1002⟩ false]).any fun f =>
      (f.graph.shape? ⟨0x1002⟩ 1).any fun t =>
        let s := (f.store.begun 1 ⟨0x1002⟩).finished 1 1 ⟨0x1002⟩ ⟨t.size, [], []⟩
        decide (f.store.system.tagOf? 1 = some 1
          ∧ f.store.declarations.find? 1 = some ⟨⟨0x1002⟩, .forward⟩ ∧ f.store.completing = []
          ∧ t.fieldList = ⟨0x1001⟩ ∧ f.graph.hasMembers t
          ∧ f.graph.definesNested t ⟨0x1000⟩ (Text.utf8 "X")
          ∧ f.graph.nesting.find? (f.graph.stream.definition ⟨0x1000⟩) = some ⟨0x1002⟩
          ∧ s.cached? ⟨0x1000⟩ = some 0 ∧ (s.object? 0).map (·.handle) = some 0
          ∧ s.system.tagOf? 0 = some 0 ∧ s.system.tags[0]?.map (·.decl.context) = some .translationUnit
          ∧ s.system.tags[1]?.map (·.nested) = some []) := by
    decide +kernel
  obtain ⟨f, hf, hrun⟩ := (Option.any_eq_true _ _).1 hrun
  obtain ⟨t, hshape, hrun⟩ := (Option.any_eq_true _ _).1 hrun
  obtain ⟨htag, hentry, hfree, hlist, hhas, hpassed, hnesting, hmade⟩ := of_decide_eq_true hrun
  have hopen : ofDatabase? Decorated.demangler (.ofTypes underlyingTypes) {} = some underlyingFile :=
    ofDatabase?_eq_some _
  have hstream : f.graph.stream = underlyingTypes := stream_ofTypes hopen hf
  have hfields := TypeStream.fields?_of_nextList?_eq_none
    (TypeStream.nextList?_eq_none read_underlyingTypes.1 ⟨0x1001⟩)
  rw [read_underlyingTypes.2, Option.getD_some, ← hlist, ← hstream] at hfields
  obtain ⟨f', hcomplete, hstore⟩ :=
    complete_passed htag hentry (hfree ▸ List.not_mem_nil) hshape hhas hfields hpassed
  rw [← hstore] at hmade
  obtain ⟨hcached, hobject, hinner, hcontext, hnested⟩ := hmade
  obtain ⟨tag, houter, hnested⟩ := Option.map_eq_some_iff.1 hnested
  refine ⟨f, f', tag, hf, hcomplete, houter, typeOf_of_cached hcached, ?_⟩
  rintro (⟨_, hlisted⟩ | ⟨hu, hd, htag', hc⟩ | ⟨hne, _, helsewhere⟩)
  · rw [hnested] at hlisted
    exact List.not_mem_nil hlisted
  · have hhandle := hobject
    rw [show f'.store.object? 0 = _ from hu, Option.map_some, Option.some.injEq] at hhandle
    obtain rfl := Option.some.inj (hinner.symm.trans (hhandle ▸ hd))
    rw [htag', Option.map_some, hc] at hcontext
    cases hcontext
  · have hsound := sound_of_ofDatabase? hopen
    rw [(hsound.performAll? (performAll?_complete hf hcomplete)).1.graph,
      ← (hsound.performAll? hf).1.graph] at helsewhere
    exact hne (Option.some.inj (helsewhere.symm.trans hnesting))

/-- A nested type need not be listed or be declared in the record. -/
theorem nested_lost : ¬ ∀ (qs : List TypeRequest) (f f' f'' : SymbolFile TypeModel)
    (type : TypeHandle) (d : TagDecl) (ti list p : TypeIndex) (tag : ModelTag) (r : TypeRecord)
    (m : Member) (name : Bytes) (id : TypeId) (u : TypeObject),
      relistedFile.performAll? qs = some f → f.complete type = some (.ok true, f') →
      tagOf? f.store.system type = some d → f'.store.declarations.find? d = some ⟨ti, .full⟩ →
      f'.store.system.tags[d]? = some tag → relistedTypes.type? ti = some r →
      r.members? = some list → relistedTypes.Along list m → m.nested? = some (p, name) →
      f'.typeOf p false = some (some id, f'') → f''.object? id = some u →
      (∃ h, (Text.lossy name, h) ∈ tag.nested)
        ∨ ∃ d' tag', f''.store.system.tagOf? u.handle = some d'
          ∧ f''.store.system.tags[d']? = some tag' ∧ tag'.decl.context = .tag d := by
  intro h
  obtain ⟨f, f', tag, inner, u, r, list, hf, hcomplete, htag, hentry, hr, hlist, hm, hget, hu, htag',
    hnested, hd', hinner, hc⟩ := exists_passed
  rcases h _ f f' f' 2 2 ⟨0x1004⟩ list _ tag r _ _ 1 u hf hcomplete htag hentry htag' hr hlist hm rfl
    hget hu with ⟨_, hlisted⟩ | ⟨d', tag'', hd'', htag'', hc'⟩
  · rw [hnested] at hlisted
    exact List.not_mem_nil hlisted
  · obtain rfl := Option.some.inj (hd'.symm.trans hd'')
    obtain rfl := Option.some.inj (hinner.symm.trans htag'')
    exact absurd (hc.symm.trans hc') (by decide)

end SymbolFile
end Pdb
