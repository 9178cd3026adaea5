import Pdb.Proofs.Carried
import Pdb.Proofs.Placement
import Pdb.Proofs.Reading

/-! # What is known of types

A type is made from types that have been made before it, so what is to hold of all types in a store
can be shown one type at a time. `Knowledge` is something to know of types that stays known, and that
is known of a type once it is known of those that it has been made from. It is then known of all types
after any requests (`Informed.performAll?`).

What is known of a tag type may depend on where it is declared: in the tag type around it exactly if
that one can be made, since the record around is never under way for the sake of the nested one
(`IsTag.clear`).
-/

namespace Pdb

theorem TypeRecord.isTag_of_tagName? {t : TypeRecord} {name : Bytes} (h : t.tagName? = some name) :
    t.isTag := by
  cases t <;> first | rfl | exact nomatch h

/-- The keyword of a declaration. Enumerations have none. -/
def Declaration.kind? : Declaration → Option RecordKind
  | .record _ _ _ kind .. => some kind
  | .enum .. => none

namespace TypeStore
variable {σ : Type} [TypeSystem σ] {s s' s'' : TypeStore σ} {t : TypeObject} {tag : TagDecl} {m : σ}

/-- Types stay the same but for their states, and declarations stay those of their records. -/
structure Develops (s s' : TypeStore σ) : Prop where
  follows : TypeSystem.Follows s.system s'.system
  objects {id : TypeId} {t : TypeObject} : s.object? id = some t →
    ∃ state, s'.object? id = some { t with state }
  entries {tag : TagDecl} {e : DeclStatus} : s.declarations.find? tag = some e →
    ∃ e', s'.declarations.find? tag = some e' ∧ e'.index = e.index

namespace Develops

theorem of_follows (h : TypeSystem.Follows s.system s'.system) (hobjects : s'.objects = s.objects)
    (hentries : s'.declarations = s.declarations) : Develops s s' where
  follows := h
  objects {id t} ht := by
    rw [object?, ← hobjects] at ht
    exact ⟨t.state, ht⟩
  entries he := ⟨_, hentries ▸ he, rfl⟩

theorem refl (s : TypeStore σ) : Develops s s := .of_follows .refl rfl rfl

theorem trans (h : Develops s s') (h' : Develops s' s'') : Develops s s'' where
  follows := h.follows.trans h'.follows
  objects ht := by
    obtain ⟨state, ht'⟩ := h.objects ht
    obtain ⟨state', ht''⟩ := h'.objects ht'
    exact ⟨state', ht''⟩
  entries he := by
    obtain ⟨e', he', hindex⟩ := h.entries he
    obtain ⟨e'', he'', hindex'⟩ := h'.entries he'
    exact ⟨e'', he'', hindex'.trans hindex⟩

theorem add (s : TypeStore σ) (t : TypeObject) : Develops s (s.add t) where
  follows := .refl
  objects {_ u} hu := ⟨u.state, object?_add_of_some hu t⟩
  entries he := ⟨_, he, rfl⟩

/-- A declaration without an entry may get any. -/
theorem enter {e : DeclStatus} (hnew : s.declarations.find? tag = none) :
    Develops s { s with declarations := s.declarations.insert tag e } where
  follows := .refl
  objects {id t} ht := ⟨t.state, ht⟩
  entries {k e'} he := by
    refine ⟨e', ?_, rfl⟩
    rw [Table.find?_insert, if_neg, he]
    rintro rfl
    exact nomatch hnew.symm.trans he

end Develops

/-- The declaration of a tag type, which has an entry for the record of the type. -/
structure Enters (s : TypeStore σ) (t : TypeObject) (tag : TagDecl) : Prop where
  tagOf : TypeSystem.tagOf? s.system t.handle = some tag
  entry : ∃ e, s.declarations.find? tag = some e ∧ e.index = t.index

theorem Enters.mono [FreshTags σ] (h : s.Enters t tag) (hs : s.Develops s') : s'.Enters t tag where
  tagOf := FreshTags.tagOf?_of_follows hs.follows h.tagOf
  entry := by
    obtain ⟨e, he, hindex⟩ := h.entry
    obtain ⟨e', he', hindex'⟩ := hs.entries he
    exact ⟨e', he', hindex'.trans hindex⟩

end TypeStore

namespace TypeGraph
open TypeStore TypeSystem

section
variable {σ : Type} [TypeSystem σ]

/-- A context and a name for the tag type of a record: in the tag type of the record around it if
that can be made, with what `Knows` says of it, and in namespaces otherwise. -/
inductive Situated (g : TypeGraph) (R : Reading σ) (P : BasicType → Prop)
    (Knows : TypeStore σ → TypeObject → Prop) (s : TypeStore σ) (ti : TypeIndex) :
    DeclContext → String → Prop
  | inside {r : TypeRecord} {name : Bytes} {outer : TypeObject} {tag : TagDecl} {n : Nat} :
    g.stream.type? ti = some r → r.tagName? = some name → g.nesting.find? ti = some outer.index →
    g.HasSize P outer.index n → Knows s outer → s.Enters outer tag →
    Situated g R P Knows s ti (.tag tag) (g.innerName name r.uniqueName?)
  | outside {r : TypeRecord} {name : Bytes} {c : DeclContext} : g.stream.type? ti = some r →
    r.tagName? = some name → (∀ p, g.nesting.find? ti = some p → ∀ n, ¬ g.HasSize P p n) →
    R.Path s.system c (g.outerPlace ti name r.uniqueName?).1 →
    Situated g R P Knows s ti c (g.outerPlace ti name r.uniqueName?).2

/-- Something to know of types. -/
structure Knowledge (g : TypeGraph) (R : Reading σ) (P : BasicType → Prop) where
  Knows : TypeStore σ → TypeObject → Prop
  develops {s s' : TypeStore σ} {t : TypeObject} : s.Develops s' → Knows s t → Knows s' t
  complete {s : TypeStore σ} {t : TypeObject} : Knows s t → Knows s { t with state := .full }
  plain {s : TypeStore σ} {t : TypeObject} :
    g.Plain (fun p e => e.index = g.target p) t.index t → Knows s t
  tag {s : TypeStore σ} {t : TypeObject} {r : TypeRecord} {d : Declaration} {tag : TagDecl} :
    g.stream.type? t.index = some r → r.isTag → t.element? = none → s.Enters t tag →
    R.Declares s.system tag d → d.name = t.name → d.kind? = g.recordKind? t.index →
    g.Situated R P Knows s t.index d.context d.name → Knows s t

theorem Situated.mono [FreshTags σ] {g : TypeGraph} {R : Reading σ} {P : BasicType → Prop}
    {K : g.Knowledge R P} {s s' : TypeStore σ} {ti : TypeIndex} {c : DeclContext} {name : String}
    (h : g.Situated R P K.Knows s ti c name) (hs : s.Develops s') :
    g.Situated R P K.Knows s' ti c name := by
  cases h with
  | inside ht hname hp hsize hknows henters =>
    exact .inside ht hname hp hsize (K.develops hs hknows) (henters.mono hs)
  | outside ht hname hnone hpath =>
    exact .outside ht hname hnone (R.path_follows hs.follows hpath)

end

section
open Creation
variable {σ : Type} [TypeSystem σ] {g : TypeGraph} {R : Reading σ} {s : TypeStore σ}
  {under under' : List TypeIndex} {ti p : TypeIndex} {c : DeclContext} {path : List String}
  {averts : Halt → Prop}

/-- What is under way when a type is asked for has led to it. -/
theorem Asks.leads (h : g.Asks under ti under' p)
    (hunder : ∀ u ∈ under, Relation.TransGen g.Refers u ti) :
    ∀ u ∈ under', Relation.TransGen g.Refers u p := by
  cases h with
  | own hp =>
    refine List.forall_mem_cons.2 ⟨.single hp, fun u hu => (hunder u hu).tail hp⟩
  | target htarget hp =>
    refine List.forall_mem_cons.2 ⟨.single hp, List.forall_mem_cons.2 ⟨?_, fun u hu => ?_⟩⟩
    · exact .tail (.single (.definition htarget)) hp
    · exact ((hunder u hu).tail (.definition htarget)).tail hp

theorem wp_namespaces {I : TypeStore σ → Prop} (hI : Steady I) (hs : I s)
    (hpath : R.Path s.system c path) (names : List String) :
    wp averts (namespaces c names)
      (fun r s' => I s' ∧ ∃ c', r = some c' ∧ R.Path s'.system c' (path ++ names)) s := by
  induction names generalizing c path s with
  | nil => exact (wp_pure _).2 ⟨hs, c, rfl, (List.append_nil path).symm ▸ hpath⟩
  | cons name names ih =>
    rw [namespaces, wp_bind, wp_ask]
    refine wp_mono (ih (hI.namespaceIn name c hs) (R.path_namespaceIn name hpath)) ?_
    rintro _ s' ⟨hs', c', rfl, hpath'⟩
    rw [List.append_assoc] at hpath'
    exact ⟨hs', c', rfl, hpath'⟩

theorem wp_namespaceContext {I : TypeStore σ → Prop} (hI : Steady I) (hs : I s)
    (scopes : List String) (isTemplate : Bool) (name whole : String) :
    wp averts (namespaceContext scopes isTemplate name whole) (fun r s' => I s'
      ∧ ∃ c, r = some (c, (namespacePlace scopes isTemplate name whole).2)
        ∧ R.Path s'.system c (namespacePlace scopes isTemplate name whole).1) s := by
  rw [namespaceContext]
  split
  · next htemplate =>
    rw [htemplate]
    exact (wp_pure _).2 ⟨hs, _, rfl, R.path_unit _⟩
  · next htemplate =>
    rw [Bool.eq_false_iff.2 htemplate]
    refine (wp_bind _ _).2 (wp_mono (wp_namespaces hI hs (R.path_unit _) scopes) ?_)
    rintro _ s' ⟨hs', c, rfl, hpath⟩
    exact (wp_pure _).2 ⟨hs', c, rfl, hpath⟩

end

namespace Knowledge
open Creation
variable {σ : Type} [TypeSystem σ] {g : TypeGraph} {R : Reading σ} {P : BasicType → Prop}
  {K : g.Knowledge R P} {s₀ s s' s'' : TypeStore σ} {t : TypeObject} {tag : TagDecl} {m : σ}

/-- What is known of a type that is kept. -/
structure Known (K : g.Knowledge R P) (s : TypeStore σ) (t : TypeObject) : Prop where
  knows : K.Knows s t
  enters {r : TypeRecord} : g.stream.type? t.index = some r → r.isTag → ∃ tag, s.Enters t tag

theorem Known.mono [FreshTags σ] (h : K.Known s t) (hs : s.Develops s') : K.Known s' t where
  knows := K.develops hs h.knows
  enters hr htag := by
    obtain ⟨tag, htag⟩ := h.enters hr htag
    exact ⟨tag, htag.mono hs⟩

/-- All types are known, and all entries are those of tag types. -/
structure Informed (K : g.Knowledge R P) (s : TypeStore σ) : Prop where
  object {id : TypeId} {t : TypeObject} : s.object? id = some t → K.Known s t
  entry {tag : TagDecl} {e : DeclStatus} : s.declarations.find? tag = some e →
    ∃ r, g.stream.type? e.index = some r ∧ r.isTag

/-- A store in which all types are known comes from another one. -/
structure Furthers (K : g.Knowledge R P) (s₀ s : TypeStore σ) : Prop extends Develops s₀ s where
  informed : K.Informed s

namespace Furthers

theorem refl (h : K.Informed s) : K.Furthers s s := ⟨.refl s, h⟩

theorem trans (h : K.Furthers s₀ s) (h' : K.Furthers s s') : K.Furthers s₀ s' :=
  ⟨h.toDevelops.trans h'.toDevelops, h'.informed⟩

/-- The rest of the store does not matter. -/
theorem of_follows [FreshTags σ] (h : K.Furthers s₀ s) (hs : Follows s.system s'.system)
    (hentries : s'.declarations = s.declarations) (hobjects : s'.objects = s.objects) :
    K.Furthers s₀ s' := by
  have hdevelops : s.Develops s' := .of_follows hs hobjects hentries
  refine ⟨h.toDevelops.trans hdevelops, fun {id t} ht => ?_, fun {tag e} he => ?_⟩
  · rw [object?, hobjects] at ht
    exact (h.informed.object ht).mono hdevelops
  · exact h.informed.entry (hentries ▸ he)

end Furthers

/-! ### Keeping a type -/

/-- A type that has been made, and is known as soon as it is kept. -/
inductive Ripe (K : g.Knowledge R P) (s : TypeStore σ) (t : TypeObject) : Prop
  | full : t.state = .full → K.Known s t → Ripe K s t
  | forward {r : TypeRecord} {tag : TagDecl} : t.state = .forward → g.stream.type? t.index = some r →
    r.isTag → tagOf? s.system t.handle = some tag → s.declarations.find? tag = none →
    K.Known { s with declarations := s.declarations.insert tag ⟨t.index, .forward⟩ } t → Ripe K s t

section
variable [FreshTags σ] {averts : Halt → Prop}

theorem wp_store (hs : K.Furthers s₀ s) (ht : K.Ripe s t) :
    wp averts (store t) (fun _ s' => K.Furthers s₀ s') s := by
  -- of the types in the new store, one is new
  have hinformed {ds : Table TagDecl DeclStatus} {id : TypeId} {u : TypeObject}
      (hdevelops : s.Develops { s.add t with declarations := ds })
      (hknown : K.Known { s with declarations := ds } t)
      (hu : (s.add t).object? id = some u) : K.Known { s.add t with declarations := ds } u := by
    rw [object?_add] at hu
    split at hu
    · exact Option.some.inj hu ▸ hknown.mono (.add { s with declarations := ds } t)
    · exact (hs.informed.object hu).mono hdevelops
  refine wp_store_of (fun hnone => ?_) fun tag hforward htag => ?_
  · cases ht with
    | full _ hknown =>
      have hdevelops : s.Develops (s.add t) := .add s t
      exact ⟨hs.toDevelops.trans hdevelops, hinformed hdevelops hknown, hs.informed.entry⟩
    | forward hstate _ _ htag _ _ => exact nomatch (hnone hstate).symm.trans htag
  · cases ht with
    | full hstate _ => exact nomatch hforward.symm.trans hstate
    | @forward r tag' _ hr hisTag htag' hnew hknown =>
      obtain rfl := Option.some.inj (htag.symm.trans htag')
      have hdevelops : s.Develops { s.add t with
          declarations := s.declarations.insert tag ⟨t.index, .forward⟩ } :=
        (Develops.add s t).trans (.enter hnew)
      refine ⟨hs.toDevelops.trans hdevelops, hinformed hdevelops hknown, fun {k e} he => ?_⟩
      rw [show Table.find? _ k = _ from Table.find?_insert ..] at he
      split at he
      · exact Option.some.inj he ▸ ⟨r, hr, hisTag⟩
      · exact hs.informed.entry he

/-- A tag type and its entry become complete together. -/
theorem Furthers.resolve {ti : TypeIndex} {id : TypeId} {state : ResolveState}
    (h : K.Furthers s₀ s) (hid : s.cached? ti = some id)
    (hentry : s.declarations.find? tag = some ⟨ti, state⟩) : K.Furthers s₀ (s.resolve tag ti) := by
  have hdevelops : s.Develops (s.resolve tag ti) := by
    refine ⟨.refl, fun {id' t} ht => ?_, fun {k e} he => ?_⟩
    · rw [object?_resolve tag hid, ht]
      split
      · exact ⟨.full, rfl⟩
      · exact ⟨t.state, rfl⟩
    · rw [find?_resolve]
      split
      · next hk =>
        obtain rfl := Option.some.inj (hentry.symm.trans (hk ▸ he))
        exact ⟨_, rfl, rfl⟩
      · exact ⟨e, he, rfl⟩
  refine ⟨h.toDevelops.trans hdevelops, fun {id' t} ht => ?_, fun {k e} he => ?_⟩
  · rw [object?_resolve tag hid] at ht
    split at ht
    · obtain ⟨u, hu, rfl⟩ := Option.map_eq_some_iff.1 ht
      have hknown := (h.informed.object hu).mono hdevelops
      refine ⟨K.complete hknown.knows, fun hr htag => ?_⟩
      obtain ⟨tag', htag'⟩ := hknown.enters hr htag
      exact ⟨tag', htag'.tagOf, htag'.entry⟩
    · exact (h.informed.object ht).mono hdevelops
  · rw [find?_resolve] at he
    split at he
    · obtain rfl := Option.some.inj he
      exact h.informed.entry (e := ⟨ti, state⟩) hentry
    · exact h.informed.entry he

end

/-! ### Making types -/

section
variable [FreshTags σ] {origin : σ} {under under' : List TypeIndex} {ti p : TypeIndex}
  {want : TypeIndex → Creation σ TypeObject} {K : g.Knowledge R (MustHave origin)}

/-- What making types does to a store in which all types are known. -/
structure Progress (K : g.Knowledge R (MustHave origin)) (under : List TypeIndex)
    (s₀ s : TypeStore σ) : Prop
    extends Reaches g origin under [] s₀ s, Furthers K s₀ s

namespace Progress

theorem refl (hs : Sound g origin [] s) (hinformed : K.Informed s) : K.Progress under s s :=
  ⟨.refl hs, .refl hinformed⟩

theorem trans (h : K.Progress under s₀ s) (h' : K.Progress under s s') : K.Progress under s₀ s' :=
  ⟨h.toReaches.trans h'.toReaches, h.toFurthers.trans h'.toFurthers⟩

theorem quiet (h : K.Progress under s₀ s) (hq : FreshTags.Quiet s.system m) :
    K.Progress under s₀ { s with system := m } :=
  ⟨h.toReaches.trans ⟨⟨id, id, rfl, rfl⟩, fun _ => rfl, h.sound.with_system hq⟩,
    h.toFurthers.of_follows hq.follows rfl rfl⟩

theorem steady : Creation.Steady (K.Progress under s₀) where
  namespaceIn name c h := h.quiet (FreshTags.quiet_namespaceIn _ name c)
  basic? b h := h.quiet (FreshTags.quiet_basic? _ b)
  derive t h := h.quiet (FreshTags.quiet_derive _ t)

end Progress

/-- Asking for the type at `p` finds one exactly if there is one, and it is known. -/
def WantsKnown (K : g.Knowledge R (MustHave origin)) (under : List TypeIndex)
    (want : TypeIndex → Creation σ TypeObject) (p : TypeIndex) : Prop :=
  ∀ s, Sound g origin [] s → s.underway = under → K.Informed s →
    wp g.stream.MakingAverts (want p) (fun r s' => K.Progress under s s' ∧ Found g origin under p r
      ∧ ∀ t, r = some t → K.Known s' t) s

variable (hunder : s₀.underway = under)
include hunder

theorem WantsKnown.wp_want (hw : K.WantsKnown under want p) (hs : K.Progress under s₀ s) :
    wp g.stream.MakingAverts (want p) (fun r s' => K.Progress under s s' ∧ Found g origin under p r
      ∧ ∀ t, r = some t → K.Known s' t) s :=
  hw s hs.sound (hs.underway.trans hunder) hs.informed

theorem WantsKnown.keeps (hw : K.WantsKnown under want p) :
    Keeps g.stream.MakingAverts (K.Progress under s₀) (want p) fun t => t.index = g.target p := by
  refine fun s hs => wp_mono (hw.wp_want hunder hs) fun r s' hr => ⟨hs.trans hr.1, ?_⟩
  rintro t rfl
  exact hr.2.1.1

/-- The tag type at `p` can be made, if at all. -/
theorem wp_tagContext (hfixed : BasicsFixed origin) (hp : g.IsTag p) (hclear : g.Clear under p)
    (hw : K.WantsKnown under want p) (hs : K.Progress under s₀ s) :
    wp g.stream.MakingAverts (tagContext want p) (fun r s' => K.Progress under s₀ s' ∧ match r with
      | some c => ∃ t n tag, t.index = p ∧ g.HasSize (MustHave origin) p n ∧ K.Knows s' t
        ∧ s'.Enters t tag ∧ c = .tag tag
      | none => ∀ n, ¬ g.HasSize (MustHave origin) p n) s := by
  refine (wp_bind _ _).2 (wp_mono (hw.wp_want hunder hs) fun r s' hr => ?_)
  obtain ⟨hprogress, hfound, hknown⟩ := hr
  cases r with
  | none => exact ⟨hs.trans hprogress, fun n hn => hfound n hn hclear⟩
  | some t =>
    obtain ⟨hindex, hsize⟩ := hfound
    rw [hp.target] at hindex
    obtain ⟨r, hr, htag⟩ := hp.record
    obtain ⟨tag, henters⟩ := (hknown t rfl).enters (hindex ▸ hr) htag
    simp only [tagOf, wp_bind, wp_look, wp_ofOption, henters.tagOf, wp_pure]
    exact ⟨hs.trans hprogress, t, t.size, tag, hindex,
      hsize.mono fun b hb => hb.mustHave hfixed, (hknown t rfl).knows, henters, rfl⟩

section
variable (hfixed : BasicsFixed origin) (hclear : ∀ p, g.nesting.find? ti = some p → g.Clear under p)
  (hw : ∀ p, g.Refers ti p → K.WantsKnown under want p)
include hfixed hclear hw

omit hunder hfixed hclear hw in
theorem wp_outside {averts : Halt → Prop} {r : TypeRecord} {name : Bytes} {scopes : List String}
    {isTemplate : Bool} {inner whole : String} (ht : g.stream.type? ti = some r)
    (hname : r.tagName? = some name) (hs : K.Progress under s₀ s)
    (hnone : ∀ p, g.nesting.find? ti = some p → ∀ n, ¬ g.HasSize (MustHave origin) p n)
    (hplace : g.outerPlace ti name r.uniqueName? = namespacePlace scopes isTemplate inner whole) :
    wp averts (namespaceContext scopes isTemplate inner whole) (fun a s' => K.Progress under s₀ s'
      ∧ ∃ c n, a = some (c, n) ∧ g.Situated R (MustHave origin) K.Knows s' ti c n) s := by
  refine wp_mono (wp_namespaceContext (R := R) Progress.steady hs scopes isTemplate inner whole) ?_
  rintro _ s' ⟨hs', c, rfl, hpath⟩
  rw [← hplace] at hpath ⊢
  exact ⟨hs', c, _, rfl, .outside ht hname hnone hpath⟩

/-- Where a tag type is declared does not depend on what has been made before. -/
theorem wp_declaration {r : TypeRecord} {name : Bytes} (ht : g.stream.type? ti = some r)
    (hname : r.tagName? = some name) (hs : K.Progress under s₀ s) :
    wp g.stream.MakingAverts (g.declaration want ti name r.uniqueName?)
      (fun a s' => K.Progress under s₀ s'
        ∧ ∃ c n, a = some (c, n) ∧ g.Situated R (MustHave origin) K.Knows s' ti c n) s := by
  have hcontext {p : TypeIndex} (hp : g.nesting.find? ti = some p) :=
    wp_tagContext hunder hfixed (isTag_of_parent hp) (hclear p hp) (hw p (.parent hp)) hs
  have halone (hp : g.nesting.find? ti = none) (p : TypeIndex)
      (hp' : g.nesting.find? ti = some p) (n : Nat) : ¬ g.HasSize (MustHave origin) p n := by
    rw [hp] at hp'
    cases hp'
  rw [declaration]
  cases hu : r.uniqueName?.bind (UniqueName.parse? g.demangler) with
  | some u =>
    have hinner : g.innerName name r.uniqueName? = Text.lossy u.identifier.text := by
      rw [innerName, hu]
    simp only [decoratedDeclaration]
    cases hp : g.nesting.find? ti with
    | none =>
      refine wp_outside ht hname hs (halone hp) ?_
      rw [outerPlace, hu, hp, hinner]
      rfl
    | some p =>
      simp only [wp_bind, wp_attempt]
      refine wp_mono (hcontext hp) fun parent? s' hr => ?_
      refine (wp_pure _).2 ⟨hr.1, _, _, rfl, ?_⟩
      cases parent? with
      | some c =>
        obtain ⟨t, n, tag, rfl, hsize, hknows, henters, rfl⟩ := hr.2
        exact hinner ▸ .inside ht hname hp hsize hknows henters
      | none =>
        have hplace : g.outerPlace ti name r.uniqueName?
            = ([], Text.lossy u.identifier.text) := by
          rw [outerPlace, hu, hp, hinner]
          rfl
        have hpath : R.Path s'.system .translationUnit (g.outerPlace ti name r.uniqueName?).1 := by
          rw [hplace]
          exact R.path_unit _
        have houtside : g.Situated R (MustHave origin) K.Knows s' ti .translationUnit
            (g.outerPlace ti name r.uniqueName?).2 :=
          .outside ht hname (fun p' hp' => Option.some.inj (hp.symm.trans hp') ▸ hr.2) hpath
        rwa [hplace] at houtside
  | none =>
    have hinner : g.innerName name r.uniqueName?
        = String.ofList (QualifiedName.identifier (Text.lossy name).toList) := by
      rw [innerName, hu]
    let scopes := (QualifiedName.scopes (Text.lossy name).toList).map String.ofList
    have hplace : g.outerPlace ti name r.uniqueName? = namespacePlace scopes
        (scopes.any (·.contains '<')) (String.ofList (QualifiedName.identifier (Text.lossy name).toList))
        (Text.lossy name) := by
      rw [outerPlace, hu, hinner]
    simp only [plainDeclaration, wp_bind, wp_attempt, wp_ofOption]
    cases hp : g.nesting.find? ti with
    | none => exact wp_outside ht hname hs (halone hp) hplace
    | some p =>
      refine wp_mono (hcontext hp) fun parent? s' hr => ?_
      cases parent? with
      | some c =>
        obtain ⟨t, n, tag, rfl, hsize, hknows, henters, rfl⟩ := hr.2
        exact (wp_pure _).2 ⟨hr.1, _, _, rfl, hinner ▸ .inside ht hname hp hsize hknows henters⟩
      | none =>
        refine wp_outside ht hname hr.1 (fun p' hp' => ?_) hplace
        exact Option.some.inj (hp.symm.trans hp') ▸ hr.2

omit hunder hfixed hclear hw in
/-- A tag type that has just been declared has no entry yet. -/
theorem wp_declareTag {averts : Halt → Prop} {r : TypeRecord} {d : Declaration}
    (ht : g.stream.type? ti = some r) (htag : r.isTag) (hs : K.Progress under s₀ s)
    (hplace : g.Situated R (MustHave origin) K.Knows s ti d.context d.name)
    (hkind : d.kind? = g.recordKind? ti) (size : Nat) :
    wp averts (declareTag ti size d d.name)
      (fun a s' => K.Furthers s₀ s' ∧ ∀ t, a = some t → K.Ripe s' t) s := by
  simp only [declareTag, Creation.declare, Creation.change, wp_bind, wp_ask, wp_pure]
  obtain ⟨new, hfresh, hnew, _⟩ := FreshTags.declare_fresh s.system d
  have hdeclare : Follows s.system (declare s.system d).2 := .declare d .refl
  have hchange (h : TypeHandle) : Follows (declare s.system d).2
      (change (change (declare s.system d).2 h .start) h (.external true)) :=
    .change h _ (.change h _ .refl)
  refine ⟨hs.toFurthers.of_follows (hdeclare.trans (hchange _)) rfl rfl, fun t heq => ?_⟩
  obtain rfl := Option.some.inj heq
  have hnone : s.declarations.find? new = none := Option.eq_none_iff_forall_ne_some.2 fun e he =>
    hfresh ((hs.sound.declared new).2 (.inr (.inl (Option.isSome_iff_exists.2 ⟨e, he⟩))))
  have htagOf := FreshTags.tagOf?_of_follows (hchange (declare s.system d).1) hnew
  let s₁ : TypeStore σ := { s with
    system := change (change (declare s.system d).2 (declare s.system d).1 .start)
      (declare s.system d).1 (.external true) }
  let t : TypeObject := { finished ti d.name size (declare s.system d).1 with state := .forward }
  have hdevelops : s.Develops s₁ := .of_follows (hdeclare.trans (hchange _)) rfl rfl
  have henter : s₁.Develops { s₁ with declarations := s.declarations.insert new ⟨ti, .forward⟩ } :=
    .enter hnone
  have henters : Enters { s₁ with declarations := s.declarations.insert new ⟨ti, .forward⟩ } t new :=
    ⟨htagOf, ⟨ti, .forward⟩, (Table.find?_insert ..).trans (if_pos rfl), rfl⟩
  refine .forward rfl ht htag htagOf hnone ⟨?_, fun _ _ => ⟨new, henters⟩⟩
  exact K.tag (t := t) ht htag rfl henters
    (R.declares_follows (hchange _) (R.declares_declare d hnew)) rfl hkind
    (hplace.mono (hdevelops.trans henter))

/-- What is made from a record is known as soon as it is kept. -/
theorem wp_create (hs : K.Progress under s₀ s) :
    wp g.stream.MakingAverts (g.create want ti)
      (fun a s' => K.Furthers s₀ s' ∧ ∀ t, a = some t → K.Ripe s' t) s := by
  have hkeeps (p : TypeIndex) (hp : g.Refers ti p) := (hw p hp).keeps hunder
  refine TypeGraph.wp_create Progress.steady hs id hkeeps (fun s' hs' => ⟨hs'.toFurthers, nofun⟩)
    ?_ ?_ ?_
  · rintro s' t hs' ⟨rfl, hname, hstate, htag, helement⟩
    refine ⟨hs'.toFurthers, fun _ heq => ?_⟩
    obtain rfl := Option.some.inj heq
    refine .full hstate ⟨K.plain ⟨rfl, hname, hstate, htag, helement⟩, fun hr hisTag => ?_⟩
    exact absurd hisTag (Bool.eq_false_iff.1 (htag hr))
  · intro s' r name size kind inheritance hs' ht hname hkind
    refine (wp_bind _ _).2 (wp_mono (wp_declaration hunder hfixed hclear hw ht hname hs') ?_)
    rintro _ s₁ ⟨hs₁, c, n, rfl, hplace⟩
    let d : Declaration := .record c kind.defaultAccess n kind ti.uid inheritance
    exact wp_declareTag (d := d) ht (TypeRecord.isTag_of_tagName? hname) hs₁ hplace hkind.symm size
  · intro s' e hs' ht
    refine (wp_bind _ _).2
      (wp_mono (wp_declaration (r := .enum e) hunder hfixed hclear hw ht rfl hs') ?_)
    rintro _ s₁ ⟨hs₁, c, n, rfl, hplace⟩
    -- the context stays where it is while the underlying type is made
    refine (wp_bind _ _).2 (wp_mono ((hw e.underlying (.reference ht List.mem_cons_self)).wp_want
      hunder hs₁) fun underlying s₂ hs₂ => ?_)
    have hs₂' := hs₁.trans hs₂.1
    cases underlying with
    | none => exact ⟨hs₂'.toFurthers, nofun⟩
    | some underlying =>
      let d : Declaration := .enum c n underlying.handle e.properties.isScoped
      exact wp_declareTag (d := d) ht rfl hs₂' (hplace.mono hs₂.1.toDevelops)
        (by rw [recordKind?, ht]; rfl) underlying.size

end

end

section
variable [FreshTags σ] {origin : σ} {under : List TypeIndex} {p : TypeIndex}
  {want : TypeIndex → Creation σ TypeObject} {K : g.Knowledge R (MustHave origin)}

theorem persistent : Persistent K.Furthers where
  refl h := .refl h.informed
  trans := .trans
  of_follows h hs hobjects hentries := h.of_follows hs hentries hobjects

/-- A type that is kept is known. -/
theorem wantsKnown_of_carried (hw : g.WantsCarried origin K.Furthers under want p) :
    K.WantsKnown under want p := by
  refine fun s hs hunder hinformed => wp_mono (hw s hs hunder (.refl hinformed)) ?_
  rintro r s' ⟨hs', hfound, hobject⟩
  refine ⟨⟨hs'.toReaches, hs'.carried⟩, hfound, fun t ht => ?_⟩
  obtain ⟨id, hid⟩ := hobject t ht
  exact hs'.carried.informed.object hid

theorem Ripe.mark (h : K.Ripe s t) (underway : List TypeIndex) : K.Ripe { s with underway } t := by
  cases h with
  | full hstate hknown => exact .full hstate (hknown.mono (.of_follows .refl rfl rfl))
  | forward hstate hr htag htagOf hnew hknown =>
    exact .forward hstate hr htag htagOf hnew (hknown.mono (.of_follows .refl rfl rfl))

section
variable (hfixed : BasicsFixed origin) (henums : g.stream.EnumsSimple)
include hfixed henums

/-- All types are known, and stay so. What is asked for has been led to by what is under way. -/
theorem carried_furthers : Carried g origin
    (fun under ti => ∀ u ∈ under, Relation.TransGen g.Refers u ti) K.Ripe K.Furthers where
  toPersistent := persistent
  start _ := nofun
  asks hleads hp := hp.leads hleads
  create hleads hbegins hunder hs h hw := by
    -- the record around a nested one is not under way, or it would have led to itself
    refine wp_create hunder hfixed (fun p hp => ?_) (fun p hp => wantsKnown_of_carried (hw p hp))
      (.refl hs h.informed)
    exact (isTag_of_parent hp).clear henums ((hbegins.asks (.parent hp)).leads hleads)
  ready_mark underway ht := ht.mark underway
  store hs ht := wp_store hs ht
  resolve h hid hentry := h.resolve hid hentry

/-! ### Requests -/

theorem keeps_get (hunder : s₀.underway = []) (ti : TypeIndex) :
    Keeps g.stream.MakingAverts (K.Progress [] s₀) (g.get ti) fun _ => True := by
  intro s hs
  refine wp_mono ((carried_furthers (K := K) hfixed henums).keeps_get hunder ti s
    ⟨hs.toReaches, hs.toFurthers⟩) fun r s' hr => ?_
  exact ⟨⟨hr.1.toReaches, hr.1.carried⟩, hr.2⟩

end

end

end Knowledge
end TypeGraph

namespace SymbolFile
open TypeGraph TypeSystem
variable {σ : Type} [TypeSystem σ] [FreshTags σ] {g : TypeGraph} {R : Reading σ} {origin : σ}
  {K : g.Knowledge R (MustHave origin)} {f f' : SymbolFile σ} {q : TypeRequest}
  {qs : List TypeRequest} {ti : TypeIndex}

omit [TypeSystem σ] [FreshTags σ] in
theorem exists_ofDatabase? (demangler : Demangler) {database : Database}
    (hends : database.types.ChainsEnd) (system : σ) :
    ∃ f₀, ofDatabase? demangler database system = some f₀ := by
  have hsome : database.types.nesting?.isSome :=
    TypeStream.isSome_nesting?_iff.2 fun _ _ _ list _ => hends list
  rw [ofDatabase?]
  split
  · next hnone => exact absurd hsome (Option.not_isSome_iff_eq_none.2 hnone)
  · exact ⟨_, rfl⟩

theorem stream_ofNesting (demangler : Demangler) (database : Database) {nesting : Nesting}
    (h : database.types.nesting? = some nesting) :
    (⟨demangler, database.types, nesting, h⟩ : TypeGraph).stream = database.types := rfl

/-- The symbol file of a database with a given table of nested records. -/
def ofNesting (demangler : Demangler) (database : Database) {nesting : Nesting}
    (h : database.types.nesting? = some nesting) (system : σ) : SymbolFile σ where
  database
  graph := ⟨demangler, database.types, nesting, h⟩
  store := { system }
  graph_eq := stream_ofNesting demangler database h

omit [TypeSystem σ] [FreshTags σ] in
theorem ofDatabase?_eq_some {demangler : Demangler} {database : Database} {nesting : Nesting} {system : σ}
    (h : database.types.nesting? = some nesting) :
    ofDatabase? demangler database system = some (ofNesting demangler database h system) := by
  rw [ofDatabase?]
  split
  · next hnone => cases h.symm.trans hnone
  · next _ hsome =>
    obtain rfl := Option.some.inj (h.symm.trans hsome)
    rfl

/-- The symbol file is sound, and all types in it are known. -/
structure Informed (K : g.Knowledge R (MustHave origin)) (f : SymbolFile σ) : Prop
    extends Sound origin f where
  graph : f.graph = g
  informed : K.Informed f.store

theorem informed_of_ofDatabase? {demangler : Demangler} {database : Database}
    (h : ofDatabase? demangler database origin = some f)
    (K : f.graph.Knowledge R (MustHave origin)) : Informed K f where
  toSound := sound_of_ofDatabase? h
  graph := rfl
  informed := by
    rw [store_of_ofDatabase? h]
    exact ⟨nofun, nofun⟩

namespace Informed
variable (hfixed : BasicsFixed origin) (henums : g.stream.EnumsSimple) (hf : Informed K f)
include hfixed henums hf

/-- One request leaves all types known. -/
theorem perform? (h : f.perform? q = some f') : f.store.Develops f'.store ∧ Informed K f' := by
  obtain ⟨hlater, hsound⟩ := hf.toSound.perform? h
  obtain rfl := hf.graph
  have hdone : K.Furthers f.store f'.store :=
    hf.toSound.carried (Knowledge.carried_furthers hfixed henums) (.refl hf.informed) h
  exact ⟨hdone.toDevelops, hsound, hlater.graph, hdone.informed⟩

/-- Any number of requests leave all types known. -/
theorem performAll? (h : f.performAll? qs = some f') :
    f.store.Develops f'.store ∧ Informed K f' := by
  refine performAll?_induction (I := fun f' => f.store.Develops f'.store ∧ Informed K f')
    (fun f₁ q f₂ h₁ hq => ?_) ⟨.refl _, hf⟩ h
  obtain ⟨hdevelops, hf₁⟩ := h₁
  obtain ⟨hdevelops', hf₂⟩ := hf₁.perform? hfixed henums hq
  exact ⟨hdevelops.trans hdevelops', hf₂⟩

theorem typeOf {r : Option TypeId} (h : f.typeOf ti false = some (r, f')) :
    f.store.Develops f'.store ∧ Informed K f' := by
  refine hf.perform? (q := .typeOf ti false) hfixed henums ?_
  rw [SymbolFile.perform?, h, Option.map_some]

/-- What is known of a type that has been asked for. -/
theorem exists_object {id : TypeId} (h : f.typeOf ti false = some (some id, f')) :
    ∃ t, f'.object? id = some t ∧ t.index = g.target ti ∧ g.HasSize (MayHave origin) ti t.size
      ∧ K.Known f'.store t := by
  obtain ⟨_, hf'⟩ := hf.typeOf hfixed henums h
  obtain ⟨_, _, hgot⟩ := hf.toSound.typeOf h
  obtain ⟨t, ht, htarget⟩ := hf'.store.cached hgot
  have hsize := hf'.store.hasSize hgot ht
  rw [hf'.graph] at htarget hsize
  exact ⟨t, ht, htarget, hsize, hf'.informed.object ht⟩

end Informed
end SymbolFile
end Pdb
