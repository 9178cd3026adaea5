import Pdb.Proofs.Knowledge

/-! # What tag types are declared in

A tag type is declared in that of the record around it if that one can be made, however it has been
come to and in whichever order the two have been asked for: this is known of a tag type when it is
declared (`enclosure`). Contexts are declared before what is in them, so going outwards from any tag
type ends at the translation unit. In `TypeModel` no namespace is made twice: `declared_inside`.
-/

namespace Pdb

namespace TypeGraph
open TypeStore TypeSystem
variable {σ : Type} [TypeSystem σ] {g : TypeGraph} {R : Reading σ} {P : BasicType → Prop}
  {s s' : TypeStore σ} {t : TypeObject} {ti : TypeIndex} {c : DeclContext} {name : String}

/-- The tag type of the record around the one at `ti` is the context `c`, if that one can be made. -/
def Around (g : TypeGraph) (P : BasicType → Prop) (s : TypeStore σ) (ti : TypeIndex)
    (c : DeclContext) : Prop :=
  ∀ p n, g.nesting.find? ti = some p → g.HasSize P p n →
    ∃ outer tag, outer.index = p ∧ s.Enters outer tag ∧ c = .tag tag

/-- The tag type of a record is declared in a context that has a path, and in the tag type of the
record around it if there is one. -/
def Enclosed (g : TypeGraph) (R : Reading σ) (P : BasicType → Prop) (s : TypeStore σ)
    (t : TypeObject) : Prop :=
  ∀ r, g.stream.type? t.index = some r → r.isTag → ∃ tag d path, s.Enters t tag
    ∧ R.Declares s.system tag d ∧ R.Path s.system d.context path ∧ g.Around P s t.index d.context

theorem Situated.exists_path (h : g.Situated R P (g.Enclosed R P) s ti c name) :
    ∃ path, R.Path s.system c path := by
  cases h with
  | @inside _ _ outer tag _ _ _ hp _ houter henters =>
    obtain ⟨r, hr, htag⟩ := (isTag_of_parent hp).record
    obtain ⟨tag', d, path, henters', hdeclares, hpath, _⟩ := houter r hr htag
    obtain rfl := Option.some.inj (henters.tagOf.symm.trans henters'.tagOf)
    exact ⟨_, R.path_tag hdeclares hpath⟩
  | outside _ _ _ hpath => exact ⟨_, hpath⟩

theorem Situated.around {Knows : TypeStore σ → TypeObject → Prop}
    (h : g.Situated R P Knows s ti c name) : g.Around P s ti c := by
  intro p n hp hsize
  cases h with
  | inside _ _ hp' _ _ henters => exact ⟨_, _, Option.some.inj (hp'.symm.trans hp), henters, rfl⟩
  | outside _ _ hnone _ => exact absurd hsize (hnone p hp n)

theorem Around.mono [FreshTags σ] (h : g.Around P s ti c) (hs : s.Develops s') :
    g.Around P s' ti c := by
  intro p n hp hsize
  obtain ⟨outer, tag, hindex, henters, hc⟩ := h p n hp hsize
  exact ⟨outer, tag, hindex, henters.mono hs, hc⟩

/-- Where a tag type is declared is known when it has been made. -/
def enclosure [FreshTags σ] (g : TypeGraph) (R : Reading σ) (P : BasicType → Prop) :
    g.Knowledge R P where
  Knows := g.Enclosed R P
  develops hs h r hr htag := by
    obtain ⟨tag, d, path, henters, hdeclares, hpath, haround⟩ := h r hr htag
    exact ⟨tag, d, path, henters.mono hs, R.declares_follows hs.follows hdeclares,
      R.path_follows hs.follows hpath, haround.mono hs⟩
  complete h r hr htag := by
    obtain ⟨tag, d, path, henters, hrest⟩ := h r hr htag
    exact ⟨tag, d, path, ⟨henters.tagOf, henters.entry⟩, hrest⟩
  plain h r hr htag := absurd htag (Bool.eq_false_iff.1 (h.isTag hr))
  tag _ _ _ henters hdeclares _ _ hsituated _ _ _ := by
    obtain ⟨path, hpath⟩ := hsituated.exists_path
    exact ⟨_, _, path, henters, hdeclares, hpath, hsituated.around⟩

end TypeGraph

/-! ### Contexts of a model -/

namespace TypeModel
variable {m m' : TypeModel} {c : DeclContext} {path : List String} {i j : Nat}
  {x : String × DeclContext}

/-- What a context is in. -/
def around? (m : TypeModel) : DeclContext → Option DeclContext
  | .translationUnit => none
  | .namespace_ n => m.namespaces[n]?.map (·.2)
  | .tag d => m.tags[d]?.map (·.decl.context)

/-- The context that is `k` steps further out. -/
def outward? (m : TypeModel) : (k : Nat) → DeclContext → Option DeclContext
  | 0, c => some c
  | k + 1, c => (m.around? c).bind (m.outward? k)

theorem HasPath.outward? (h : m.HasPath c path) :
    m.outward? path.length c = some .translationUnit := by
  induction h with
  | unit => rfl
  | namespace_ hn _ ih =>
    rw [List.length_append, List.length_singleton, TypeModel.outward?, around?, hn]
    exact ih
  | tag ht _ ih =>
    rw [List.length_append, List.length_singleton, TypeModel.outward?, around?, ht]
    exact ih

theorem namespaces_change (m : TypeModel) (type : TypeHandle) (c : TagChange) :
    (m.change type c).namespaces = m.namespaces := by
  rw [change]
  split <;> rfl

/-- A namespace is new only if there is none with its name and its parent. -/
theorem namespaces_inj (h : TypeSystem.Follows m m') (hi : m'.namespaces[i]? = some x)
    (hj : m'.namespaces[j]? = some x) (hnew : m.namespaces.size ≤ j) : i = j := by
  induction h with
  | refl => exact absurd (Array.getElem?_eq_some_iff.1 hj).1 (Nat.not_lt_of_ge hnew)
  | basic? _ _ ih => exact ih hi hj
  | derive _ _ ih => exact ih hi hj
  | declare _ _ ih => exact ih hi hj
  | @change s type c _ ih =>
    have hsame : (TypeSystem.change s type c).namespaces = s.namespaces := namespaces_change s type c
    exact ih (hsame ▸ hi) (hsame ▸ hj)
  | @namespaceIn s name c _ ih =>
    have heq : (TypeSystem.namespaceIn s name c).2 = (s.namespaceIn name c).2 := rfl
    rw [heq, namespaceIn] at hi hj
    cases hfind : s.namespaces.findIdx? (· = (name, c)) with
    | some k =>
      rw [hfind] at hi hj
      exact ih hi hj
    | none =>
      have hnone (k : Nat) : s.namespaces[k]? ≠ some (name, c) := by
        intro hk
        obtain ⟨hlt, hget⟩ := Array.getElem?_eq_some_iff.1 hk
        have hne := Array.findIdx?_eq_none_iff.1 hfind _ (Array.getElem_mem hlt)
        exact absurd hget (by simpa using hne)
      rw [hfind] at hi hj
      simp only [Array.getElem?_push] at hi hj
      split at hi <;> split at hj
      · next hi' hj' => rw [hi', hj']
      · exact absurd (Option.some.inj hi ▸ hj) (hnone j)
      · exact absurd (Option.some.inj hj ▸ hi) (hnone i)
      · exact ih hi hj

end TypeModel

namespace SymbolFile
open TypeGraph TypeSystem
variable {σ : Type} [TypeSystem σ] [FreshTags σ] {g : TypeGraph} {R : Reading σ} {origin : σ}
  {f f' : SymbolFile σ} {tag : TagDecl}

/-- A tag type that has been declared for the record at `ti` since the type system was in the state
`system` is declared in `c`: this is the tag type of the record around it, if asking for that one
finds a type. -/
structure InsideOf (system : σ) (f : SymbolFile σ) (ti : TypeIndex) (tag : TagDecl)
    (c : DeclContext) : Prop where
  made : MadeFor system f ti tag
  /-- The record is a definition, unless it is a reference that has none. -/
  target : f.graph.target ti = ti
  around {p : TypeIndex} {id : TypeId} {f' : SymbolFile σ} :
    f.graph.nesting.find? ti = some p → f.typeOf p false = some (some id, f') →
      ∃ t tag', f'.object? id = some t ∧ tagOf? f'.store.system t.handle = some tag'
        ∧ c = .tag tag'

/-- Any declaration since the file was opened. -/
theorem Informed.exists_insideOf (hfixed : BasicsFixed origin)
    (henums : g.stream.EnumsSimple) (hf : Informed (g.enclosure R (MustHave origin)) f)
    (hnew : FreshTags.Declared f.store.system tag) (hold : ¬ FreshTags.Declared origin tag) :
    ∃ ti d path, R.Declares f.store.system tag d ∧ R.Path f.store.system d.context path
      ∧ InsideOf origin f ti tag d.context := by
  obtain ⟨e, he⟩ := (hf.consistent.declared tag).2 ⟨hnew, hold⟩
  obtain ⟨id, t, ht, hindex, _, htagOf⟩ := hf.store.entry he
  obtain ⟨r, hr, hisTag⟩ := hf.informed.entry he
  obtain ⟨tag', d, path, henters, hdeclares, hpath, haround⟩ :=
    (hf.informed.object ht).knows r (hindex ▸ hr) hisTag
  obtain rfl := Option.some.inj (htagOf.symm.trans henters.tagOf)
  refine ⟨e.index, d, path, hdeclares, hpath, ⟨hnew, hold, e, he, rfl⟩, ?_, ?_⟩
  · obtain ⟨u, hu, htarget⟩ := hf.store.cached (hf.store.object ht)
    obtain rfl := Option.some.inj (ht.symm.trans hu)
    rw [← hindex, ← htarget]
  · intro p id' f' hp hget
    obtain rfl := hf.graph
    obtain ⟨u, hu, huindex, husize, _⟩ := hf.exists_object hfixed henums hget
    obtain ⟨hdevelops, hf'⟩ := hf.typeOf hfixed henums hget
    rw [(isTag_of_parent hp).target] at huindex
    have hsize := husize.mono fun b hb => hb.mustHave hfixed
    obtain ⟨outer, tag', rfl, houter, hc⟩ := haround p _ (hindex ▸ hp) hsize
    -- the type that has been found has the declaration of the one around
    obtain ⟨e', he', heindex⟩ := (houter.mono hdevelops).entry
    obtain ⟨id'', v, hv, hvindex, _, hvtag⟩ := hf'.store.entry he'
    obtain rfl := hf'.store.id_unique hu hv (huindex.trans (heindex.symm.trans hvindex.symm))
    obtain rfl := Option.some.inj (hu.symm.trans hv)
    exact ⟨u, tag', hu, hvtag, hc⟩

/-- Whatever is asked for, in a database in which chains of members end. -/
theorem exists_informed (demangler : Demangler) {database : Database} {system : σ} (R : Reading σ)
    (hends : database.types.ChainsEnd) (henums : database.types.EnumsSimple)
    (hfixed : BasicsFixed system)
    (K : ∀ g : TypeGraph, g.Knowledge R (MustHave system)) : ∃ f₀,
      ofDatabase? demangler database system = some f₀ ∧ f₀.graph.stream = database.types ∧ ∀ qs,
        ((f₀.performAll? qs).isSome ∨ f₀.OverflowsDuring qs)
          ∧ ∀ f, f₀.performAll? qs = some f → Informed (K f₀.graph) f := by
  obtain ⟨f₀, hopen⟩ := exists_ofDatabase? demangler hends system
  have hgraph := graph_of_ofDatabase? hopen
  refine ⟨f₀, hopen, hgraph, fun qs => ⟨isSome_performAll?_or_overflows hopen hends qs, ?_⟩⟩
  intro f hf
  exact ((informed_of_ofDatabase? hopen (K f₀.graph)).performAll? hfixed (hgraph.symm ▸ henums) hf).2

/-- A tag type is declared in that of the record around it, and going outwards from it ends at the
translation unit. A namespace that is new differs from all others. -/
theorem declared_inside (demangler : Demangler) {database : Database} (hends : database.types.ChainsEnd)
    (henums : database.types.EnumsSimple) :
    (∀ (σ : Type) [TypeSystem σ] [FreshTags σ] (R : Reading σ) (system : σ), BasicsFixed system →
      ∃ f₀, ofDatabase? demangler database system = some f₀ ∧ ∀ qs,
        ((f₀.performAll? qs).isSome ∨ f₀.OverflowsDuring qs) ∧ ∀ f, f₀.performAll? qs = some f →
          ∀ tag, FreshTags.Declared f.store.system tag → ¬ FreshTags.Declared system tag →
            ∃ ti d, R.Declares f.store.system tag d ∧ InsideOf system f ti tag d.context)
    ∧ ∀ system : TypeModel, ∃ f₀, ofDatabase? demangler database system = some f₀ ∧ ∀ qs,
      ((f₀.performAll? qs).isSome ∨ f₀.OverflowsDuring qs) ∧ ∀ f, f₀.performAll? qs = some f →
        (∀ tag u, f.store.system.tags[tag]? = some u → system.tags.size ≤ tag →
          (∃ ti, InsideOf system f ti tag u.decl.context)
            ∧ ∃ k, f.store.system.outward? k (.tag tag) = some .translationUnit)
        ∧ ∀ i j x, f.store.system.namespaces[i]? = some x →
          f.store.system.namespaces[j]? = some x → system.namespaces.size ≤ j → i = j := by
  constructor
  · intro σ _ _ R system hfixed
    obtain ⟨f₀, hopen, hgraph, hrun⟩ := exists_informed demangler R hends henums hfixed (enclosure · R _)
    refine ⟨f₀, hopen, fun qs => ⟨(hrun qs).1, fun f hf tag hnew hold => ?_⟩⟩
    obtain ⟨ti, d, _, hdeclares, _, hinside⟩ :=
      ((hrun qs).2 f hf).exists_insideOf hfixed (hgraph ▸ henums) hnew hold
    exact ⟨ti, d, hdeclares, hinside⟩
  · intro system
    have hfixed : BasicsFixed system := fun _ _ _ => rfl
    obtain ⟨f₀, hopen, hgraph, hrun⟩ := exists_informed demangler TypeModel.reading hends henums hfixed
      (enclosure · TypeModel.reading _)
    refine ⟨f₀, hopen, fun qs => ⟨(hrun qs).1, fun f hf => ?_⟩⟩
    have hinformed := (hrun qs).2 f hf
    refine ⟨fun tag u hu hsize => ?_, fun i j x hi hj hj' => ?_⟩
    · have hlt : tag < f.store.system.tags.size := (Array.getElem?_eq_some_iff.1 hu).1
      obtain ⟨ti, _, path, ⟨u', hu', rfl⟩, hpath, hinside⟩ :=
        hinformed.exists_insideOf hfixed (hgraph ▸ henums) hlt (Nat.not_lt_of_ge hsize)
      obtain rfl := Option.some.inj (hu.symm.trans hu')
      exact ⟨⟨ti, hinside⟩, _, (TypeModel.HasPath.tag hu hpath).outward?⟩
    · exact TypeModel.namespaces_inj hinformed.store.follows hi hj hj'

end SymbolFile

/-! A stream in which two definitions of one union list the same nested union -/

/-- A reference to the nested union is at `0x1000`, and its definition at `0x1002`. The definition of
the outer union at `0x1004` lists the reference, and that at `0x1006` lists the definition. -/
def relistedTypes : TypeStream :=
  let inner := Text.utf8 "S::T"
  let innerName := some (Text.utf8 ".?ATT@S@@")
  let outer := Text.utf8 "S"
  let outerName := some (Text.utf8 ".?ATS@@")
  let (reference, t) := TypeList.addUnion {} inner innerName .none 0 true
  let (empty, t) := t.addFields []
  let (definition, t) := t.addUnion inner innerName empty 1 false
  let (list, t) := t.addFields [.nested reference (Text.utf8 "T")]
  let (_, t) := t.addUnion outer outerName list 1 false
  let (list', t) := t.addFields [.nested definition (Text.utf8 "T")]
  let (_, t) := t.addUnion outer outerName list' 1 false
  match TypeStream.parse .types (.ofBytes t.encode) with
  | .ok s => s
  | .error _ => .empty .types

theorem nextList?_relistedTypes : ∀ ti ∈ relistedTypes.indexes, relistedTypes.nextList? ti = none := by
  decide +kernel

namespace SymbolFile

/-- A symbol file with these types, for which none has been asked yet. -/
def relistedFile : SymbolFile TypeModel :=
  ofNesting Decorated.demangler (.ofTypes relistedTypes)
    (Database.nesting?_ofTypes (TypeStream.nesting?_of_nextList?_eq_none nextList?_relistedTypes)) {}

/-- The nested union is asked for by a reference to it, and is declared in the second definition of
the outer one. -/
theorem declared_inside_relisted : ∃ (f f' : SymbolFile TypeModel) (id : TypeId) (t : TypeObject)
    (u : ModelTag) (tag : TagDecl),
      ofDatabase? Decorated.demangler (.ofTypes relistedTypes) {} = some relistedFile
      ∧ relistedFile.performAll? [.typeOf ⟨0x1000⟩ false] = some f
      ∧ f.store.system.tags[1]? = some u ∧ InsideOf {} f ⟨0x1002⟩ 1 u.decl.context
      ∧ f.typeOf ⟨0x1006⟩ false = some (some id, f') ∧ f'.object? id = some t
      ∧ f'.store.system.tagOf? t.handle = some tag ∧ u.decl.context = .tag tag := by
  have hends : (Database.ofTypes relistedTypes).types.ChainsEnd := by
    rw [Database.types_ofTypes]
    exact TypeStream.chainsEnd_of_nextList?_eq_none nextList?_relistedTypes
  have henums : (Database.ofTypes relistedTypes).types.EnumsSimple := by decide +kernel
  have hrun : ((relistedFile.performAll? [.typeOf ⟨0x1000⟩ false]).bind fun f =>
      (f.store.declarations.find? 1).bind fun e => f.store.system.tags[1]?.bind fun _ =>
        (f.typeOf ⟨0x1006⟩ false).bind fun p => p.1.map fun _ =>
          (e.index, f.graph.nesting.find? ⟨0x1002⟩))
        = some (⟨0x1002⟩, some ⟨0x1006⟩) := by
    decide +kernel
  obtain ⟨f, hf, hrun⟩ := Option.bind_eq_some_iff.1 hrun
  obtain ⟨e, he, hrun⟩ := Option.bind_eq_some_iff.1 hrun
  obtain ⟨u, hu, hrun⟩ := Option.bind_eq_some_iff.1 hrun
  obtain ⟨⟨r, f'⟩, hget, hrun⟩ := Option.bind_eq_some_iff.1 hrun
  obtain ⟨id, rfl, heq⟩ := Option.map_eq_some_iff.1 hrun
  obtain ⟨hindex, hnesting⟩ := Prod.mk.inj heq
  obtain ⟨f₀, hopen, hall⟩ := (declared_inside Decorated.demangler hends henums).2 {}
  have hopen' : ofDatabase? Decorated.demangler (.ofTypes relistedTypes) {} = some relistedFile :=
    ofDatabase?_eq_some _
  obtain rfl := Option.some.inj (hopen'.symm.trans hopen)
  obtain ⟨htags, _⟩ := (hall [.typeOf ⟨0x1000⟩ false]).2 f hf
  obtain ⟨⟨ti, hinside⟩, _⟩ := htags 1 u hu (Nat.zero_le 1)
  obtain ⟨_, _, e', he', rfl⟩ := hinside.made
  obtain rfl := Option.some.inj (he.symm.trans he')
  rw [hindex] at hinside
  obtain ⟨t, tag, ht, htag, hc⟩ := hinside.around hnesting hget
  exact ⟨f, f', id, t, u, tag, hopen', hf, hu, hinside, hget, ht, htag, hc⟩

end SymbolFile
end Pdb
