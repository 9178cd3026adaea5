import Pdb.Proofs.Described
import Pdb.Proofs.ForwardReference

/-! # Answers do not depend on what has been asked for before

All types in a store are described, and what is said of a type is the same for any two stores. So two
runs of any requests, with the same one at the end, come to the same answer: both to no type, or to
types that look alike. In `TypeModel` it can be seen how tag types have been declared, and that is the
same as well: `typeOf_orderFree`.
-/

namespace Pdb

/-- Two types look the same from outside. -/
structure TypeObject.Alike (t u : TypeObject) : Prop where
  uid : t.uid = u.uid
  name : t.name = u.name
  size : t.size = u.size
  /-- What they are arrays of. -/
  element : t.element? = u.element?

namespace TypeGraph
variable {σ : Type} [TypeSystem σ] {g : TypeGraph} {R : Reading σ} {P : BasicType → Prop}
  {m m' : σ} {t u : TypeObject}

theorem Described.element_eq (h : g.Described R P m t) :
    t.element? = match g.stream.type? t.index with
      | some (.array a) => some (g.target a.element)
      | _ => none := by
  cases h with
  | plain h =>
    have helement := h.element
    cases hr : g.stream.type? t.index with
    | none => rwa [hr] at helement
    | some r =>
      rw [hr] at helement
      cases r with
      | array a =>
        obtain ⟨e, he, heq⟩ := helement
        rw [heq, he]
      | _ => exact helement
  | @tag r _ hr htag _ _ helement =>
    rw [hr, helement]
    cases r <;> first | rfl | exact absurd htag Bool.false_ne_true

/-- The records alone decide on what is said of a type. -/
theorem Described.alike (ht : g.Described R P m t) (hu : g.Described R P m' u)
    (hindex : t.index = u.index) (hsize : t.size = u.size) : t.Alike u := by
  refine ⟨congrArg TypeIndex.uid hindex, ?_, hsize, by rw [ht.element_eq, hu.element_eq, hindex]⟩
  cases ht with
  | plain ht =>
    cases hu with
    | plain hu => rw [ht.name, hu.name, hindex]
    | tag hr htag => exact absurd htag (Bool.eq_false_iff.1 (ht.isTag (hindex ▸ hr)))
  | tag hr htag hplace =>
    obtain ⟨path, hplace', _⟩ := hu.exists_path (hindex ▸ hr) htag
    exact (hplace.unique (hindex ▸ hplace')).2

end TypeGraph

namespace TypeModel
variable {g : TypeGraph} {P : BasicType → Prop} {m m' : TypeModel} {t u : TypeObject}

/-- How a tag type has been declared: its name, its keyword, and the qualified name of what it is
declared in. -/
def declared? (m : TypeModel) (type : TypeHandle) : Option (String × Option RecordKind × String) :=
  (m.tag? type).map fun t => (t.decl.name, t.decl.kind?, m.contextPath t.decl.context)

theorem declared?_of_shows {type : TypeHandle} {path : List String} {name : String}
    {kind? : Option RecordKind} (h : reading.Shows m type path name kind?) :
    m.declared? type = some (name, kind?, Text.join "::" path) := by
  obtain ⟨tag, _, htag, ⟨t, ht, rfl⟩, hpath, rfl, rfl⟩ := h
  have htag' : m.tag? type = some t := by
    rw [tag?, show m.tagOf? type = some tag from htag, Option.bind_some, ht]
  rw [declared?, htag', Option.map_some, contextPath_eq hpath]

/-- If they are made from the record of a tag type they have been declared in the same way. -/
theorem declared?_eq {r : TypeRecord} (ht : g.Described reading P m t)
    (hu : g.Described reading P m' u) (hindex : t.index = u.index)
    (hr : g.stream.type? t.index = some r) (htag : r.isTag) :
    (m.declared? t.handle).isSome ∧ m.declared? t.handle = m'.declared? u.handle := by
  obtain ⟨path, hplace, hshows⟩ := ht.exists_path hr htag
  obtain ⟨path', hplace', hshows'⟩ := hu.exists_path (hindex ▸ hr) htag
  obtain ⟨rfl, hname⟩ := hplace.unique (hindex ▸ hplace')
  rw [declared?_of_shows hshows, declared?_of_shows hshows', hname, hindex]
  exact ⟨rfl, rfl⟩

end TypeModel

namespace SymbolFile
open TypeGraph TypeSystem
variable {σ : Type} [TypeSystem σ] [FreshTags σ] {R : Reading σ} {origin : σ} {g : TypeGraph}
  {f₁ f₂ : SymbolFile σ}

/-- Either no type has been found twice, or one has been found twice, and the two are related. -/
def AnswersAgree (Same : SymbolFile σ → TypeObject → SymbolFile σ → TypeObject → Prop) :
    Option TypeId × SymbolFile σ → Option TypeId × SymbolFile σ → Prop
  | (none, _), (none, _) => True
  | (some id, f), (some id', f') =>
    ∃ t u, f.object? id = some t ∧ f'.object? id' = some u ∧ Same f t f' u
  | _, _ => False

/-- Whatever has been asked for before, unless that has come to an overflow, a request for a type has an
answer, which is the same each time by what `Same` says of two types. -/
def OrderFree (demangler : Demangler) (database : Database) (system : σ)
    (Same : SymbolFile σ → TypeObject → SymbolFile σ → TypeObject → Prop) : Prop :=
  ∃ f₀, ofDatabase? demangler database system = some f₀
    ∧ (∀ qs, (f₀.performAll? qs).isSome ∨ f₀.OverflowsDuring qs)
    ∧ ∀ qs₁ qs₂ f₁ f₂ ti isItem, f₀.performAll? qs₁ = some f₁ → f₀.performAll? qs₂ = some f₂ →
      ∃ a₁ a₂, f₁.typeOf ti isItem = some a₁ ∧ f₂.typeOf ti isItem = some a₂
        ∧ AnswersAgree Same a₁ a₂

section
variable {Same : SymbolFile σ → TypeObject → SymbolFile σ → TypeObject → Prop}

theorem answersAgree_of_informed {a₁ a₂ : Option TypeId × SymbolFile σ} {isItem : Bool}
    (hfixed : BasicsFixed origin) (henums : g.stream.EnumsSimple)
    (hf₁ : Informed (g.describing R (MustHave origin)) f₁)
    (hf₂ : Informed (g.describing R (MustHave origin)) f₂) (h₁ : f₁.typeOf ti isItem = some a₁)
    (h₂ : f₂.typeOf ti isItem = some a₂)
    (hsame : ∀ f t f' u, t.index = u.index → t.Alike u →
      g.Described R (MustHave origin) f.store.system t →
      g.Described R (MustHave origin) f'.store.system u → Same f t f' u) :
    AnswersAgree Same a₁ a₂ := by
  cases isItem with
  | true => exact Option.some.inj h₁ ▸ Option.some.inj h₂ ▸ trivial
  | false =>
    obtain ⟨r₁, f₁'⟩ := a₁
    obtain ⟨r₂, f₂'⟩ := a₂
    -- whether there is a type depends on the records only
    have hsome₁ := hf₁.toSound.isSome_typeOf hfixed h₁
    have hsome₂ := hf₂.toSound.isSome_typeOf hfixed h₂
    rw [hf₁.graph] at hsome₁
    rw [hf₂.graph, ← hsome₁] at hsome₂
    cases r₁ with
    | none =>
      obtain rfl : r₂ = none := by simpa using hsome₂
      trivial
    | some id₁ =>
      obtain ⟨id₂, rfl⟩ := Option.isSome_iff_exists.1 (hsome₂.2 rfl)
      obtain ⟨t, ht, hindex, hsize, hknown⟩ := hf₁.exists_object hfixed henums h₁
      obtain ⟨u, hu, hindex', hsize', hknown'⟩ := hf₂.exists_object hfixed henums h₂
      have heq := hindex.trans hindex'.symm
      have halike := Described.alike hknown.knows hknown'.knows heq (hsize.unique hsize')
      exact ⟨t, u, ht, hu, hsame _ _ _ _ heq halike hknown.knows hknown'.knows⟩

/-- Two runs on one database. -/
theorem orderFree_of_described (demangler : Demangler) {database : Database} {system : σ}
    (R : Reading σ) (hends : database.types.ChainsEnd) (henums : database.types.EnumsSimple)
    (hfixed : BasicsFixed system)
    (hsame : ∀ (g : TypeGraph) f t f' u, g.stream = database.types → t.index = u.index → t.Alike u →
      g.Described R (MustHave system) f.store.system t →
      g.Described R (MustHave system) f'.store.system u → Same f t f' u) :
    OrderFree demangler database system Same := by
  obtain ⟨f₀, hopen⟩ := exists_ofDatabase? demangler hends system
  have hgraph := graph_of_ofDatabase? hopen
  refine ⟨f₀, hopen, isSome_performAll?_or_overflows hopen hends, ?_⟩
  rw [← hgraph] at hends henums
  intro qs₁ qs₂ f₁ f₂ ti isItem hqs₁ hqs₂
  have hinformed {qs : List TypeRequest} {f : SymbolFile σ} (hf : f₀.performAll? qs = some f) :
      Informed (f₀.graph.describing R (MustHave system)) f :=
    ((informed_of_ofDatabase? hopen _).performAll? hfixed henums hf).2
  have hanswer {f : SymbolFile σ} (hf : Informed (f₀.graph.describing R (MustHave system)) f) :
      ∃ a, f.typeOf ti isItem = some a := by
    have hsome := (hf.toSound.leads_typeOf ti isItem).isSome (hf.graph.symm ▸ hends)
    exact Option.isSome_iff_exists.1 (Option.isSome_map.symm.trans hsome)
  obtain ⟨a₁, h₁⟩ := hanswer (hinformed hqs₁)
  obtain ⟨a₂, h₂⟩ := hanswer (hinformed hqs₂)
  exact ⟨a₁, a₂, h₁, h₂, answersAgree_of_informed hfixed henums (hinformed hqs₁) (hinformed hqs₂) h₁ h₂
    fun f t f' u => hsame f₀.graph f t f' u hgraph⟩

end

/-- Requests for types are answered alike whatever has been asked for before. In `TypeModel` this
includes the declarations of tag types. -/
theorem typeOf_orderFree (demangler : Demangler) {database : Database}
    (hends : database.types.ChainsEnd) (henums : database.types.EnumsSimple) :
    (∀ (σ : Type) [TypeSystem σ] [FreshTags σ] (system : σ), BasicsFixed system →
      OrderFree demangler database system fun _ t _ u => t.Alike u)
    ∧ ∀ system : TypeModel, OrderFree demangler database system fun f t f' u => t.Alike u
      ∧ ∀ r, database.types.type? t.index = some r → r.isTag →
        (f.store.system.declared? t.handle).isSome
          ∧ f.store.system.declared? t.handle = f'.store.system.declared? u.handle := by
  refine ⟨fun σ _ _ system hfixed => ?_, fun system => ?_⟩
  · exact orderFree_of_described demangler (.blind σ) hends henums hfixed
      fun g _ t _ u _ _ halike _ _ => halike
  · refine orderFree_of_described demangler TypeModel.reading hends henums (fun _ _ _ => rfl) ?_
    intro g f t f' u hstream hindex halike ht hu
    exact ⟨halike, fun r hr => TypeModel.declared?_eq ht hu hindex (hstream ▸ hr)⟩

/-- The reference to the union is asked for at once, and after the union has been completed. -/
theorem typeOf_orderFree_union : ∃ (f₀ f₁ f f' : SymbolFile TypeModel) (id id' : TypeId)
    (t u : TypeObject), ofDatabase? Decorated.demangler (.ofTypes unionTypes) {} = some f₀
      ∧ f₀.performAll? [.typeOf ⟨0x1002⟩ false, .typeOf ⟨0x1001⟩ false, .complete 0] = some f₁
      ∧ f₀.typeOf ⟨0x1000⟩ false = some (some id, f) ∧ f₁.typeOf ⟨0x1000⟩ false = some (some id', f')
      ∧ f.object? id = some t ∧ f'.object? id' = some u ∧ t.Alike u
      ∧ f'.store.system.declared? u.handle = some ("U", some .union, "") := by
  have hends : (Database.ofTypes unionTypes).types.ChainsEnd := by
    rw [Database.types_ofTypes]
    exact chainsEnd_unionTypes
  have henums : (Database.ofTypes unionTypes).types.EnumsSimple := by decide +kernel
  have hrun : ((ofDatabase? Decorated.demangler (.ofTypes unionTypes) ({} : TypeModel)).bind fun f₀ =>
      (f₀.typeOf ⟨0x1000⟩ false).bind fun p => (p.1.bind p.2.object?).map fun t =>
        (p.2.store.system.declared? t.handle, (unionTypes.type? t.index).map (·.isTag)))
          = some (some ("U", some .union, ""), some true) := by
    decide +kernel
  obtain ⟨f₀, hopen, hrun⟩ := Option.bind_eq_some_iff.1 hrun
  obtain ⟨⟨r, f⟩, h₀, hrun⟩ := Option.bind_eq_some_iff.1 hrun
  obtain ⟨t₀, ht₀, heq⟩ := Option.map_eq_some_iff.1 hrun
  obtain ⟨id, rfl, hobject⟩ := Option.bind_eq_some_iff.1 ht₀
  obtain ⟨hdeclared, htag⟩ := Prod.mk.inj heq
  obtain ⟨record, hrecord, htag⟩ := Option.map_eq_some_iff.1 htag
  rw [← Database.types_ofTypes unionTypes] at hrecord
  have hfit : (Database.ofTypes unionTypes).types.PlacesFit := by
    rw [Database.types_ofTypes]
    exact placesFit_unionTypes
  obtain ⟨f₁, hqs⟩ := Option.isSome_iff_exists.1 (isSome_performAll? hopen hends hfit
    [.typeOf ⟨0x1002⟩ false, .typeOf ⟨0x1001⟩ false, .complete 0])
  obtain ⟨f₀', hopen', _, hfree⟩ := (typeOf_orderFree Decorated.demangler hends henums).2 {}
  obtain rfl := Option.some.inj (hopen.symm.trans hopen')
  obtain ⟨a, ⟨r', f'⟩, ha, h₁, hagree⟩ := hfree [] _ f₀ f₁ ⟨0x1000⟩ false rfl hqs
  obtain rfl := Option.some.inj (h₀.symm.trans ha)
  cases r' with
  | none => exact hagree.elim
  | some id' =>
    obtain ⟨t, u, ht, hu, halike, hsame⟩ := hagree
    obtain rfl := Option.some.inj (hobject.symm.trans ht)
    obtain ⟨_, heq⟩ := hsame record hrecord htag
    exact ⟨f₀, f₁, f, f', id, id', _, u, hopen, hqs, h₀, h₁, ht, hu, halike, heq ▸ hdeclared⟩

end SymbolFile
end Pdb
