import Pdb.Proofs.SymbolFile

/-! # A forward reference and its definition are one type

Whether there is a type for a record depends on the recipe of the record only, not on what has been
asked for before, and a forward reference has the recipe of its definition. So the two are asked for
with the same result, in either order and at any time: `typeOf_reference_definition`.
-/

namespace Pdb

/-- Indexes of built-in types lead nowhere. -/
theorem TypeGraph.target_eq_definition (g : TypeGraph) (ti : TypeIndex) :
    g.target ti = g.stream.definition ti := by
  rw [target]
  split_ifs with hsimple
  · have hrecord : g.stream.record ti = .error .primitiveType :=
      TypeStream.record_of_isSimple hsimple
    have hf : g.stream.forwardRef? ti = none := by
      rw [TypeStream.forwardRef?, hrecord]
      rfl
    rw [TypeStream.definition, hf]
  · rfl

namespace SymbolFile
open TypeSystem
variable {σ : Type} [TypeSystem σ] [FreshTags σ] {demangler : Demangler} {origin : σ}
  {f f' f₀ : SymbolFile σ} {system : σ} {k ti : TypeIndex} {r : Option TypeId}

omit [FreshTags σ] in
theorem typeOf_of_cached {id : TypeId} (h : f.store.cached? ti = some id) :
    f.typeOf ti false = some (some id, f) := by
  have hwp : Creation.wp (fun _ => True) (f.graph.get ti) (fun r s => r = some id ∧ s = f.store) f.store := by
    simp only [TypeGraph.get, TypeGraph.fuel, TypeGraph.getFueled, Creation.wp_bind, Creation.wp_look,
      h, Creation.wp_pure, and_self]
  obtain ⟨r, s, hrun, rfl, rfl⟩ := Creation.exists_of_wp hwp fun _ => trivial
  exact run_of_runOn hrun

theorem Sound.typeOf (hf : Sound origin f) (h : f.typeOf ti false = some (r, f')) :
    Later f f' ∧ Sound origin f' ∧ f'.graph.Got origin [] ti f'.store r := by
  rw [SymbolFile.typeOf, if_neg Bool.false_ne_true] at h
  obtain ⟨s', hc, rfl⟩ := exists_runOn h
  obtain ⟨hreach, hgot⟩ := Creation.wp_run (TypeGraph.wp_get hf.store hf.underway) hc
  refine ⟨⟨rfl, hreach.toGrows.later⟩, ⟨?_, ?_, ?_⟩, hgot⟩
  · have hsound := hreach.sound
    cases r <;> exact hsound
  · exact hreach.underway.trans hf.underway
  · exact hreach.completing.trans hf.completing

/-- There is a type exactly if the recipe of the record can be followed, whatever has been asked for
before. -/
theorem Sound.isSome_typeOf (hbasic : BasicsFixed origin) (hf : Sound origin f)
    (h : f.typeOf ti false = some (r, f')) :
    r.isSome ↔ ∃ n, f.graph.HasSize (MustHave origin) ti n := by
  obtain ⟨hlater, hf', hgot⟩ := hf.typeOf h
  rw [hlater.graph] at hgot
  have hsound := hf'.store
  rw [hlater.graph] at hsound
  cases r with
  | none => exact ⟨nofun, fun ⟨n, hn⟩ => absurd TypeGraph.clear_nil (hgot n hn)⟩
  | some id =>
    obtain ⟨t, ht, _⟩ := hsound.cached hgot
    have hsize := (hsound.hasSize hgot ht).mono fun b hb => hb.mustHave hbasic
    exact ⟨fun _ => ⟨t.size, hsize⟩, fun _ => rfl⟩

/-- A tag type has been declared for a record since the file was opened. -/
def MadeFor (system : σ) (f : SymbolFile σ) (ti : TypeIndex) (tag : TagDecl) : Prop :=
  FreshTags.Declared f.store.system tag ∧ ¬ FreshTags.Declared system tag
    ∧ ∃ d, f.store.declarations.find? tag = some d ∧ d.index = ti

/-- No record is declared twice. -/
theorem Sound.madeFor_unique {tag tag' : TagDecl} (hf : Sound origin f)
    (h : MadeFor system f ti tag) (h' : MadeFor system f ti tag') : tag = tag' := by
  obtain ⟨_, _, d, hd, rfl⟩ := h
  obtain ⟨_, _, d', hd', hindex⟩ := h'
  exact hf.store.tag_unique hd hd' hindex.symm

/-- Two records with one target are asked for with the same result, whatever is asked for in
between. -/
theorem Sound.typeOf_eq_of_target {a b target : TypeIndex} {qs : List TypeRequest}
    {f₁ f₂ f₃ : SymbolFile σ} {r₁ r₂ : Option TypeId}
    (hbasic : BasicsFixed origin) (hf : Sound origin f) (ha : f.graph.target a = target)
    (hb : f.graph.target b = target) (h₁ : f.typeOf a false = some (r₁, f₁))
    (hqs : f₁.performAll? qs = some f₂) (h₂ : f₂.typeOf b false = some (r₂, f₃)) :
    r₁ = r₂ ∧ ∀ id, r₁ = some id → ∃ t, f₃.object? id = some t ∧ t.uid = target.uid := by
  obtain ⟨hlater₁, hf₁, hgot₁⟩ := hf.typeOf h₁
  have hbetween := hf₁.leads_performAll? qs
  rw [hqs] at hbetween
  obtain ⟨hlater₂, hf₂⟩ := hbetween
  obtain ⟨hlater₃, hf₃, hgot₂⟩ := hf₂.typeOf h₂
  have hgraph₂ : f₂.graph = f.graph := hlater₂.graph.trans hlater₁.graph
  have hgraph₃ : f₃.graph = f.graph := hlater₃.graph.trans hgraph₂
  have hsize {c : TypeIndex} {n : Nat} (hc : f.graph.target c = target) :
      f.graph.HasSize (MustHave origin) c n ↔ f.graph.HasSize (MustHave origin) target n := by
    rw [← hc, TypeGraph.hasSize_target]
  have hsome : r₁.isSome ↔ r₂.isSome := by
    rw [hf.isSome_typeOf hbasic h₁, hf₂.isSome_typeOf hbasic h₂, hgraph₂]
    simp only [hsize ha, hsize hb]
  -- in the end both lead to what the target leads to
  have htarget {c : TypeIndex} {id : TypeId} (hc : f.graph.target c = target)
      (hid : f₃.store.cached? c = some id) : f₃.store.cached? target = some id := by
    rw [← hc, ← hgraph₃]
    exact hf₃.store.cached_target hid
  cases r₁ with
  | none =>
    have hnone : r₂ = none := by simpa using hsome
    exact ⟨hnone.symm, nofun⟩
  | some id =>
    obtain ⟨id', rfl⟩ := Option.isSome_iff_exists.1 (hsome.1 rfl)
    have hid := htarget ha (hlater₃.store.cached (hlater₂.store.cached hgot₁))
    refine ⟨hid.symm.trans (htarget hb hgot₂), fun _ heq => ?_⟩
    obtain rfl := Option.some.inj heq
    obtain ⟨t, ht, hindex⟩ := hf₃.store.cached hid
    have hself : f₃.graph.target target = target := by rw [hgraph₃, ← ha, TypeGraph.target_target]
    exact ⟨t, ht, congrArg TypeIndex.uid (hindex.trans hself)⟩

/-- A forward reference and its definition are asked for with the same result, in either order and
whatever is asked for before and in between. There is an answer where chains of members end. The
definition is declared at most once, and an index that leads to a type leads to it from then on. Of the
type system only `BasicsFixed` is used, which is what it promises of its built-in types. -/
theorem typeOf_reference_definition {database : Database} {full : TypeIndex}
    {qs : List TypeRequest} (hopen : ofDatabase? demangler database system = some f₀)
    (hbasic : BasicsFixed system) (hdef : database.types.definition k = full)
    (hf : f₀.performAll? qs = some f) :
    (∀ a b, a = k ∧ b = full ∨ a = full ∧ b = k → ∀ r₁ f₁ qs' f₂ r₂ f₃,
      f.typeOf a false = some (r₁, f₁) → f₁.performAll? qs' = some f₂ →
      f₂.typeOf b false = some (r₂, f₃) →
        r₁ = r₂ ∧ ∀ id, r₁ = some id → ∃ t, f₃.object? id = some t ∧ t.uid = full.uid)
    ∧ (database.types.ChainsEnd → ∀ a, (f.typeOf a false).isSome)
    ∧ (∀ tag tag', MadeFor system f full tag → MadeFor system f full tag' → tag = tag')
    ∧ ∀ qs' f', f.performAll? qs' = some f' →
      ∀ j id, f.store.cached? j = some id → f'.store.cached? j = some id := by
  have hqs := (sound_of_ofDatabase? hopen).leads_performAll? qs
  rw [hf] at hqs
  obtain ⟨hlater, hsound⟩ := hqs
  have hreference : f.graph.target k = full := by
    rw [hlater.graph, TypeGraph.target_eq_definition, graph_of_ofDatabase? hopen, hdef]
  have hfull : f.graph.target full = full := by rw [← hreference, TypeGraph.target_target]
  refine ⟨?_, fun hends a => ?_, fun _ _ => hsound.madeFor_unique, fun qs' f' hqs' => ?_⟩
  · rintro a b (⟨rfl, rfl⟩ | ⟨rfl, rfl⟩) r₁ f₁ qs' f₂ r₂ f₃ h₁ hqs' h₂
    · exact hsound.typeOf_eq_of_target hbasic hreference hfull h₁ hqs' h₂
    · exact hsound.typeOf_eq_of_target hbasic hfull hreference h₁ hqs' h₂
  · rw [← graph_of_ofDatabase? hopen, ← hlater.graph] at hends
    exact Option.isSome_map.symm.trans ((hsound.leads_typeOf a false).isSome hends)
  · have hmore := hsound.leads_performAll? qs'
    rw [hqs'] at hmore
    exact fun j id hj => hmore.1.store.cached hj

theorem typeOf_reference_definition_union : ∃ (f₀ f₁ f₂ : SymbolFile TypeModel) (id : TypeId),
    ofDatabase? Decorated.demangler (.ofTypes unionTypes) {} = some f₀
      ∧ f₀.typeOf ⟨0x1001⟩ false = some (some id, f₁)
      ∧ f₁.typeOf ⟨0x1000⟩ false = some (some id, f₂) := by
  have hrun : ((ofDatabase? Decorated.demangler (.ofTypes unionTypes) ({} : TypeModel)).bind fun f₀ =>
      (f₀.typeOf ⟨0x1001⟩ false).bind fun p => (p.2.typeOf ⟨0x1000⟩ false).map fun _ =>
        p.1.isSome) = some true := by
    decide +kernel
  obtain ⟨f₀, hopen, hrun⟩ := Option.bind_eq_some_iff.1 hrun
  obtain ⟨⟨r₁, f₁⟩, h₁, hrun⟩ := Option.bind_eq_some_iff.1 hrun
  obtain ⟨⟨r₂, f₂⟩, h₂, hsome⟩ := Option.map_eq_some_iff.1 hrun
  obtain ⟨id, rfl⟩ := Option.isSome_iff_exists.1 hsome
  have hdef : (Database.ofTypes unionTypes).types.definition ⟨0x1000⟩ = ⟨0x1001⟩ := by
    decide +kernel
  have hboth := (typeOf_reference_definition hopen (fun _ _ _ => rfl) hdef
    (show f₀.performAll? [] = some f₀ from rfl)).1 _ _ (.inr ⟨rfl, rfl⟩) _ _ [] _ _ _ h₁ rfl h₂
  exact ⟨f₀, f₁, f₂, id, hopen, h₁, hboth.1 ▸ h₂⟩

end SymbolFile
end Pdb
