import Pdb.Proofs.SymbolFile

/-! # Chains without an end

A member list may name itself as the one that goes on from it, as in `loopTypes`. Walks along such a
chain never end, and what waits for their end has no result: `walks_end_iff` says exactly when.
-/

namespace Pdb

namespace TypeGraph
open Creation
variable {σ : Type} [TypeSystem σ] {g : TypeGraph} {s : TypeStore σ}

/-- Completing a tag type waits for the end of its own chain of members. -/
theorem runOn_complete_of_circles {type : TypeHandle} {tag : TagDecl} {d : DeclStatus}
    {t : TagShape} (htag : TypeSystem.tagOf? s.system type = some tag)
    (hd : s.declarations.find? tag = some d) (hforward : d.state = .forward)
    (hidle : d.index ∉ s.completing) (hshape : g.shape? d.index type = some t)
    (hmembers : g.hasMembers t) (hlist : t.fieldList ≠ .none)
    (hcircles : g.stream.Circles t.fieldList) :
    ∃ s', (g.complete type).runOn s = .error (.endless, s') := by
  have hfields : g.stream.fields? t.fieldList = none := by
    rw [← Option.not_isSome_iff_eq_none, TypeStream.isSome_fields?_iff]
    simp [hlist, hcircles]
  -- nothing overflows before the members are there
  have hwp : wp (· = .overflow) (g.complete type) (fun _ _ => False) s := by
    simp only [complete, wp_bind, wp_attempt, tagOf, wp_look, wp_ofOption, htag, hd, hforward,
      reduceCtorEq, if_false, hidle, decide_false, Bool.false_eq_true, completeDeclared, wp_update,
      Creation.change, wp_ask, completeTag, hshape, hmembers, Bool.not_true, wp_atEnd, hfields,
      not_false_eq_true]
  rw [wp] at hwp
  rcases hrun : (g.complete type).runOn s with ⟨_ | _, s'⟩ | r <;> rw [hrun] at hwp
  · exact ⟨s', rfl⟩
  · exact absurd rfl hwp
  · exact hwp.elim

end TypeGraph

namespace TypeStream

/-- What waits for the end of a chain of members has a result exactly if no such chain comes to a
list twice: walks; the inheritance model of a record, unless it is known at a virtual base; the
table of nested records, without which no symbol file is open; requests for types, of which none but a
completion that overflows has no answer, and completing a type among them. -/
theorem walks_end_iff {σ : Type} [TypeSystem σ] [FreshTags σ] (s : TypeStream) :
    (∀ ti, FieldWalk.Halts s (.start ti) ↔ ti = .none ∨ ¬ s.Circles ti)
    ∧ (∀ list, (s.inheritance? list).isSome ↔ list = .none ∨ ¬ s.Circles list
      ∨ ∃ m, s.Along list m ∧ m.isVirtualBase)
    ∧ (s.nesting?.isSome ↔ ∀ ti ∈ s.indexes, ∀ unique list,
      s.nester? ti = some (unique, list) → ¬ s.Circles list)
    ∧ (∀ demangler database (system : σ) f qs,
      SymbolFile.ofDatabase? demangler database system = some f → database.types = s → s.ChainsEnd →
        (f.performAll? qs).isSome ∨ f.OverflowsDuring qs)
    ∧ ∀ (g : TypeGraph) (st : TypeStore σ) type tag d t, g.stream = s →
      TypeSystem.tagOf? st.system type = some tag → st.declarations.find? tag = some d →
      d.state = .forward → d.index ∉ st.completing → g.shape? d.index type = some t →
      g.hasMembers t → t.fieldList ≠ .none → s.Circles t.fieldList →
        ∃ st', (g.complete type).runOn st = .error (.endless, st') := by
  refine ⟨fun ti => FieldWalk.halts_start_iff, fun list => isSome_inheritance?_iff,
    isSome_nesting?_iff, ?_, ?_⟩
  · rintro demangler database system f qs hopen rfl hends
    exact SymbolFile.isSome_performAll?_or_overflows hopen hends qs
  · rintro g st type tag d t rfl htag hd hforward hidle hshape hmembers hlist hcircles
    exact TypeGraph.runOn_complete_of_circles htag hd hforward hidle hshape hmembers hlist hcircles

end TypeStream

/-- A stream with one member list, which goes on from itself, and a union with these members. -/
def loopTypes : TypeStream :=
  let header : Bytes := [0x0b, 0xca, 0x31, 0x01, 56, 0, 0, 0, 0, 0x10, 0, 0, 2, 0x10, 0, 0, 28, 0, 0, 0]
  let list : Bytes := [10, 0, 0x03, 0x12, 4, 0x14, 0, 0, 0, 0x10, 0, 0]
  let union : Bytes := [14, 0, 0x06, 0x15, 1, 0, 0, 0, 0, 0x10, 0, 0, 4, 0, 0x4c, 0]
  match TypeStream.parse .types (.ofBytes (header ++ List.replicate 36 0 ++ list ++ union)) with
  | .ok s => s
  | .error _ => .empty .types

theorem circles_loopTypes : loopTypes.Circles ⟨0x1000⟩ := by
  have hnext : loopTypes.nextList? ⟨0x1000⟩ = some ⟨0x1000⟩ := by decide +kernel
  refine ⟨0, 1, ⟨0x1000⟩, Nat.one_pos, rfl, ?_⟩
  rw [TypeStream.listAfter, TypeStream.listAfter, Option.bind_some, hnext]

/-- The union can be made, and waits for its members when it is completed. -/
theorem walks_end_iff_loop : ∃ (f₀ f f₁ : SymbolFile TypeModel) (st : TypeStore TypeModel),
    SymbolFile.ofDatabase? Decorated.demangler (.ofTypes loopTypes) {} = some f₀
      ∧ f₀.performAll? [.typeOf ⟨0x1001⟩ false] = some f
      ∧ (f.graph.complete 0).runOn f.store = .error (.endless, st)
      ∧ SymbolFile.ofDatabase? Decorated.demangler (.ofTypes unionTypes) {} = some f₁
      ∧ ((f₁.performAll? [.typeOf ⟨0x1001⟩ false, .complete 0]).isSome
        ∨ f₁.OverflowsDuring [.typeOf ⟨0x1001⟩ false, .complete 0]) := by
  have hrun : (SymbolFile.ofDatabase? Decorated.demangler (.ofTypes loopTypes)
      ({} : TypeModel)).any fun f₀ => (f₀.performAll? [.typeOf ⟨0x1001⟩ false]).any fun f =>
        f.store.system.tagOf? 0 = some 0 && f.store.declarations.find? 0 = some ⟨⟨0x1001⟩, .forward⟩
        && f.store.completing = [] && (f.graph.shape? ⟨0x1001⟩ 0).any fun t =>
          f.graph.hasMembers t && t.fieldList = ⟨0x1000⟩ := by
    decide +kernel
  obtain ⟨f₀, hopen, hrun⟩ := (Option.any_eq_true _ _).1 hrun
  obtain ⟨f, hf, hrun⟩ := (Option.any_eq_true _ _).1 hrun
  simp only [Bool.and_eq_true, decide_eq_true_eq, Option.any_eq_true] at hrun
  obtain ⟨⟨⟨htag, hentry⟩, hfree⟩, t, hshape, hmembers, hlist⟩ := hrun
  have hstream : f.graph.stream = loopTypes := SymbolFile.stream_ofTypes hopen hf
  obtain ⟨_, _, _, -, hendless⟩ := TypeStream.walks_end_iff (σ := TypeModel) loopTypes
  obtain ⟨st, hst⟩ := hendless f.graph f.store 0 0 _ t hstream htag hentry rfl
    (hfree ▸ List.not_mem_nil) hshape hmembers (by rw [hlist]; decide) (hlist ▸ circles_loopTypes)
  have hunion : (SymbolFile.ofDatabase? Decorated.demangler (.ofTypes unionTypes)
      ({} : TypeModel)).isSome := by
    decide +kernel
  obtain ⟨f₁, hopen₁⟩ := Option.isSome_iff_exists.1 hunion
  obtain ⟨_, _, _, hanswered, -⟩ := TypeStream.walks_end_iff (σ := TypeModel) unionTypes
  exact ⟨f₀, f, f₁, st, hopen, hf, hst, hopen₁, hanswered _ _ {} f₁ _ hopen₁
    (Database.types_ofTypes unionTypes) SymbolFile.chainsEnd_unionTypes⟩

theorem not_halts_loopTypes :
    ¬ ∀ (s : TypeStream) (ti : TypeIndex), TypeStream.FieldWalk.Halts s (.start ti) := by
  intro h
  rcases TypeStream.FieldWalk.halts_start_iff.1 (h loopTypes ⟨0x1000⟩) with hnone | hends
  · exact absurd hnone (by decide)
  · exact hends circles_loopTypes

end Pdb
