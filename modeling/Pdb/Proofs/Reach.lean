import Mathlib.Data.Set.Card
import Pdb.Proofs.ForwardReference
import Pdb.Proofs.Fuel
import Pdb.Proofs.Keeps
import Pdb.Proofs.Nesting

/-! # How deep requests for types nest

`Asks` is from a type that is being made to one that is asked for meanwhile, together with what is
under way by then: the record itself, and its definition if that is another one. What is kept by
making a type from its own record is kept by asking for one (`Upkeep.wp_getFueled`), as long as the
fuel lasts.

Records may refer to each other in circles, so it is not the records that end the nesting. What is
under way grows, and a record that is under way is not begun again. So requests do not nest deeper
than there are records that can be reached, and one more that finds its record under way:
`typeOf_nests`.
-/

namespace Pdb

namespace TypeGraph
open Creation
variable {g : TypeGraph} {under under' : List TypeIndex} {ti p : TypeIndex}

/-- The type at `p` is asked for with `under'` under way while that at `ti` is made, which has been
asked for with `under` under way. -/
inductive Asks (g : TypeGraph) (under : List TypeIndex) (ti : TypeIndex) :
    List TypeIndex → TypeIndex → Prop
  | own {p : TypeIndex} : g.Refers ti p → Asks g under ti (ti :: under) p
  | target {p : TypeIndex} : g.target ti ≠ ti → g.Refers (g.target ti) p →
    Asks g under ti (g.target ti :: ti :: under) p

/-! ### What is kept by asking for types -/

section
variable {σ : Type} [TypeSystem σ] {averts : Halt → Prop} {I : List TypeIndex → TypeStore σ → Prop}
  {Ready : TypeObject → TypeStore σ → Prop} {want : TypeIndex → Creation σ TypeObject}
  {s : TypeStore σ} {fuel : Nat}

/-- What is left to show of making a type, which is made from the record itself or from its
definition. `M` is what holds of a type until it is kept. -/
theorem wp_createAndStore_of {K : TypeStore σ → Prop} {M : TypeObject → TypeStore σ → Prop}
    (hs : K s)
    (hown : g.target ti = ti → wp averts (g.create want ti)
      (fun r s' => K s' ∧ ∀ t, r = some t → M t s') s)
    (hbest : g.target ti ≠ ti → g.target ti ∉ s.underway → wp averts (g.create want (g.target ti))
      (fun r s' => K { s' with underway := s'.underway.erase (g.target ti) }
        ∧ ∀ t, r = some t → M t { s' with underway := s'.underway.erase (g.target ti) })
      { s with underway := g.target ti :: s.underway })
    (hstore : ∀ t s', K s' → M t s' → wp averts (store t) (fun _ s'' => K s'') s')
    (hredirect : ∀ id s', K s' → K (s'.redirect ti id)) :
    wp averts (g.createAndStore want ti) (fun _ s' => K s') s := by
  rw [createAndStore]
  by_cases htarget : g.target ti = ti
  · simp only [htarget, ↓reduceIte, wp_bind]
    refine wp_mono (hown htarget) fun r s' hr => ?_
    cases r with
    | none => exact hr.1
    | some t => exact hstore t s' hr.1 (hr.2 t rfl)
  · simp only [if_neg htarget, wp_bind, wp_look]
    cases s.cached? (g.target ti) with
    | some id => exact hredirect id s hs
    | none =>
      simp only [wp_bind, wp_guarded]
      split_ifs with hin
      · exact hs
      · refine wp_mono (hbest htarget hin) fun r s' hr => ?_
        cases r with
        | none => exact hr.1
        | some t =>
          refine wp_mono (hstore t _ hr.1 (hr.2 t rfl)) fun id? s'' hs'' => ?_
          cases id? with
          | none => exact hs''
          | some id => exact hredirect id s'' hs''

/-- `I under` outlasts what is done to make types while `under` are under way, and a type is `Ready`
from when it has been made until it is kept. -/
structure Upkeep (averts : Halt → Prop) (I : List TypeIndex → TypeStore σ → Prop)
    (Ready : TypeObject → TypeStore σ → Prop) : Prop where
  steady (under : List TypeIndex) : Steady (I under)
  mark {s : TypeStore σ} (under : List TypeIndex) (ti : TypeIndex) :
    I under s → I (ti :: under) { s with underway := ti :: s.underway }
  unmark {s : TypeStore σ} (under : List TypeIndex) (ti : TypeIndex) :
    I (ti :: under) s → I under { s with underway := s.underway.erase ti }
  ready_unmark {s : TypeStore σ} {t : TypeObject} (ti : TypeIndex) :
    Ready t s → Ready t { s with underway := s.underway.erase ti }
  full {s : TypeStore σ} {t : TypeObject} : t.state = .full → Ready t s
  declare {s : TypeStore σ} (under : List TypeIndex) (ti : TypeIndex) (size : Nat)
    (d : Declaration) (name : String) : I under s → wp averts (declareTag ti size d name)
      (fun r s' => I under s' ∧ ∀ t, r = some t → Ready t s') s
  store {s : TypeStore σ} {t : TypeObject} (under : List TypeIndex) :
    I under s → Ready t s → wp averts (store t) (fun _ s' => I under s') s
  redirect {s : TypeStore σ} (under : List TypeIndex) (ti : TypeIndex) (id : TypeId) :
    I under s → I under (s.redirect ti id)

namespace Upkeep

theorem wp_create (hI : Upkeep averts I Ready) (hends : averts .endless → g.stream.ChainsEnd) (hs : I under s)
    (hw : ∀ p, g.Refers ti p → Keeps averts (I under) (want p) fun _ => True) :
    wp averts (g.create want ti) (fun r s' => I under s' ∧ ∀ t, r = some t → Ready t s') s := by
  refine wp_create_of_declare (W := fun _ _ => True) (hI.steady under) hs hends hw ?_ ?_ ?_
  · exact fun s' hs' => ⟨hs', nofun⟩
  · exact fun s' t hs' ht => ⟨hs', fun _ heq => Option.some.inj heq ▸ hI.full ht.state⟩
  · exact fun s' size d name hs' => hI.declare under ti size d name hs'

theorem wp_createAndStore (hI : Upkeep averts I Ready) (hends : averts .endless → g.stream.ChainsEnd)
    (hs : I (ti :: under) s)
    (hw : ∀ under' p, g.Asks under ti under' p → Keeps averts (I under') (want p) fun _ => True) :
    wp averts (g.createAndStore want ti) (fun _ s' => I (ti :: under) s') s := by
  refine wp_createAndStore_of (M := Ready) hs (fun _ => ?_) (fun htarget _ => ?_)
    (fun t s' hs' ht => hI.store _ hs' ht) (fun id s' hs' => hI.redirect _ ti id hs')
  · exact hI.wp_create hends hs fun p hp => hw _ p (.own hp)
  · refine wp_mono (hI.wp_create hends (hI.mark _ (g.target ti) hs)
      fun p hp => hw _ p (.target htarget hp)) fun r s' hr => ?_
    exact ⟨hI.unmark _ _ hr.1, fun t ht => hI.ready_unmark _ (hr.2 t ht)⟩

/-- By induction on the fuel, which is enough for what `A` allows. -/
theorem wp_getFueled (hI : Upkeep averts I Ready) (hends : averts .endless → g.stream.ChainsEnd)
    {A : Nat → List TypeIndex → TypeIndex → Prop}
    (hzero : averts .endless → ∀ under ti, ¬ A 0 under ti)
    (hnext : ∀ n under ti under' p, A (n + 1) under ti →
      (∀ s : TypeStore σ, I under s → ti ∉ s.underway → g.Asks under ti under' p → A n under' p))
    (under : List TypeIndex) (hs : I under s) (hallowed : A fuel under ti) :
    wp averts (g.getFueled fuel ti : Creation σ TypeId) (fun _ s' => I under s') s := by
  induction fuel generalizing under ti s with
  | zero => exact fun h => hzero h under ti hallowed
  | succ fuel ih =>
    refine wp_getFueled_of (fun _ _ => hs) (fun _ => hs) fun _ hin => ?_
    refine wp_mono (hI.wp_createAndStore hends (hI.mark _ ti hs) fun under' p hp => ?_)
      fun r s' hs' => hI.unmark _ ti hs'
    refine .bind (P := fun _ => True) (fun s' hs' => ?_) fun id _ => keeps_object id
    refine wp_mono (ih under' hs' (hnext fuel under ti under' p hallowed s hs hin hp)) ?_
    exact fun _ _ h => ⟨h, fun _ _ => trivial⟩

end Upkeep

end

/-! ### How deep requests nest -/

/-- The records that can be reached from one, which is one of them. -/
def reach (g : TypeGraph) (ti : TypeIndex) : Set TypeIndex :=
  {p | Relation.ReflTransGen g.Refers ti p}

theorem Asks.reaches (h : g.Asks under ti under' p) : Relation.ReflTransGen g.Refers ti p := by
  cases h with
  | own hp => exact .single hp
  | target htarget hp => exact .head (.definition htarget) (.single hp)

/-- What is under way when a type is asked for. -/
theorem Asks.mem_under (h : g.Asks under ti under' p) {u : TypeIndex} (hu : u = ti ∨ u ∈ under) :
    u ∈ under' := by
  cases h with
  | own hp => exact List.mem_cons.2 hu
  | target htarget hp => exact List.mem_cons_of_mem _ (List.mem_cons.2 hu)

/-- How many of the records that can be reached are not under way. -/
noncomputable def left (g : TypeGraph) (under : List TypeIndex) (ti : TypeIndex) : Nat :=
  (g.reach ti \ {u | u ∈ under}).ncard

theorem left_le (g : TypeGraph) (under : List TypeIndex) (ti : TypeIndex) :
    g.left under ti ≤ (g.reach ti).ncard :=
  Set.ncard_le_ncard Set.sdiff_subset (Set.toFinite _)

/-- The record that has been begun can be reached from itself, and is under way from then on. -/
theorem left_lt_of_asks (hti : ti ∉ under) (h : g.Asks under ti under' p) :
    g.left under' p < g.left under ti := by
  refine Set.ncard_lt_ncard ⟨?_, fun hsub => ?_⟩ (Set.toFinite _)
  · rintro q ⟨hq, hnot⟩
    exact ⟨h.reaches.trans hq, fun hu => hnot (h.mem_under (.inr hu))⟩
  · have hself : ti ∈ g.reach p \ {u | u ∈ under'} := hsub ⟨.refl, hti⟩
    exact hself.2 (h.mem_under (.inl rfl))

theorem exists_record_of_type? {t : TypeRecord} (h : g.stream.type? ti = some t) :
    ti.isSimple = false ∧ ∃ record, (g.stream.record ti).toOption = some record := by
  have hsimple : ti.isSimple = false := by
    by_contra hsimple
    rw [TypeStream.type?_of_isSimple (Bool.not_eq_false _ ▸ hsimple)] at h
    exact nomatch h
  rw [TypeStream.type?_eq] at h
  obtain ⟨record, hrecord, _⟩ := Option.bind_eq_some_iff.1 h
  exact ⟨hsimple, record, hrecord⟩

theorem exists_type?_of_parent (h : g.nesting.find? ti = some p) :
    ∃ t, g.stream.type? ti = some t := by
  obtain ⟨u, _, hu, _⟩ := (TypeStream.nestedIn_of_nesting? g.nesting_eq h).shorter
  obtain ⟨t, ht, _⟩ := Option.bind_eq_some_iff.1 hu
  exact ⟨t, ht⟩

/-- The same of `depth`, which knows of no record but whether it is there. -/
theorem depth_lt_of_asks (hti : ti ∉ under) (h : g.Asks under ti under' p) :
    g.depth under' p < g.depth under ti := by
  have hpart {under' : List TypeIndex} (hroom : g.room under' ≤ g.room (ti :: under))
      (hrecord : ti.isSimple = false ∧ ∃ record, (g.stream.record ti).toOption = some record) :
      g.depth under' p < g.depth under ti := by
    obtain ⟨hsimple, record, hrecord⟩ := hrecord
    exact depth_part_lt hsimple hrecord hti hroom p
  cases h with
  | own hp =>
    cases hp with
    | definition htarget => exact hpart le_rfl (exists_record_of_target_ne htarget)
    | pointee _ hp => exact depth_pointee_lt hp _ _
    | reference ht _ => exact hpart le_rfl (exists_record_of_type? ht)
    | parent hp =>
      obtain ⟨t, ht⟩ := exists_type?_of_parent hp
      exact hpart le_rfl (exists_record_of_type? ht)
  | target htarget _ =>
    exact hpart (room_cons_le _ _) (exists_record_of_target_ne htarget)

section
variable {σ : Type} [TypeSystem σ] {s : TypeStore σ} {fuel : Nat}

theorem wp_store_underway {averts : Halt → Prop} {t : TypeObject} :
    wp averts (store t) (fun _ s' => s'.underway = s.underway) s :=
  wp_store_of (fun _ => rfl) fun _ _ _ => rfl

theorem upkeep_underway (averts : Halt → Prop) :
    Upkeep averts (fun under (s : TypeStore σ) => s.underway = under) fun _ _ => True where
  steady _ := ⟨fun _ _ h => h, fun _ h => h, fun _ h => h⟩
  mark _ ti h := congrArg (ti :: ·) h
  unmark under ti h := by
    show List.erase _ ti = under
    rw [h, List.erase_cons_head]
  ready_unmark _ _ := trivial
  full _ := trivial
  declare _ _ _ _ _ h := ⟨h, fun _ _ => trivial⟩
  store _ h _ := wp_mono wp_store_underway fun _ _ h' => h'.trans h
  redirect _ _ _ h := h

/-- Fuel is enough if it is at least a measure that gets smaller from one request to the next. -/
theorem isSome_getFueled {μ : List TypeIndex → TypeIndex → Nat} (hends : g.stream.ChainsEnd)
    (hpos : ∀ under ti, 0 < μ under ti)
    (hμ : ∀ under ti under' p, ti ∉ under → g.Asks under ti under' p → μ under' p < μ under ti)
    (hfuel : μ s.underway ti ≤ fuel) : ∃ r s',
      (g.getFueled fuel ti : Creation σ TypeId).runOn s = .ok (r, s')
        ∧ s'.underway = s.underway := by
  refine exists_of_wp ((upkeep_underway g.stream.MakingAverts).wp_getFueled
    (A := fun n under ti => μ under ti ≤ n) id (fun _ under ti h => Nat.not_le_of_gt (hpos under ti) h)
    ?_ _ rfl hfuel) (TypeStream.makingAverts hends)
  intro n under ti under' p h s hs hti hasks
  have hlt := hμ under ti under' p (hs ▸ hti) hasks
  omega

end
end TypeGraph

namespace SymbolFile
open TypeGraph
variable {σ : Type} [TypeSystem σ]

/-- Where chains of members end, a request for a type has an answer and leaves under way what was so
before. Requests nest at most one deeper than there are records that can be reached from the first
one: with that much fuel, or any more, the answer is the same. -/
theorem typeOf_nests (f : SymbolFile σ) (hends : f.database.types.ChainsEnd) (ti : TypeIndex)
    (isItem : Bool) :
    ∃ r f', f.typeOf ti isItem = some (r, f') ∧ f'.store.underway = f.store.underway
      ∧ (isItem = false → ∀ fuel, (f.graph.reach ti).ncard < fuel →
        (f.graph.getFueled fuel ti).runOn f.store = .ok (r, f'.store)) := by
  rw [← f.graph_eq] at hends
  obtain ⟨r, s', hrun, hunder⟩ := isSome_getFueled (s := f.store) hends (depth_pos f.graph)
    (fun _ _ _ _ => depth_lt_of_asks) (depth_le_fuel f.graph f.store.underway ti)
  cases isItem with
  | true => exact ⟨none, f, rfl, rfl, nofun⟩
  | false =>
    refine ⟨r, { f with store := s' }, ?_, hunder, fun _ fuel hfuel => ?_⟩
    · rw [typeOf, if_neg Bool.false_ne_true, TypeGraph.get, run_of_runOn hrun]
    · -- more fuel does not change a result, so the two are those with the greater fuel
      have hleft : f.graph.left f.store.underway ti + 1 ≤ fuel :=
        Nat.succ_le_of_lt ((f.graph.left_le f.store.underway ti).trans_lt hfuel)
      obtain ⟨r', s'', hrun', _⟩ := isSome_getFueled (s := f.store)
        (μ := fun under ti => f.graph.left under ti + 1) hends (fun _ _ => Nat.succ_pos _)
        (fun _ _ _ _ hti h => Nat.succ_lt_succ (left_lt_of_asks hti h)) hleft
      rw [hrun']
      rcases Nat.le_total fuel f.graph.fuel with hle | hle
      · rw [← below_getFueled hle ti _ _ hrun', hrun]
      · rw [← below_getFueled hle ti _ _ hrun, hrun']

end SymbolFile

/-! A modifier of a pointer, and the pointer, which is to the type with the modifier -/

/-- The modifier is at `0x1000`, and the pointer at `0x1001`. -/
def circularTypes : TypeStream :=
  let (_, t) := TypeList.addModifier {} ⟨0x1001⟩ true false
  let (_, t) := t.addPointer ⟨0x1000⟩ (TypeList.pointerAttributes 0 8) []
  match TypeStream.parse .types (.ofBytes t.encode) with
  | .ok s => s
  | .error _ => .empty .types

theorem chainsEnd_circularTypes : circularTypes.ChainsEnd :=
  TypeStream.chainsEnd_of_nextList?_eq_none (by decide +kernel)

/-- Neither record refers to anything but the other one. -/
theorem refers_circularTypes {g : TypeGraph} (hg : g.stream = circularTypes) {ti p : TypeIndex}
    (hti : ti = ⟨0x1000⟩ ∨ ti = ⟨0x1001⟩) (h : g.Refers ti p) : p = ⟨0x1000⟩ ∨ p = ⟨0x1001⟩ := by
  have hmodifier : circularTypes.type? ⟨0x1000⟩ = some (.modifier ⟨⟨0x1001⟩, 1⟩) := by
    decide +kernel
  have hpointer : circularTypes.type? ⟨0x1001⟩ = some (.pointer ⟨⟨0x1000⟩, 0x1000c, []⟩) := by
    decide +kernel
  have hdefinition : circularTypes.definition ⟨0x1000⟩ = ⟨0x1000⟩
      ∧ circularTypes.definition ⟨0x1001⟩ = ⟨0x1001⟩ := by
    decide +kernel
  have hclass : PointerRecord.containingClass? ⟨⟨0x1000⟩, 0x1000c, []⟩ = some none := by decide
  cases h with
  | definition htarget =>
    refine absurd ?_ htarget
    rw [TypeGraph.target_eq_definition, hg]
    rcases hti with rfl | rfl
    exacts [hdefinition.1, hdefinition.2]
  | pointee hsimple _ =>
    rcases hti with rfl | rfl <;> exact absurd hsimple (by decide)
  | reference ht hp =>
    rw [hg] at ht
    rcases hti with rfl | rfl
    · obtain rfl := Option.some.inj (hmodifier.symm.trans ht)
      exact .inr (List.mem_singleton.1 hp)
    · obtain rfl := Option.some.inj (hpointer.symm.trans ht)
      rw [TypeGraph.references, hclass] at hp
      exact .inl (List.mem_singleton.1 hp)
  | parent hp =>
    obtain ⟨u, _, hu, _⟩ := (TypeStream.nestedIn_of_nesting? g.nesting_eq hp).shorter
    rw [hg, TypeStream.uniqueName?] at hu
    rcases hti with rfl | rfl
    · cases hmodifier ▸ hu
    · cases hpointer ▸ hu

theorem ncard_reach_circularTypes {g : TypeGraph} (hg : g.stream = circularTypes) :
    (g.reach ⟨0x1000⟩).ncard ≤ 2 := by
  have hreach : g.reach ⟨0x1000⟩ ⊆ {⟨0x1000⟩, ⟨0x1001⟩} := by
    intro p hp
    induction hp with
    | refl => exact .inl rfl
    | tail _ hrefers ih => exact refers_circularTypes hg ih hrefers
  refine (Set.ncard_le_ncard hreach (Set.toFinite _)).trans ?_
  rw [Set.ncard_pair (by decide)]

/-- The circle is noticed when the modifier is asked for again, two requests further in. -/
theorem SymbolFile.typeOf_nests_circular : ∃ (f₀ f : SymbolFile TypeModel),
    ofDatabase? Decorated.demangler (.ofTypes circularTypes) {} = some f₀
      ∧ f₀.typeOf ⟨0x1000⟩ false = some (none, f) ∧ f.store.underway = []
      ∧ (f₀.graph.getFueled 3 ⟨0x1000⟩).runOn f₀.store = .ok (none, f.store) := by
  have hrun : ((ofDatabase? Decorated.demangler (.ofTypes circularTypes) ({} : TypeModel)).bind fun f₀ =>
      (f₀.typeOf ⟨0x1000⟩ false).map fun p => (p.1.isSome, f₀.store.underway))
        = some (false, []) := by
    decide +kernel
  obtain ⟨f₀, hopen, hrun⟩ := Option.bind_eq_some_iff.1 hrun
  obtain ⟨⟨r₀, _⟩, h₀, heq⟩ := Option.map_eq_some_iff.1 hrun
  obtain ⟨hnone, hempty⟩ := Prod.mk.inj heq
  have hstream : f₀.graph.stream = circularTypes := by
    rw [graph_of_ofDatabase? hopen, Database.types_ofTypes]
  obtain ⟨r, f, htype, hunder, hfuel⟩ := typeOf_nests f₀
    (by rw [← f₀.graph_eq, hstream]; exact chainsEnd_circularTypes) ⟨0x1000⟩ false
  obtain ⟨rfl, rfl⟩ := Prod.mk.inj (Option.some.inj (h₀.symm.trans htype))
  obtain rfl : r₀ = none := Option.not_isSome_iff_eq_none.1 (Bool.eq_false_iff.1 hnone)
  refine ⟨f₀, _, hopen, htype, hunder.trans hempty, hfuel rfl 3 ?_⟩
  exact Nat.lt_succ_of_le (ncard_reach_circularTypes hstream)

end Pdb
