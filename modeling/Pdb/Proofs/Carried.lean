import Pdb.Proofs.Completion
import Pdb.Proofs.Reach

/-! # What is carried along while types are made

A relation between stores may hold from each store to those that making types leads to, because types
are made only from types that have been found before: it is `Carried` if it is so for making one type
from its own record. By induction on the fuel the relation is carried along by any request for a type
(`Carried.wp_getFueled`), and by completing one (`Carried.wp_complete`).
-/

namespace Pdb

namespace TypeGraph
open Creation TypeStore TypeSystem
variable {σ : Type} [TypeSystem σ] [FreshTags σ] {g : TypeGraph} {origin m : σ}
  {under under' : List TypeIndex} {ti k p : TypeIndex} {s₀ s s' : TypeStore σ} {fuel : Nat}
  {want : TypeIndex → Creation σ TypeObject} {J : TypeStore σ → TypeStore σ → Prop}
  {Ready : TypeStore σ → TypeObject → Prop} {A : List TypeIndex → TypeIndex → Prop}

/-- A relation from earlier stores to later ones that tells nothing of what is under way, or of the type
system but where it comes from. -/
structure Persistent (J : TypeStore σ → TypeStore σ → Prop) : Prop where
  refl {s₀ s : TypeStore σ} : J s₀ s → J s s
  trans {s₀ s s' : TypeStore σ} : J s₀ s → J s s' → J s₀ s'
  of_follows {s₀ s s' : TypeStore σ} : J s₀ s → Follows s.system s'.system →
    s'.objects = s.objects → s'.declarations = s.declarations → J s₀ s'

omit [FreshTags σ] in
theorem Persistent.mark (hJ : Persistent J) (h : J s₀ s) (underway : List TypeIndex) :
    J s₀ { s with underway } :=
  hJ.of_follows h .refl rfl rfl

/-- What making types does to a store if `J` is carried along. -/
structure Carries (g : TypeGraph) (origin : σ) (J : TypeStore σ → TypeStore σ → Prop)
    (under : List TypeIndex) (s₀ s : TypeStore σ) : Prop extends Reaches g origin under [] s₀ s where
  carried : J s₀ s

namespace Carries

theorem refl (hJ : Persistent J) (hs : Sound g origin [] s) (h : J s₀ s) : Carries g origin J under s s :=
  ⟨.refl hs, hJ.refl h⟩

theorem trans (hJ : Persistent J) (h : Carries g origin J under s₀ s)
    (h' : Carries g origin J under s s') : Carries g origin J under s₀ s' :=
  ⟨h.toReaches.trans h'.toReaches, hJ.trans h.carried h'.carried⟩

theorem quiet (hJ : Persistent J) (h : Carries g origin J under s₀ s)
    (hq : FreshTags.Quiet s.system m) : Carries g origin J under s₀ { s with system := m } :=
  ⟨h.toReaches.trans ⟨⟨id, id, rfl, rfl⟩, fun _ => rfl, h.sound.with_system hq⟩,
    hJ.of_follows h.carried hq.follows rfl rfl⟩

end Carries

theorem Persistent.steady (hJ : Persistent J) : Steady (Carries g origin J under s₀) where
  namespaceIn name c h := h.quiet hJ (FreshTags.quiet_namespaceIn _ name c)
  basic? b h := h.quiet hJ (FreshTags.quiet_basic? _ b)
  derive t h := h.quiet hJ (FreshTags.quiet_derive _ t)

/-! ### Asking for a type -/

/-- Asking for the type at `p` finds one exactly if there is one, which is kept then, and carries `J`
along. -/
def WantsCarried (g : TypeGraph) (origin : σ) (J : TypeStore σ → TypeStore σ → Prop)
    (under : List TypeIndex) (want : TypeIndex → Creation σ TypeObject) (p : TypeIndex) : Prop :=
  ∀ s, Sound g origin [] s → s.underway = under → J s s →
    wp g.stream.MakingAverts (want p) (fun r s' => Carries g origin J under s s'
      ∧ Found g origin under p r ∧ ∀ t, r = some t → ∃ id, s'.object? id = some t) s

theorem wantsCarried_of_get {get : TypeIndex → Creation σ TypeId}
    (h : ∀ s, Sound g origin [] s → s.underway = under → J s s →
      wp g.stream.MakingAverts (get p) (fun r s' => J s s'
        ∧ Reaches g origin under [] s s' ∧ g.Got origin under p s' r) s) :
    g.WantsCarried origin J under (fun t => do object (← get t)) p := by
  refine fun s hs hunder hJ => (wp_bind _ _).2 (wp_mono (h s hs hunder hJ) fun r s' hr => ?_)
  obtain ⟨hcarried, hreach, hgot⟩ := hr
  cases r with
  | none => exact ⟨⟨hreach, hcarried⟩, hgot, nofun⟩
  | some id =>
    obtain ⟨t, ht, htarget⟩ := hreach.sound.cached hgot
    simp only [object, wp_bind, wp_look, wp_ofOption, ht]
    exact ⟨⟨hreach, hcarried⟩, ⟨htarget, hreach.sound.hasSize hgot ht⟩, fun u hu => ⟨id, hu ▸ ht⟩⟩

/-! ### Making a type -/

/-- The type at `ti` has been asked for with `under` under way, and is made from the record at `k`, with
`under'` under way. -/
inductive Begins (g : TypeGraph) (under : List TypeIndex) (ti : TypeIndex) :
    List TypeIndex → TypeIndex → Prop
  | own : Begins g under ti (ti :: under) ti
  | target : g.target ti ≠ ti → Begins g under ti (g.target ti :: ti :: under) (g.target ti)

theorem Begins.asks (h : g.Begins under ti under' k) (hp : g.Refers k p) : g.Asks under ti under' p := by
  cases h with
  | own => exact .own hp
  | target htarget => exact .target htarget hp

/-- `J` is carried along when a type is made from its own record, if `A` allows it to be asked for, and a
type is `Ready` from when it has been made until it is kept. -/
structure Carried (g : TypeGraph) (origin : σ) (A : List TypeIndex → TypeIndex → Prop)
    (Ready : TypeStore σ → TypeObject → Prop) (J : TypeStore σ → TypeStore σ → Prop) : Prop
    extends Persistent J where
  start (ti : TypeIndex) : A [] ti
  asks {under under' : List TypeIndex} {ti p : TypeIndex} :
    A under ti → g.Asks under ti under' p → A under' p
  create {under under' : List TypeIndex} {ti k : TypeIndex} {s : TypeStore σ}
    {want : TypeIndex → Creation σ TypeObject} : A under ti → g.Begins under ti under' k →
    s.underway = under' → Sound g origin [] s → J s s →
    (∀ p, g.Refers k p → g.WantsCarried origin J under' want p) →
    wp g.stream.MakingAverts (g.create want k)
      (fun r s' => J s s' ∧ ∀ t, r = some t → Ready s' t) s
  ready_mark {s : TypeStore σ} {t : TypeObject} (underway : List TypeIndex) :
    Ready s t → Ready { s with underway } t
  store {s₀ s : TypeStore σ} {t : TypeObject} : J s₀ s → Ready s t →
    wp g.stream.MakingAverts (store t) (fun _ s' => J s₀ s') s
  resolve {s₀ s : TypeStore σ} {tag : TagDecl} {ti : TypeIndex} {id : TypeId} {state : ResolveState} :
    J s₀ s → s.cached? ti = some id → s.declarations.find? tag = some ⟨ti, state⟩ →
    J s₀ (s.resolve tag ti)

namespace Carried

theorem wp_createAndStore (hJ : Carried g origin A Ready J) (hA : A under ti)
    (hunder : s.underway = ti :: under) (hs : Sound g origin [] s) (h : J s s)
    (hw : ∀ under' p, g.Asks under ti under' p → g.WantsCarried origin J under' want p) :
    wp g.stream.MakingAverts (g.createAndStore want ti) (fun _ s' => J s s') s := by
  refine wp_createAndStore_of (M := fun t s' => Ready s' t) h (fun _ => ?_) (fun htarget _ => ?_)
    (fun t s' hs' ht => hJ.store hs' ht) fun id s' hs' => hJ.of_follows hs' .refl rfl rfl
  · exact hJ.create hA .own hunder hs h fun p hp => hw _ p (.own hp)
  · have hmarked := hJ.mark h (g.target ti :: s.underway)
    refine wp_mono (hJ.create hA (.target htarget) (congrArg (g.target ti :: ·) hunder)
      (hs.with_marks _ _) (hJ.refl hmarked) fun p hp => hw _ p (.target htarget hp)) fun r s' hr => ?_
    exact ⟨hJ.mark (hJ.trans hmarked hr.1) _, fun t ht => hJ.ready_mark _ (hr.2 t ht)⟩

theorem wp_getFueled (hJ : Carried g origin A Ready J) (hA : A under ti)
    (hfuel : g.depth under ti ≤ fuel) (hs : Sound g origin [] s) (hunder : s.underway = under)
    (h : J s s) : wp g.stream.MakingAverts (g.getFueled fuel ti) (fun _ s' => J s s') s := by
  -- what is asked for on the way is allowed as well, and has a smaller depth
  induction fuel generalizing under ti s with
  | zero => exact absurd hfuel (Nat.not_le_of_gt (depth_pos g under ti))
  | succ fuel ih =>
    refine wp_getFueled_of (fun _ _ => h) (fun _ => h) fun _ hin => ?_
    have hmarked := hJ.mark h (ti :: s.underway)
    refine wp_mono (hJ.wp_createAndStore hA (congrArg (ti :: ·) hunder) (hs.with_marks _ _)
      (hJ.refl hmarked) fun under' p hp => wantsCarried_of_get fun s hs hunder' h => ?_)
      fun r s' hr => hJ.mark (hJ.trans hmarked hr) _
    have hlt := depth_lt_of_asks (hunder ▸ hin) hp
    exact wp_and (ih (hJ.asks hA hp) (by omega) hs hunder' h)
      (TypeGraph.wp_getFueled (by omega) hs hunder')

/-! ### Requests -/

theorem keeps_get (hJ : Carried g origin A Ready J) (hunder : s₀.underway = []) (ti : TypeIndex) :
    Keeps g.stream.MakingAverts (Carries g origin J [] s₀) (g.get ti) fun _ => True := by
  intro s hs
  have hunder := hs.underway.trans hunder
  have hget := hJ.wp_getFueled (hJ.start ti) (depth_le_fuel g [] ti) hs.sound hunder
    (hJ.refl hs.carried)
  refine wp_mono (wp_and hget (wp_get hs.sound hunder)) fun r s' hr => ?_
  exact ⟨hs.trans hJ.toPersistent ⟨hr.2.1, hr.1⟩, fun _ _ => trivial⟩

theorem keeps_want (hJ : Carried g origin A Ready J) (hunder : s₀.underway = []) (p : TypeIndex) :
    Keeps g.stream.MakingAverts (Carries g origin J [] s₀) (g.want p) fun _ => True :=
  .bind (hJ.keeps_get hunder p) fun id _ => keeps_object id

/-- Completing changes the system, and the state of one type and of its entry. -/
theorem wp_complete (hJ : Carried g origin A Ready J) (hunder : s.underway = [])
    (hs : Sound g origin [] s) (h : J s s) (handle : TypeHandle) :
    wp g.stream.CompletingAverts (g.complete handle) (fun _ s' => J s s') s := by
  refine wp_complete_of (fun _ => h) fun tag ti _ hentry => ?_
  have hquiet (s : TypeStore σ) (c : TagChange) := FreshTags.quiet_change s.system handle c
  have hstart (completing : List TypeIndex) : J s { s with
      system := change s.system handle (.external false), completing } :=
    hJ.of_follows h (hquiet s _).follows rfl rfl
  have hsound := (hs.with_system (hquiet s (.external false))).with_marks s.underway
    (ti :: s.completing)
  refine wp_completeDeclared_making (I := Carries g origin J [] { s with
    system := change s.system handle (.external false), completing := ti :: s.completing })
    (hJ.keeps_want hunder) (fun s' c _ hs' => hs'.quiet hJ.toPersistent (hquiet s' c))
    (.refl hJ.toPersistent hsound (hstart _)) (hstart s.completing) ?_
  intro s' layout hs'
  have hentry' := hs'.entry hentry
  obtain ⟨id, t, ht, rfl, _⟩ := hs'.sound.entry hentry'
  have hdone : J s { s' with
      system := change s'.system handle (.complete layout)
      completing := s'.completing.erase t.index } :=
    hJ.of_follows (hJ.trans (hstart _) hs'.carried) (hquiet s' _).follows rfl rfl
  exact hJ.resolve hdone (hs'.sound.object ht) hentry'

end Carried
end TypeGraph

namespace SymbolFile
open TypeGraph
variable {σ : Type} [TypeSystem σ] [FreshTags σ] {origin : σ} {f f' : SymbolFile σ} {q : TypeRequest}
  {A : List TypeIndex → TypeIndex → Prop} {Ready : TypeStore σ → TypeObject → Prop}
  {J : TypeStore σ → TypeStore σ → Prop}

/-- One request carries `J` along. -/
theorem Sound.carried (hf : Sound origin f) (hJ : Carried f.graph origin A Ready J)
    (h : J f.store f.store) (hq : f.perform? q = some f') : J f.store f'.store :=
  of_perform? (I := Carries f.graph origin J [] f.store) (.refl hJ.toPersistent hf.store h)
    (hJ.keeps_get hf.underway) (fun _ hs => hs.carried) (hJ.wp_complete hf.underway hf.store h) hq

end SymbolFile
end Pdb
