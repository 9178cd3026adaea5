import Pdb.Proofs.Get
import Pdb.Proofs.Members

/-! # Completing keeps what holds of the types

Completing a tag type makes the types of its members, and marks it as complete at the end. A store
that is sound stays so, no type is ever lost, and what is marked meanwhile is unmarked again.
-/

namespace Pdb

namespace TypeStore
variable {σ : Type} {s s' s'' : TypeStore σ}

/-- What a request about types does to a store. -/
structure Later (s s' : TypeStore σ) : Prop where
  cached {k : TypeIndex} {id : TypeId} : s.cached? k = some id → s'.cached? k = some id
  underway : s'.underway = s.underway
  completing : s'.completing = s.completing

theorem Later.refl (s : TypeStore σ) : Later s s := ⟨id, rfl, rfl⟩

theorem Later.trans (h : Later s s') (h' : Later s' s'') : Later s s'' :=
  ⟨fun hk => h'.cached (h.cached hk), h'.underway.trans h.underway,
    h'.completing.trans h.completing⟩

theorem Grows.later (h : Grows s s') : Later s s' := ⟨h.cached, h.underway, h.completing⟩

end TypeStore

namespace TypeGraph
open Creation TypeStore TypeSystem
variable {σ : Type} [TypeSystem σ] [FreshTags σ] {g : TypeGraph} {origin : σ}
  {ti : TypeIndex} {s s₀ : TypeStore σ} {tag : TagDecl}

/-- What has been reached stays reached. -/
theorem keeps_get (hunder : s₀.underway = []) (ti : TypeIndex) :
    Keeps g.stream.MakingAverts (Reaches g origin [] [] s₀) (g.get ti) fun _ => True := by
  intro s hs
  refine wp_mono (wp_get hs.sound (hs.underway.trans hunder)) fun r s' hr => ?_
  exact ⟨hs.trans hr.1, fun _ _ => trivial⟩

theorem keeps_want (hunder : s₀.underway = []) (p : TypeIndex) :
    Keeps g.stream.MakingAverts (Reaches g origin [] [] s₀) (g.want p) fun _ => True :=
  .bind (keeps_get hunder p) fun id _ => keeps_object id

/-- Completing marks nothing for longer than it takes. -/
theorem wp_completeDeclared (handle : TypeHandle) (hs : Sound g origin [] s)
    (hunder : s.underway = []) (hd : s.declarations.find? tag = some ⟨ti, .forward⟩) :
    wp g.stream.CompletingAverts (g.completeDeclared tag ti handle)
      (fun r s' => r.isSome ∧ Later s s' ∧ Sound g origin [] s') s := by
  have hchange {s : TypeStore σ} (c : TagChange) (hs : Sound g origin [] s) :
      Sound g origin [] { s with system := change s.system handle c } :=
    hs.with_system (FreshTags.quiet_change _ handle c)
  have hstart := (hchange (.external false) hs).with_marks s.underway (ti :: s.completing)
  refine wp_completeDeclared_making (I := Reaches g origin [] [] { s with
    system := change s.system handle (.external false), completing := ti :: s.completing })
    (keeps_want hunder) ?_ (.refl hstart) ?_ ?_
  · exact fun s' c _ hs' => hs'.trans ⟨⟨id, id, rfl, rfl⟩, fun _ => rfl, hchange c hs'.sound⟩
  · exact ⟨rfl, ⟨id, rfl, rfl⟩, hchange _ hs⟩
  · intro s' layout hs'
    have hsound := (hchange (.complete layout) hs'.sound).with_marks s'.underway
      (s'.completing.erase ti)
    have hd' : s'.declarations.find? tag = some ⟨ti, .forward⟩ := hs'.entry hd
    refine ⟨rfl, ⟨hs'.cached, hs'.underway, ?_⟩, hsound.resolve hd'⟩
    show s'.completing.erase ti = s.completing
    rw [hs'.completing, List.erase_cons_head]

/-- Completing keeps a sound store sound. It comes to an end if chains of members do, and does not
overflow if places fit. -/
theorem wp_complete (handle : TypeHandle) (hs : Sound g origin [] s) (hunder : s.underway = []) :
    wp g.stream.CompletingAverts (g.complete handle)
      (fun r s' => r.isSome ∧ Later s s' ∧ Sound g origin [] s') s := by
  refine wp_complete_of (fun _ => ⟨rfl, .refl s, hs⟩) fun tag ti _ hd => ?_
  refine wp_mono (wp_completeDeclared handle hs hunder hd) fun r s' hr => ?_
  exact ⟨Option.isSome_map.trans hr.1, hr.2⟩

end TypeGraph
end Pdb
