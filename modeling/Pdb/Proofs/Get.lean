import Pdb.Proofs.Makes

/-! # The type of a record

`get` finds the type of a record, or makes it. In a sound store it comes to an end if chains of
members do, whatever the records refer to: what is under way has a record of its own, a built-in
type or a pointer to one, and is not started again, so the fuel cannot run out. At the top, where
nothing is under way, there is a type exactly where the recipe of the record can be followed.
-/

namespace Pdb.TypeGraph
open Creation TypeStore TypeSystem
variable {σ : Type} [TypeSystem σ] [FreshTags σ] {g : TypeGraph} {origin : σ}
  {under : List TypeIndex} {ti : TypeIndex} {fuel : Nat} {s : TypeStore σ}
  {want : TypeIndex → Creation σ TypeObject}

/-- What looking for the type at `ti` finds in a store that it leaves behind. -/
def Got (g : TypeGraph) (origin : σ) (under : List TypeIndex) (ti : TypeIndex) (s : TypeStore σ) :
    Option TypeId → Prop
  | some id => s.cached? ti = some id
  | none => ∀ n, g.HasSize (MustHave origin) ti n → ¬ g.Clear under ti

/-! ### What is left to show -/

section
omit [FreshTags σ]
variable {averts : Halt → Prop} {Q : Option TypeId → TypeStore σ → Prop}

omit [TypeSystem σ] in
theorem wp_guarded {α : Type} {c : Creation σ α} {Q : Option α → TypeStore σ → Prop} :
    wp averts (guarded ti c) Q s ↔ if ti ∈ s.underway then Q none s
      else wp averts c (fun r s' => Q r { s' with underway := s'.underway.erase ti })
        { s with underway := ti :: s.underway } := by
  simp only [guarded, wp_bind, wp_look, decide_eq_true_eq, wp_ite, wp_failure, wp_update,
    wp_attempt, wp_ofOption]

/-- A type that is kept gets an entry if it has a declaration and is not complete. -/
theorem wp_store_of {t : TypeObject}
    (hadd : (t.state = .forward → tagOf? s.system t.handle = none) →
      Q (some s.objects.size) (s.add t))
    (henter : ∀ tag, t.state = .forward → tagOf? s.system t.handle = some tag →
      Q (some s.objects.size) { s.add t with
        declarations := s.declarations.insert tag ⟨t.index, .forward⟩ }) :
    wp averts (store t) Q s := by
  simp only [store, wp_bind, wp_look, wp_update, wp_ite, wp_pure]
  split_ifs with hforward
  · simp only [wp_bind, wp_attempt, tagOf, wp_look, wp_ofOption]
    rw [show (s.add t).system = s.system from rfl]
    cases htag : tagOf? s.system t.handle with
    | none => exact (wp_pure _).2 (hadd fun _ => htag)
    | some tag => exact (wp_bind _ _).2 (henter tag hforward htag)
  · exact hadd fun h => absurd h hforward

/-- A type is there already, or there is none for the time being, or it is made. -/
theorem wp_getFueled_of (hcached : ∀ id, s.cached? ti = some id → Q (some id) s)
    (hnone : ti = .none ∨ ti ∈ s.underway → Q none s)
    (hmake : s.cached? ti = none → ti ∉ s.underway →
      wp averts (g.createAndStore (fun t => do object (← g.getFueled fuel t)) ti)
        (fun r s' => Q r { s' with underway := s'.underway.erase ti })
        { s with underway := ti :: s.underway }) :
    wp averts (g.getFueled (fuel + 1) ti) Q s := by
  simp only [getFueled, wp_bind, wp_look]
  cases hid : s.cached? ti with
  | some id => exact hcached id hid
  | none =>
    simp only [wp_bind, wp_ite, wp_failure, wp_guarded]
    split_ifs with htop hin
    · exact hnone (.inl htop)
    · exact hnone (.inr hin)
    · exact hmake hid hin

end

/-! ### Keeping a type -/

/-- A type that has been made from a record that had none is kept with its declaration. -/
theorem wp_store {t : TypeObject} {averts : Halt → Prop} (hs : Sound g origin (pending t s) s)
    (hnew : s.cached? t.index = none) (htarget : g.target t.index = t.index)
    (hsize : g.HasSize (MayHave origin) t.index t.size) :
    wp averts (store t) (fun r s' => r = some s.objects.size ∧ Grows s s' ∧ Sound g origin [] s'
      ∧ ∀ k, s'.cached? k = if k = t.index then some s.objects.size else s.cached? k) s := by
  have hadd := hs.add hnew htarget hsize
  have hcached {k : TypeIndex} {id : TypeId} (hk : s.cached? k = some id) :
      (s.add t).cached? k = some id := by
    rw [cached?_add, if_neg, hk]
    rintro rfl
    cases hnew.symm.trans hk
  refine wp_store_of (fun hnone => ?_) fun tag hforward htag => ?_
  · have hpending : pending t s = [] := by
      rw [pending]
      split
      · next hforward => rw [hnone hforward, Option.toList_none]
      · rfl
    exact ⟨rfl, ⟨hcached, id, rfl, rfl⟩, hpending ▸ hadd, cached?_add s t⟩
  · have hpending : pending t s = [tag] := by rw [pending, if_pos hforward, htag, Option.toList_some]
    rw [hpending] at hs hadd
    have hobject : (s.add t).object? s.objects.size = some t := by rw [object?_add, if_pos rfl]
    refine ⟨rfl, ⟨hcached, fun {tag' d} hd => ?_, rfl, rfl⟩,
      hadd.enter hobject hforward htag, cached?_add s t⟩
    rw [Table.find?_insert, if_neg]
    · exact hd
    · rintro rfl
      cases hd.symm.trans (hs.entry_pending (List.mem_singleton_self _)).2

/-! ### A record and its definition -/

omit [FreshTags σ] in
/-- A recipe that could not be followed while `ti` was under way cannot be followed without it. -/
theorem not_clear_of_built_none (htarget : g.target ti = ti)
    (h : Built g origin (ti :: under) ti (g.ownRecipe? ti) none) {n : Nat}
    (hn : g.HasSize (MustHave origin) ti n) : ¬ g.Clear under ti := by
  intro hclear
  obtain ⟨r, hr, hyields⟩ := (hasSize_iff_of_target_eq htarget).1 hn
  refine h r n hr hyields fun p hp => hclear.part hn ⟨r, ?_, hp⟩
  rw [recipe?_of_target_eq htarget, hr]

theorem wp_store_of_built {averts : Halt → Prop} {k : TypeIndex} {t : TypeObject} {s' : TypeStore σ}
    (htarget : g.target k = k) (hk : k ∉ under) (hnew : s.cached? k = none)
    (h : Reaches g origin (k :: under) (pending t s') s s')
    (hbuilt : Built g origin (k :: under) k (g.ownRecipe? k) (some t)) :
    wp averts (store t) (fun r s'' => ∃ id, r = some id ∧ s''.cached? k = some id
      ∧ Reaches g origin under [] s s'') s' := by
  obtain ⟨rfl, r, hr, hyields⟩ := hbuilt
  have hkept : s'.cached? t.index = none := (h.kept List.mem_cons_self).trans hnew
  have hsize : g.HasSize (MayHave origin) t.index t.size :=
    (hasSize_iff_of_target_eq htarget).2 ⟨r, hr, hyields⟩
  refine wp_mono (wp_store h.sound hkept htarget hsize) fun r s'' hr => ?_
  obtain ⟨rfl, hgrows, hsound, hcached⟩ := hr
  refine ⟨_, rfl, by rw [hcached, if_pos rfl], h.toGrows.trans hgrows, fun {j} hj => ?_, hsound⟩
  rw [hcached, if_neg, h.kept (List.mem_cons_of_mem _ hj)]
  rintro rfl
  exact hk hj

theorem redirect_reaches {best : TypeIndex} {id : TypeId} (hs : Sound g origin [] s)
    (hbest : g.target ti = best) (hti : ti ∉ under) (hnew : s.cached? ti = none)
    (hid : s.cached? best = some id) :
    (s.redirect ti id).cached? ti = some id ∧ Reaches g origin under [] s (s.redirect ti id) := by
  subst hbest
  obtain ⟨t, ht, htarget⟩ := hs.cached hid
  rw [target_target] at htarget
  refine ⟨by rw [cached?_redirect, if_pos rfl],
    ⟨fun {k id'} hk => ?_, fun hd => hd, rfl, rfl⟩, fun {k} hk => ?_, hs.redirect hnew ht htarget⟩
  · rw [cached?_redirect, if_neg, hk]
    rintro rfl
    exact nomatch hnew.symm.trans hk
  · rw [cached?_redirect, if_neg]
    rintro rfl
    exact hti hk

/-- Making the type of a record, or of its definition, while the record is under way. -/
theorem wp_createAndStore (hs : Sound g origin [] s) (hunder : s.underway = ti :: under)
    (hti : ti ∉ under) (hnew : s.cached? ti = none)
    (hown : g.target ti = ti → Makes g origin (ti :: under) pending (g.create want ti)
      (Built g origin (ti :: under) ti (g.ownRecipe? ti)))
    (hbest : g.target ti ≠ ti → Makes g origin (g.target ti :: ti :: under) pending
      (g.create want (g.target ti))
      (Built g origin (g.target ti :: ti :: under) (g.target ti) (g.ownRecipe? (g.target ti)))) :
    wp g.stream.MakingAverts (g.createAndStore want ti)
      (fun r s' => Reaches g origin under [] s s' ∧ g.Got origin under ti s' r) s := by
  rw [createAndStore]
  by_cases htarget : g.target ti = ti
  · simp only [htarget, ↓reduceIte, wp_bind]
    refine wp_mono (hown htarget s hs hunder) fun r s' hr => ?_
    cases r with
    | none =>
      exact ⟨hr.1.weaken, fun n hn => not_clear_of_built_none htarget hr.2 hn⟩
    | some t =>
      refine wp_mono (wp_store_of_built htarget hti hnew hr.1 hr.2) ?_
      rintro _ s'' ⟨id, rfl, hid, hreach⟩
      exact ⟨hreach, hid⟩
  · simp only [if_neg htarget, wp_bind, wp_look]
    cases hid : s.cached? (g.target ti) with
    | some id =>
      simp only [wp_bind, wp_pure, wp_update]
      obtain ⟨hcached, hreach⟩ := redirect_reaches hs rfl hti hnew hid
      exact ⟨hreach, hcached⟩
    | none =>
      simp only [wp_bind, wp_guarded]
      split
      · next hin =>
        -- the definition is under way, and the record cannot be made without it
        refine ⟨.refl hs, fun n _ hclear => ?_⟩
        rw [hunder] at hin
        exact hclear _ ((List.mem_cons.1 hin).resolve_left htarget) (.single (needs_target htarget))
      · next hnotin =>
        rw [hunder] at hnotin
        refine wp_mono (hbest htarget _ (hs.with_marks _ _) (hunder ▸ rfl)) fun r s' hr => ?_
        cases r with
        | none =>
          refine ⟨hr.1.unmark.weaken.weaken, fun n hn hclear => ?_⟩
          exact not_clear_of_built_none (target_target g ti) hr.2 (hasSize_target.2 hn)
            (hclear.part hn (needs_target htarget))
        | some t =>
          refine wp_mono (wp_store_of_built (target_target g ti) hnotin hid hr.1.unmark hr.2) ?_
          rintro _ s'' ⟨id, rfl, hid', hreach⟩
          simp only [wp_update, wp_pure]
          have hnew' : s''.cached? ti = none := (hreach.kept List.mem_cons_self).trans hnew
          obtain ⟨hcached, hreach'⟩ := redirect_reaches hreach.sound rfl hti hnew' hid'
          exact ⟨hreach.weaken.trans hreach', hcached⟩

/-! ### Enough fuel -/

/-- How many records of the stream are not under way. -/
def room (g : TypeGraph) (under : List TypeIndex) : Nat :=
  (g.stream.indexes.filter (· ∉ under)).length

/-- How many types, one in the making of another, can be under way for that of `ti`. -/
def depth (g : TypeGraph) (under : List TypeIndex) (ti : TypeIndex) : Nat :=
  if ti.isSimple then if ti.simpleMode = .direct then 1 else 2 else g.room under + 3

theorem filter_cons_sublist (under : List TypeIndex) (ti : TypeIndex) :
    List.Sublist (g.stream.indexes.filter (· ∉ ti :: under))
      (g.stream.indexes.filter (· ∉ under)) := by
  refine List.monotone_filter_right _ fun k hk => ?_
  simp only [List.mem_cons, not_or, decide_eq_true_eq] at hk ⊢
  exact hk.2

theorem room_cons_le (under : List TypeIndex) (ti : TypeIndex) :
    g.room (ti :: under) ≤ g.room under :=
  (filter_cons_sublist under ti).length_le

theorem room_cons_lt (hti : ti ∈ g.stream.indexes) (hnot : ti ∉ under) :
    g.room (ti :: under) < g.room under := by
  refine lt_of_le_of_ne (room_cons_le under ti) fun heq => ?_
  have hmem : ti ∈ g.stream.indexes.filter (· ∉ under) :=
    List.mem_filter.2 ⟨hti, decide_eq_true hnot⟩
  rw [← (filter_cons_sublist under ti).eq_of_length heq] at hmem
  simp at hmem

theorem depth_le (under : List TypeIndex) (ti : TypeIndex) :
    g.depth under ti ≤ g.room under + 3 := by
  rw [depth]
  split_ifs <;> omega

theorem depth_pos (g : TypeGraph) (under : List TypeIndex) (ti : TypeIndex) :
    0 < g.depth under ti := by
  rw [depth]
  split_ifs <;> omega

theorem depth_le_fuel (g : TypeGraph) (under : List TypeIndex) (ti : TypeIndex) :
    g.depth under ti ≤ g.fuel := by
  refine (depth_le under ti).trans (Nat.add_le_add_right ?_ 3)
  rw [room]
  refine (List.length_filter_le _ _).trans (le_of_eq ?_)
  rw [TypeStream.indexes, List.length_map, List.length_range]

theorem simpleType?_pointer {p : TypeIndex} {size : Nat}
    (h : ti.simpleType? = some (.pointer p size)) :
    ti.simpleMode ≠ .direct ∧ p.isSimple ∧ p.simpleMode = .direct := by
  rw [TypeIndex.simpleType?] at h
  split_ifs at h with _ hmode
  · cases h
  · obtain ⟨_, _, ⟨⟩⟩ := Option.map_eq_some_iff.1 h
    have hlt : ti.toNat % 256 < 256 := Nat.mod_lt _ (by decide)
    have hnat : ti.direct.toNat = ti.toNat % 256 :=
      UInt32.toNat_ofNat_of_lt' (hlt.trans (by decide))
    refine ⟨hmode, ?_, ?_⟩
    · rw [TypeIndex.isSimple, decide_eq_true_eq, UInt32.lt_iff_toNat_lt]
      exact (hnat ▸ hlt : ti.direct.toNat < 256).trans (by decide)
    · rw [TypeIndex.simpleMode, hnat, Nat.div_eq_of_lt hlt]
      rfl
  · obtain ⟨_, _, ⟨⟩⟩ := Option.map_eq_some_iff.1 h

/-- What a built-in type points to can be under way along with it. -/
theorem depth_pointee_lt {p : TypeIndex} {size : Nat}
    (h : ti.simpleType? = some (.pointer p size)) (under under' : List TypeIndex) :
    g.depth under' p < g.depth under ti := by
  obtain ⟨hmode, hp, hp'⟩ := simpleType?_pointer h
  rw [depth, if_pos hp, if_pos hp', depth, if_neg hmode]
  split_ifs <;> omega

/-- The types that a record is made from can be under way along with its own. -/
theorem depth_part_lt {record : RawRecord} {under' : List TypeIndex}
    (hsimple : ti.isSimple = false) (hrecord : (g.stream.record ti).toOption = some record)
    (hin : ti ∉ under) (hroom : g.room under' ≤ g.room (ti :: under)) (p : TypeIndex) :
    g.depth under' p < g.depth under ti := by
  have hlt := room_cons_lt (TypeStream.mem_indexes hrecord) hin
  have hpart := g.depth_le under' p
  have hti : g.depth under ti = g.room under + 3 := if_neg (Bool.eq_false_iff.1 hsimple)
  omega

theorem exists_record_of_target_ne (h : g.target ti ≠ ti) :
    ti.isSimple = false ∧ ∃ record, (g.stream.record ti).toOption = some record := by
  by_cases hti : ti.isSimple
  · exact absurd (if_pos hti) h
  · have hdef : g.stream.definition ti ≠ ti := by rwa [target, if_neg hti] at h
    refine ⟨Bool.eq_false_iff.2 hti, ?_⟩
    obtain ⟨f, hf⟩ := Option.isSome_iff_exists.1 (TypeStream.isSome_forwardRef? hdef)
    rw [TypeStream.forwardRef?] at hf
    obtain ⟨record, hrecord, _⟩ := Option.bind_eq_some_iff.1 hf
    exact ⟨record, hrecord⟩

theorem not_hasSize_none {P : BasicType → Prop} {n : Nat} : ¬ g.HasSize P .none n := by
  have htarget : g.target .none = .none := if_pos rfl
  rw [hasSize_iff_of_target_eq htarget]
  rintro ⟨r, hr, _⟩
  exact nomatch hr

/-! ### Getting a type -/

theorem makes_want {get : TypeIndex → Creation σ TypeId}
    (h : ∀ s : TypeStore σ, Sound g origin [] s → s.underway = under →
      wp g.stream.MakingAverts (get ti)
        (fun r s' => Reaches g origin under [] s s' ∧ g.Got origin under ti s' r) s) :
    Wants g origin under (fun t => do object (← get t)) ti := by
  refine fun s hs hunder => (wp_bind _ _).2 (wp_mono (h s hs hunder) fun r s' hr => ?_)
  cases r with
  | none => exact hr
  | some id =>
    obtain ⟨t, ht, htarget⟩ := hr.1.sound.cached hr.2
    simp only [object, wp_bind, wp_look, wp_ofOption, ht]
    exact ⟨hr.1, htarget, hr.1.sound.hasSize hr.2 ht⟩

/-- The fuel does not run out, and a type is found exactly if there is one. -/
theorem wp_getFueled (hfuel : g.depth under ti ≤ fuel) (hs : Sound g origin [] s)
    (hunder : s.underway = under) :
    wp g.stream.MakingAverts (g.getFueled fuel ti)
      (fun r s' => Reaches g origin under [] s s' ∧ g.Got origin under ti s' r) s := by
  -- what is made on the way is asked for with one more record under way, so its depth is smaller
  induction fuel generalizing under ti s with
  | zero => exact absurd hfuel (Nat.not_le_of_gt (depth_pos g under ti))
  | succ fuel ih =>
    have hwants {under' : List TypeIndex} {p : TypeIndex} (hp : g.depth under' p < g.depth under ti) :
        Wants g origin under' (fun t => do object (← g.getFueled fuel t)) p :=
      makes_want fun s hs hunder => ih (by omega) hs hunder
    refine wp_getFueled_of (fun id hid => ⟨.refl hs, hid⟩) ?_ fun hid hin => ?_
    · rintro (hnone | hin)
      · exact ⟨.refl hs, fun n hn => absurd (hnone ▸ hn) not_hasSize_none⟩
      · exact ⟨.refl hs, fun n _ hclear => hclear.not_mem (hunder ▸ hin)⟩
    · rw [hunder] at hin
      refine wp_mono (wp_createAndStore (hs.with_marks _ _) (hunder ▸ rfl) hin hid ?_ ?_)
        fun r s' hr => ⟨hr.1.unmark, by cases r <;> exact hr.2⟩
      · intro _
        exact makes_create (fun p size hp => hwants (depth_pointee_lt hp _ _))
          fun hsimple record hrecord p => hwants (depth_part_lt hsimple hrecord hin le_rfl p)
      · intro htarget
        obtain ⟨hsimple, record, hrecord⟩ := exists_record_of_target_ne htarget
        have hroom := g.room_cons_le (ti :: under) (g.target ti)
        have hdepth := depth_part_lt hsimple hrecord hin le_rfl (g.target ti)
        exact makes_create
          (fun p size hp => hwants ((depth_pointee_lt hp (ti :: under) _).trans hdepth))
          fun _ _ _ p => hwants (depth_part_lt hsimple hrecord hin hroom p)

theorem wp_get (hs : Sound g origin [] s) (hunder : s.underway = []) :
    wp g.stream.MakingAverts (g.get ti)
      (fun r s' => Reaches g origin [] [] s s' ∧ g.Got origin [] ti s' r) s :=
  wp_getFueled (depth_le_fuel g [] ti) hs hunder

end Pdb.TypeGraph
