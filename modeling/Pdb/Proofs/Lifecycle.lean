import Pdb.Proofs.Outcome
import Pdb.Proofs.Reach

/-! # From a declaration to a complete tag type

In `TypeModel` it can be seen what is done to a tag type. While types are made, and while members
are added to the tag type in `Touched`, no other tag type changes, no new one gets any members, and
no entry is lost (`Grown`). From this it follows over any sequence of requests that a tag type is
completed at most once, and is blank until then: `performAll?_lifecycle`.
-/

namespace Pdb

/-- Nothing has been added to a tag type since it was declared. -/
structure ModelTag.IsBlank (t : ModelTag) : Prop where
  completions : t.completions = 0
  fields : t.fields = []
  bases : t.bases = []
  statics : t.statics = []
  methods : t.methods = []
  enumerators : t.enumerators = []
  nested : t.nested = []
  layout : t.layout = none

namespace ModelTag
variable {t : ModelTag} {c : TagChange}

theorem IsBlank.start (h : t.IsBlank) : (t.apply .start).IsBlank :=
  ⟨h.completions, h.fields, h.bases, h.statics, h.methods, h.enumerators, h.nested, h.layout⟩

theorem IsBlank.external (h : t.IsBlank) (b : Bool) : (t.apply (.external b)).IsBlank :=
  ⟨h.completions, h.fields, h.bases, h.statics, h.methods, h.enumerators, h.nested, h.layout⟩

theorem completions_apply (h : c.AddsMember) : (t.apply c).completions = t.completions := by
  cases c <;> first | rfl | exact h.elim

end ModelTag

namespace TypeModel
variable {m m' : TypeModel} {d : TagDecl}

/-- A change is one to the tag type of the handle only. -/
theorem getElem?_tags_change (m : TypeModel) (type : TypeHandle) (c : TagChange) (d : TagDecl) :
    (m.change type c).tags[d]?
      = if m.tagOf? type = some d then (m.tags[d]?).map (·.apply c) else m.tags[d]? := by
  rw [change]
  cases htag : m.tagOf? type with
  | none => rw [if_neg (Option.some_ne_none d).symm]
  | some k =>
    rw [show (m.tags.modify k (·.apply c))[d]? = _ from Array.getElem?_modify ..]
    by_cases hk : k = d
    · rw [if_pos hk, if_pos (congrArg some hk)]
    · rw [if_neg hk, if_neg fun h => hk (Option.some.inj h)]

/-- What a tag type was before a change. -/
theorem tag_of_change {type : TypeHandle} {c : TagChange} {t : ModelTag}
    (h : (m.change type c).tags[d]? = some t) : m.tags[d]? = some t
      ∨ m.tagOf? type = some d ∧ ∃ t₀, m.tags[d]? = some t₀ ∧ t₀.apply c = t := by
  rw [getElem?_tags_change] at h
  split at h
  · next htag => exact .inr ⟨htag, Option.map_eq_some_iff.1 h⟩
  · exact .inl h

end TypeModel

namespace TypeStore
open TypeModel
variable {Touched : TagDecl → Prop} {s₀ s s' : TypeStore TypeModel} {d : TagDecl}

/-- What has been done while types were made and members were added to the tag types in `Touched`.
-/
structure Grown (Touched : TagDecl → Prop) (s₀ s : TypeStore TypeModel) : Prop where
  types : s₀.system.Extends s.system
  size : s₀.system.tags.size ≤ s.system.tags.size
  tag {d : TagDecl} : d < s₀.system.tags.size → ¬ Touched d →
    s.system.tags[d]? = s₀.system.tags[d]?
  completions {d : TagDecl} : d < s₀.system.tags.size →
    (s.system.tags[d]?).map (·.completions) = (s₀.system.tags[d]?).map (·.completions)
  fresh {d : TagDecl} {t : ModelTag} : s₀.system.tags.size ≤ d → s.system.tags[d]? = some t →
    t.IsBlank
  entry {d : TagDecl} {e : DeclStatus} : s₀.declarations.find? d = some e →
    s.declarations.find? d = some e
  entered {d : TagDecl} {e : DeclStatus} : s.declarations.find? d = some e →
    s₀.declarations.find? d = some e ∨ e.state = .forward

namespace Grown

theorem refl (s : TypeStore TypeModel) : Grown Touched s s where
  types _ _ h := h
  size := Nat.le_refl _
  tag _ _ := rfl
  completions _ := rfl
  fresh hle ht := by
    rw [Array.getElem?_eq_none hle] at ht
    exact nomatch ht
  entry h := h
  entered h := .inl h

/-- The rest of the store does not matter. -/
theorem congr (h : Grown Touched s₀ s) (hsystem : s'.system = s.system)
    (hentries : s'.declarations = s.declarations) : Grown Touched s₀ s' := by
  refine ⟨?_, ?_, ?_, ?_, ?_, ?_, ?_⟩ <;> simp only [hsystem, hentries]
  exacts [h.types, h.size, h.tag, h.completions, h.fresh, h.entry, h.entered]

theorem with_types {m : TypeModel} (h : Grown Touched s₀ s) (htypes : s.system.Extends m)
    (htags : m.tags = s.system.tags) : Grown Touched s₀ { s with system := m } := by
  refine ⟨fun i t ht => htypes i t (h.types i t ht), ?_, ?_, ?_, ?_, h.entry, h.entered⟩
    <;> simp only [htags]
  exacts [h.size, h.tag, h.completions, h.fresh]

theorem steady : Creation.Steady (Grown Touched s₀) where
  namespaceIn name c h := h.with_types (.of_types_eq (types_namespaceIn _ name c))
    (tags_namespaceIn _ name c)
  basic? _ h := h.with_types (extends_add _ _) rfl
  derive _ h := h.with_types (extends_add _ _) rfl

/-- A change is allowed to a tag type that is touched, as long as it does not count as completing,
and to a new one, as long as it stays blank. -/
theorem change (h : Grown Touched s₀ s) {type : TypeHandle} {c : TagChange}
    (hold : ∀ d, s.system.tagOf? type = some d → d < s₀.system.tags.size →
      Touched d ∧ ∀ t : ModelTag, (t.apply c).completions = t.completions)
    (hnew : ∀ d, s.system.tagOf? type = some d → s₀.system.tags.size ≤ d →
      ∀ t : ModelTag, t.IsBlank → (t.apply c).IsBlank) :
    Grown Touched s₀ { s with system := TypeSystem.change s.system type c } where
  types i t ht := (types_change s.system type c).symm ▸ h.types i t ht
  size := by
    show _ ≤ (s.system.change type c).tags.size
    rw [size_tags_change]
    exact h.size
  tag {d} hd hnot := by
    show (s.system.change type c).tags[d]? = _
    rw [getElem?_tags_change, if_neg fun htag => hnot (hold d htag hd).1, h.tag hd hnot]
  completions {d} hd := by
    show ((s.system.change type c).tags[d]?).map _ = _
    rw [getElem?_tags_change, ← h.completions hd]
    split
    · next htag =>
      rw [Option.map_map]
      exact Option.map_congr fun t _ => (hold d htag hd).2 t
    · rfl
  fresh {d t} hd ht := by
    rcases tag_of_change ht with ht | ⟨htag, t₀, ht₀, rfl⟩
    · exact h.fresh hd ht
    · exact hnew d htag hd t₀ (h.fresh hd ht₀)
  entry := h.entry
  entered := h.entered

theorem declare (h : Grown Touched s₀ s) (decl : Declaration) :
    Grown Touched s₀ { s with system := (TypeSystem.declare s.system decl).2 } where
  types i t ht := extends_add _ _ i t (h.types i t ht)
  size := by
    show _ ≤ (s.system.tags.push { decl }).size
    rw [Array.size_push]
    exact h.size.trans (Nat.le_succ _)
  tag {d} hd hnot := by
    show (s.system.tags.push { decl })[d]? = _
    rw [Array.getElem?_push, if_neg (hd.trans_le h.size).ne, h.tag hd hnot]
  completions {d} hd := by
    show ((s.system.tags.push { decl })[d]?).map _ = _
    rw [Array.getElem?_push, if_neg (hd.trans_le h.size).ne, h.completions hd]
  fresh {d t} hd ht := by
    rw [show (TypeSystem.declare s.system decl).2.tags[d]? = _ from Array.getElem?_push] at ht
    split at ht
    · exact Option.some.inj ht ▸ ⟨rfl, rfl, rfl, rfl, rfl, rfl, rfl, rfl⟩
    · exact h.fresh hd ht
  entry := h.entry
  entered := h.entered

/-- A change to a tag type that has been declared meanwhile. -/
theorem change_new (h : Grown Touched s₀ s) {type : TypeHandle} {c : TagChange}
    (htag : s.system.tagOf? type = some d) (hd : s₀.system.tags.size ≤ d)
    (hblank : ∀ t : ModelTag, t.IsBlank → (t.apply c).IsBlank) :
    Grown Touched s₀ { s with system := TypeSystem.change s.system type c } := by
  refine h.change (fun d' htag' hd' => ?_) fun _ _ _ => hblank
  obtain rfl := Option.some.inj (htag.symm.trans htag')
  exact absurd hd' (Nat.not_lt.2 hd)

/-- A new member of a tag type that is touched. -/
theorem change_touched (h : Grown Touched s₀ s) {type : TypeHandle} {c : TagChange}
    (htag : s.system.tagOf? type = some d) (hd : d < s₀.system.tags.size) (htouched : Touched d)
    (hc : c.AddsMember) :
    Grown Touched s₀ { s with system := TypeSystem.change s.system type c } := by
  refine h.change (fun d' htag' _ => ?_) fun d' htag' hd' => ?_
  · obtain rfl := Option.some.inj (htag.symm.trans htag')
    exact ⟨htouched, fun t => ModelTag.completions_apply hc⟩
  · obtain rfl := Option.some.inj (htag.symm.trans htag')
    exact absurd hd (Nat.not_lt.2 hd')

/-- A new entry, which is not that of a complete tag type. -/
theorem enter (h : Grown Touched s₀ s) (hnew : s₀.declarations.find? d = none) (ti : TypeIndex) :
    Grown Touched s₀ { s with declarations := s.declarations.insert d ⟨ti, .forward⟩ } where
  types := h.types
  size := h.size
  tag := h.tag
  completions := h.completions
  fresh := h.fresh
  entry {d' e} he := by
    rw [Table.find?_insert, if_neg, h.entry he]
    rintro rfl
    exact nomatch hnew.symm.trans he
  entered {d' e} he := by
    rw [Table.find?_insert] at he
    split at he
    · exact .inr (Option.some.inj he ▸ rfl)
    · exact h.entered he

end Grown
end TypeStore

/-! ### Making types -/

namespace TypeGraph
open Creation TypeStore TypeModel
variable {g : TypeGraph} {averts : Halt → Prop} {Touched : TagDecl → Prop} {s₀ s : TypeStore TypeModel}
  {t : TypeObject}

/-- Between its declaration and its entry a tag type is a new one. -/
def Ready (s₀ : TypeStore TypeModel) (t : TypeObject) (s : TypeStore TypeModel) : Prop :=
  t.state = .forward → ∀ d, s.system.tagOf? t.handle = some d → s₀.declarations.find? d = none

theorem wp_declareTag (hold : ∀ d e, s₀.declarations.find? d = some e → d < s₀.system.tags.size)
    (h : Grown Touched s₀ s) (ti : TypeIndex) (size : Nat) (d : Declaration) (name : String) :
    wp averts (declareTag ti size d name)
      (fun r s' => Grown Touched s₀ s' ∧ ∀ t, r = some t → Ready s₀ t s') s := by
  simp only [declareTag, Creation.declare, Creation.change, wp_bind, wp_ask, wp_pure]
  have htag : TypeSystem.tagOf? (TypeSystem.declare s.system d).2
      (TypeSystem.declare s.system d).1 = some s.system.tags.size := tagOf?_declare s.system d
  have hstart := (h.declare d).change_new (c := .start) htag h.size fun _ hb => hb.start
  have htag' := FreshTags.change_tagOf? _ (TypeSystem.declare s.system d).1 .start htag
  have hexternal := hstart.change_new (c := .external true) htag' h.size fun _ hb => hb.external true
  refine ⟨hexternal, fun t ht _ tag htag'' => ?_⟩
  obtain rfl := Option.some.inj ht
  have hfinal := FreshTags.change_tagOf? _ (TypeSystem.declare s.system d).1 (.external true) htag'
  obtain rfl := Option.some.inj (hfinal.symm.trans htag'')
  refine Option.eq_none_iff_forall_ne_some.2 fun e he => ?_
  exact absurd (hold _ e he) (Nat.not_lt.2 h.size)

theorem wp_store_grown (h : Grown Touched s₀ s) (hready : Ready s₀ t s) :
    wp averts (store t) (fun _ s' => Grown Touched s₀ s') s := by
  have hadd : Grown Touched s₀ (s.add t) := h.congr rfl rfl
  exact wp_store_of (fun _ => hadd) fun d hforward htag => hadd.enter (hready hforward d htag) t.index

theorem upkeep_grown (hold : ∀ d e, s₀.declarations.find? d = some e → d < s₀.system.tags.size) :
    Upkeep averts (fun _ => Grown Touched s₀) (Ready s₀) where
  steady _ := Grown.steady
  mark _ _ h := h.congr rfl rfl
  unmark _ _ h := h.congr rfl rfl
  ready_unmark _ h := h
  full hfull hforward := nomatch hfull.symm.trans hforward
  declare _ ti size d name h := wp_declareTag hold h ti size d name
  store _ h hready := wp_store_grown h hready
  redirect _ _ _ h := h.congr rfl rfl

theorem keeps_get_grown (hold : ∀ d e, s₀.declarations.find? d = some e → d < s₀.system.tags.size)
    (ti : TypeIndex) : Keeps (fun _ => False) (Grown Touched s₀) (g.get ti) fun _ => True := by
  intro s hs
  refine wp_mono ((upkeep_grown hold).wp_getFueled (A := fun _ _ _ => True) False.elim
    (fun h => h.elim) (fun _ _ _ _ _ _ _ _ _ _ => trivial) [] hs trivial) ?_
  exact fun _ _ h => ⟨h, fun _ _ => trivial⟩

end TypeGraph

/-! ### What holds of the tag types -/

namespace TypeStore
open TypeModel
variable {g : TypeGraph} {origin : TypeModel} {s s' : TypeStore TypeModel} {d tag : TagDecl}
  {ti : TypeIndex} {handle : TypeHandle}

/-- What holds of the tag types that have been declared since the type system was `origin`. -/
structure Alive (origin : TypeModel) (s : TypeStore TypeModel) : Prop where
  blank {d : TagDecl} {t : ModelTag} : s.system.tags[d]? = some t → origin.tags.size ≤ d →
    (∀ ti, s.declarations.find? d ≠ some ⟨ti, .full⟩) → t.IsBlank
  once {d : TagDecl} {t : ModelTag} {ti : TypeIndex} : s.system.tags[d]? = some t →
    s.declarations.find? d = some ⟨ti, .full⟩ → t.completions = 1

/-- Tag types that are complete stay so. -/
def Kept (s s' : TypeStore TypeModel) : Prop :=
  ∀ d ti, s.declarations.find? d = some ⟨ti, .full⟩ → s'.declarations.find? d = some ⟨ti, .full⟩

theorem Sound.lt_of_entry {e : DeclStatus} (hs : Sound g origin [] s)
    (he : s.declarations.find? d = some e) : d < s.system.tags.size :=
  (hs.declared d).2 (.inr (.inl (Option.isSome_iff_exists.2 ⟨e, he⟩)))

theorem Sound.le_of_entry {e : DeclStatus} (hs : Sound g origin [] s)
    (he : s.declarations.find? d = some e) : origin.tags.size ≤ d := by
  by_contra hlt
  exact nomatch he.symm.trans (hs.entry_origin (Nat.not_le.1 hlt))

theorem Sound.exists_entry (hs : Sound g origin [] s) (hd : d < s.system.tags.size)
    (hnew : origin.tags.size ≤ d) : ∃ e, s.declarations.find? d = some e := by
  rcases (hs.declared d).1 hd with hold | hentry | hpending
  · exact absurd hold (Nat.not_lt.2 hnew)
  · exact Option.isSome_iff_exists.1 hentry
  · exact nomatch hpending

theorem Grown.kept {Touched : TagDecl → Prop} (h : Grown Touched s s') : Kept s s' :=
  fun _ _ he => h.entry he

namespace Alive

theorem grown (h : Alive origin s) (hs : Sound g origin [] s) (hg : Grown (fun _ => False) s s') :
    Alive origin s' where
  blank {d t} ht hnew hforward := by
    rcases Nat.lt_or_ge d s.system.tags.size with hd | hd
    · rw [hg.tag hd id] at ht
      exact h.blank ht hnew fun ti he => hforward ti (hg.entry he)
    · exact hg.fresh hd ht
  once {d t ti} ht he := by
    rcases hg.entered he with he | hforward
    · rw [hg.tag (hs.lt_of_entry he) id] at ht
      exact h.once ht he
    · exact nomatch hforward

/-- It does not matter whether members may still come. -/
theorem external (h : Alive origin s) (handle : TypeHandle) (b : Bool) (completing : List TypeIndex) :
    Alive origin { s with
      system := TypeSystem.change s.system handle (.external b), completing } where
  blank ht hnew hforward := by
    rcases tag_of_change ht with ht | ⟨_, t₀, ht₀, rfl⟩
    · exact h.blank ht hnew hforward
    · exact (h.blank ht₀ hnew hforward).external b
  once ht he := by
    rcases tag_of_change ht with ht | ⟨_, t₀, ht₀, rfl⟩
    · exact h.once ht he
    · exact h.once (t := t₀) ht₀ he

/-- The end of a definition counts, and is noted in the entry. -/
theorem resolve (h : Alive origin s) (hold : ∀ d e, s.declarations.find? d = some e →
      d < s.system.tags.size) (hg : Grown (· = tag) s s') (hnew : origin.tags.size ≤ tag)
    (he : s.declarations.find? tag = some ⟨ti, .forward⟩)
    (htag : s.system.tagOf? handle = some tag) (layout : RecordLayout)
    (completing : List TypeIndex) :
    Alive origin ({ s' with
      system := TypeSystem.change s'.system handle (.complete layout), completing }.resolve tag ti) := by
  have htag' : s'.system.tagOf? handle = some tag := hg.types.tagOf? htag
  have htags (d : TagDecl) : (TypeSystem.change s'.system handle (.complete layout)).tags[d]?
      = if tag = d then (s'.system.tags[d]?).map (·.apply (.complete layout))
        else s'.system.tags[d]? := by
    rw [show (TypeSystem.change s'.system handle (.complete layout)).tags[d]? = _ from
      getElem?_tags_change s'.system handle (.complete layout) d, htag']
    simp only [Option.some.injEq]
  have hentry (d : TagDecl) : (s'.declarations.insert tag ⟨ti, .full⟩).find? d
      = if d = tag then some ⟨ti, .full⟩ else s'.declarations.find? d := Table.find?_insert ..
  have hother {d : TagDecl} {t : ModelTag} (hd : d ≠ tag)
      (ht : (TypeSystem.change s'.system handle (.complete layout)).tags[d]? = some t) :
      s'.system.tags[d]? = some t := by
    rwa [htags, if_neg hd.symm] at ht
  refine ⟨fun {d t} ht hd hforward => ?_, fun {d t ti'} ht hfull => ?_⟩
  · have hne : d ≠ tag := by
      rintro rfl
      exact hforward ti ((hentry d).trans (if_pos rfl))
    have hforward' (ti' : TypeIndex) : s'.declarations.find? d ≠ some ⟨ti', .full⟩ :=
      fun hfull => hforward ti' ((hentry d).trans ((if_neg hne).trans hfull))
    have ht' := hother hne ht
    rcases Nat.lt_or_ge d s.system.tags.size with hlt | hge
    · rw [hg.tag hlt hne] at ht'
      exact h.blank ht' hd fun ti' hfull => hforward' ti' (hg.entry hfull)
    · exact hg.fresh hge ht'
  · by_cases hne : d = tag
    · obtain rfl := hne
      obtain ⟨t', ht', rfl⟩ := Option.map_eq_some_iff.1 (((htags d).trans (if_pos rfl)).symm.trans ht)
      -- it was blank when its members began to be added, and no member counts as completing
      obtain ⟨t₀, ht₀⟩ : ∃ t₀, s.system.tags[d]? = some t₀ :=
        ⟨_, Array.getElem?_eq_getElem (hold d _ he)⟩
      have hblank : t₀.IsBlank := h.blank ht₀ hnew fun ti' hfull' => nomatch he.symm.trans hfull'
      have hcount := hg.completions (hold d _ he)
      rw [ht', ht₀] at hcount
      have hcount : t'.completions = t₀.completions := Option.some.inj hcount
      show t'.completions + 1 = 1
      rw [hcount, hblank.completions]
    · have hfull' : s'.declarations.find? d = some ⟨ti', .full⟩ :=
        ((if_neg hne).symm.trans (hentry d).symm).trans hfull
      have ht' := hother hne ht
      rcases hg.entered hfull' with hfull' | hforward
      · rw [hg.tag (hold d _ hfull') hne] at ht'
        exact h.once ht' hfull'
      · exact nomatch hforward

end Alive

theorem kept_resolve (hk : Kept s s') (he : s.declarations.find? tag = some ⟨ti, .forward⟩) :
    Kept s (s'.resolve tag ti) := by
  intro d ti' hfull
  rw [show (s'.resolve tag ti).declarations.find? d = _ from Table.find?_insert .., if_neg]
  · exact hk d ti' hfull
  · rintro rfl
    exact nomatch he.symm.trans hfull

end TypeStore

namespace TypeGraph
open Creation TypeStore TypeModel
variable {g : TypeGraph} {origin : TypeModel} {s : TypeStore TypeModel} {handle : TypeHandle}

theorem wp_complete_alive (hs : Sound g origin [] s) (h : Alive origin s) :
    wp (fun _ => False) (g.complete handle) (fun _ s' => Alive origin s' ∧ Kept s s') s := by
  refine wp_complete_of (fun _ => ⟨h, fun _ _ he => he⟩) fun tag ti htag he => ?_
  let start : TypeStore TypeModel := { s with
    system := TypeSystem.change s.system handle (.external false), completing := ti :: s.completing }
  have htypes : s.system.Extends start.system := .of_types_eq (types_change _ _ _)
  have hsize : start.system.tags.size = s.system.tags.size := size_tags_change _ _ _
  have hold (d : TagDecl) (e : DeclStatus) (he : start.declarations.find? d = some e) :
      d < start.system.tags.size := hsize ▸ hs.lt_of_entry he
  have hstart : Alive origin start := h.external handle false _
  have htag' : start.system.tagOf? handle = some tag := htypes.tagOf? htag
  refine wp_completeDeclared_of (I := Grown (· = tag) start) False.elim False.elim (W := fun _ _ => True)
    (fun p => .bind (keeps_get_grown hold p) fun id _ => keeps_object id) ?_ (.refl start) ?_ ?_
  · intro s' c hc hs'
    exact hs'.change_touched (hs'.types.tagOf? htag') (hold tag _ he) rfl hc
  · exact ⟨h.external handle false s.completing, fun _ _ he => he⟩
  · intro s' layout hs'
    refine ⟨hstart.resolve hold hs' (hs.le_of_entry he) he htag' layout _, ?_⟩
    exact kept_resolve (fun d ti he => hs'.kept d ti he) he

end TypeGraph

/-! ### Requests to complete a type -/

namespace TypeGraph
open Creation
variable {σ : Type} [TypeSystem σ] {g : TypeGraph} {s : TypeStore σ} {handle : TypeHandle}
  {tag : TagDecl} {ti : TypeIndex}

theorem wp_complete_of_full (htag : TypeSystem.tagOf? s.system handle = some tag)
    (he : s.declarations.find? tag = some ⟨ti, .full⟩) :
    wp (fun _ => True) (g.complete handle) (fun r s' => r = some (.ok true) ∧ s' = s) s := by
  simp only [complete, wp_bind, wp_attempt, tagOf, wp_look, wp_ofOption, htag, he, if_true]
  exact ⟨rfl, rfl⟩

/-- Where completing does not succeed, no member has been asked for. -/
theorem wp_complete_false : wp (fun _ => False) (g.complete handle) (fun r s' =>
    r.getD (.ok false) = .ok false → s'.system = s.system
      ∨ s'.system = TypeSystem.change s.system handle (.external false)) s := by
  refine wp_complete_of (fun _ _ => .inl rfl) fun tag ti _ _ => ?_
  refine wp_completeDeclared_of (I := fun _ => True) False.elim False.elim (fun p => .any (g.want p))
    ?_ trivial ?_ ?_
  · exact fun _ _ _ _ => trivial
  · exact fun _ => .inr rfl
  · rintro _ _ _ ⟨⟩

end TypeGraph

namespace TypeStore
variable {σ : Type} [TypeSystem σ]

/-- What is there before the first member is added to a tag type. -/
def begun (s : TypeStore σ) (type : TypeHandle) (ti : TypeIndex) : TypeStore σ :=
  { s with
    system := TypeSystem.change s.system type (.external false)
    completing := ti :: s.completing }

/-- What is there after the last member, when the layout has been set. -/
def finished (s : TypeStore σ) (type : TypeHandle) (tag : TagDecl) (ti : TypeIndex)
    (layout : RecordLayout) : TypeStore σ :=
  let s := { s with
    system := TypeSystem.change s.system type (.complete layout)
    completing := s.completing.erase ti }
  s.resolve tag ti

end TypeStore

namespace SymbolFile
open TypeStore
variable {demangler : Demangler} {origin : TypeModel} {f f' : SymbolFile TypeModel}

section
variable {σ : Type} [TypeSystem σ] {f f' : SymbolFile σ} {type : TypeHandle} {tag : TagDecl}
  {ti : TypeIndex}

theorem complete_of_full (htag : TypeSystem.tagOf? f.store.system type = some tag)
    (he : f.store.declarations.find? tag = some ⟨ti, .full⟩) :
    f.complete type = some (.ok true, f) := by
  obtain ⟨r, s', hrun, rfl, rfl⟩ :=
    Creation.exists_of_wp (TypeGraph.wp_complete_of_full (g := f.graph) htag he) fun _ => trivial
  rw [complete, run_of_runOn hrun]
  rfl

/-- A declared tag type is complete when its members have been added. -/
theorem exists_complete_of_addMembers {t : TagShape} {ms : List Member} {layout : RecordLayout}
    {s : TypeStore σ} (htag : TypeSystem.tagOf? f.store.system type = some tag)
    (he : f.store.declarations.find? tag = some ⟨ti, .forward⟩) (hidle : ti ∉ f.store.completing)
    (hshape : f.graph.shape? ti type = some t) (hhas : f.graph.hasMembers t)
    (hfields : f.graph.stream.fields? t.fieldList = some ms)
    (hadd : (f.graph.addMembers f.graph.want t ⟨t.size, [], []⟩ ms).runOn (f.store.begun type ti)
      = .ok (some layout, s)) :
    ∃ f', f.complete type = some (.ok true, f') ∧ f'.store = s.finished type tag ti layout := by
  have hwp : Creation.wp (fun _ => True) (f.graph.complete type)
      (fun r s' => r = some (.ok true) ∧ s' = s.finished type tag ti layout) f.store := by
    refine TypeGraph.wp_complete_of_shape htag he hidle hshape hhas hfields ?_
    show Creation.wp _ _ _ (f.store.begun type ti)
    rw [Creation.wp, hadd]
    exact ⟨layout, rfl, rfl, rfl⟩
  obtain ⟨r, s', hrun, rfl, rfl⟩ := Creation.exists_of_wp hwp fun _ => trivial
  exact ⟨_, by rw [complete, run_of_runOn hrun]; rfl, rfl⟩

/-- Without a result the type is not complete. -/
theorem exists_runOn_of_complete {r : Except CompletionFault Bool}
    (h : f.complete type = some (r, f')) : ∃ r?,
      (f.graph.complete type).runOn f.store = .ok (r?, f'.store) ∧ r?.getD (.ok false) = r := by
  obtain ⟨⟨r?, f''⟩, hrun, heq⟩ := Option.map_eq_some_iff.1 h
  obtain ⟨hr, rfl⟩ := Prod.mk.inj heq
  obtain ⟨s', hrun', rfl⟩ := exists_runOn hrun
  exact ⟨r?, hrun', hr⟩

theorem system_of_complete_false (h : f.complete type = some (.ok false, f')) :
    f'.store.system = f.store.system
      ∨ f'.store.system = TypeSystem.change f.store.system type (.external false) := by
  obtain ⟨r?, hrun, hr⟩ := exists_runOn_of_complete h
  exact Creation.wp_run TypeGraph.wp_complete_false hrun hr

end

/-- One request. -/
theorem alive_perform? (hf : Sound origin f) (h : Alive origin f.store) {q : TypeRequest}
    (hq : f.perform? q = some f') : Alive origin f'.store ∧ Kept f.store f'.store := by
  have hget (ti : TypeIndex) :
      Creation.Keeps (fun _ => False) (Grown (fun _ => False) f.store) (f.graph.get ti) fun _ => True :=
    TypeGraph.keeps_get_grown (fun d e he => hf.store.lt_of_entry he) ti
  exact of_perform? (Q := fun s => Alive origin s ∧ Kept f.store s) (.refl f.store) hget
    (fun _ hgrown => ⟨h.grown hf.store hgrown, hgrown.kept⟩)
    (fun _ => TypeGraph.wp_complete_alive hf.store h) hq

/-- Any number of requests. -/
theorem alive_performAll? (hf : Sound origin f) (h : Alive origin f.store) {qs : List TypeRequest}
    (hqs : f.performAll? qs = some f') : Alive origin f'.store ∧ Kept f.store f'.store := by
  refine (performAll?_induction (I := fun f' => Sound origin f' ∧ Alive origin f'.store
    ∧ Kept f.store f'.store) (fun f₁ q f₂ h₁ hq => ?_) ⟨hf, h, fun _ _ he => he⟩ hqs).2
  obtain ⟨hsound, halive, hkept⟩ := h₁
  obtain ⟨halive', hkept'⟩ := alive_perform? hsound halive hq
  exact ⟨(hsound.perform? hq).2, halive', fun d ti he => hkept' d ti (hkept d ti he)⟩

/-- How far a tag type has come: it is declared for a record, and either blank or complete, as its
entry and its type both say. -/
structure Stage (f : SymbolFile TypeModel) (d : TagDecl) (tag : ModelTag) (e : DeclStatus)
    (t : TypeObject) : Prop where
  entry : f.store.declarations.find? d = some e
  type : ∃ id, f.store.cached? e.index = some id ∧ f.object? id = some t
  handle : f.store.system.tagOf? t.handle = some d
  state : t.state = e.state
  once : tag.completions ≤ 1
  complete : tag.completions = 1 ↔ e.state = .full ∧ t.state = .full
  blank : e.state = .forward → tag.IsBlank

theorem exists_stage (hf : Sound origin f) (h : Alive origin f.store) {d : TagDecl} {tag : ModelTag}
    (hnew : origin.tags.size ≤ d) (htag : f.store.system.tags[d]? = some tag) :
    ∃ e t, f.Stage d tag e t := by
  have hlt : d < f.store.system.tags.size := (Array.getElem?_eq_some_iff.1 htag).1
  obtain ⟨⟨ti, state⟩, he⟩ := hf.store.exists_entry hlt hnew
  obtain ⟨id, t, ht, hindex, hstate, hhandle⟩ := hf.store.entry he
  have hcached : f.store.cached? ti = some id := by rw [← hf.store.object ht, hindex]
  have hstage : tag.completions ≤ 1 ∧ (tag.completions = 1 ↔ state = .full ∧ t.state = .full)
      ∧ (state = .forward → tag.IsBlank) := by
    cases state with
    | forward =>
      have hblank : tag.IsBlank := h.blank htag hnew fun ti' hfull => nomatch he.symm.trans hfull
      rw [hblank.completions]
      exact ⟨Nat.zero_le 1, ⟨nofun, fun hfull => nomatch hfull.1⟩, fun _ => hblank⟩
    | full =>
      rw [h.once htag he]
      exact ⟨Nat.le_refl 1, ⟨fun _ => ⟨rfl, hstate⟩, fun _ => rfl⟩, nofun⟩
  exact ⟨⟨ti, state⟩, t, he, ⟨id, hcached, ht⟩, hhandle, hstate, hstage.1, hstage.2.1, hstage.2.2⟩

theorem alive_of_ofDatabase? {database : Database} {system : TypeModel}
    (h : ofDatabase? demangler database system = some f) : Alive system f.store := by
  rw [store_of_ofDatabase? h]
  refine ⟨fun ht hnew _ => ?_, fun _ he => nomatch he⟩
  rw [Array.getElem?_eq_none hnew] at ht
  exact nomatch ht

/-- A tag type that has been declared for a record is completed at most once, and is blank until
then. It stays complete, and completing it again does nothing. Completing that does not succeed adds
nothing to any tag type. -/
theorem performAll?_lifecycle {database : Database} {system : TypeModel} {f₀ : SymbolFile TypeModel}
    {qs : List TypeRequest} (hopen : ofDatabase? demangler database system = some f₀)
    (hf : f₀.performAll? qs = some f) :
    (∀ d tag, system.tags.size ≤ d → f.store.system.tags[d]? = some tag → ∃ e t, f.Stage d tag e t)
    ∧ (∀ d ti, f.store.declarations.find? d = some ⟨ti, .full⟩ →
      (∀ qs' f', f.performAll? qs' = some f' →
        f'.store.declarations.find? d = some ⟨ti, .full⟩)
      ∧ ∀ type, f.store.system.tagOf? type = some d → f.complete type = some (.ok true, f))
    ∧ ∀ type f', f.complete type = some (.ok false, f') →
      f'.store.system.tags.size = f.store.system.tags.size
      ∧ ∀ (d : TagDecl) (tag : ModelTag), f.store.system.tags[d]? = some tag →
        ∃ b, f'.store.system.tags[d]? = some { tag with isExternal := b } := by
  obtain ⟨_, hsound⟩ := (sound_of_ofDatabase? hopen).performAll? hf
  obtain ⟨halive, _⟩ := alive_performAll? (sound_of_ofDatabase? hopen) (alive_of_ofDatabase? hopen) hf
  refine ⟨fun d tag => exists_stage hsound halive, fun d ti he => ⟨fun qs' f' hqs' => ?_, ?_⟩, ?_⟩
  · exact (alive_performAll? hsound halive hqs').2 d ti he
  · exact fun type htag => complete_of_full htag he
  · intro type f' hcomplete
    rcases system_of_complete_false hcomplete with hsame | hexternal
    · rw [hsame]
      exact ⟨rfl, fun d tag htag => ⟨tag.isExternal, htag⟩⟩
    · rw [hexternal]
      refine ⟨TypeModel.size_tags_change _ _ _, fun d tag htag => ?_⟩
      rw [show (TypeSystem.change f.store.system type (.external false)).tags[d]? = _ from
        TypeModel.getElem?_tags_change _ _ _ _, htag]
      split
      · exact ⟨false, rfl⟩
      · exact ⟨tag.isExternal, rfl⟩

/-- A union is at `0x1002`, and `const` of a reference to it at `0x1001`. There is no definition of the
union that is referred to at `0x1003`. -/
def referredTypes : TypeStream :=
  let (reference, t) := TypeList.addUnion {} (Text.utf8 "U") none .none 0 true
  let (_, t) := t.addModifier reference true false
  let (_, t) := t.addUnion (Text.utf8 "U") none .none 4 false
  let (_, t) := t.addUnion (Text.utf8 "V") none .none 0 true
  match TypeStream.parse .types (.ofBytes t.encode) with
  | .ok s => s
  | .error _ => .empty .types

def referredRequests : List TypeRequest := [.typeOf ⟨0x1001⟩ false, .typeOf ⟨0x1003⟩ false]

/-- The first union is blank when it has been declared, and is completed by its `const` type. Completing
it again does nothing. The other one cannot be completed. -/
theorem performAll?_lifecycle_union : ∃ f₀ f f' f'' : SymbolFile TypeModel,
    ofDatabase? Decorated.demangler (.ofTypes referredTypes) {} = some f₀
      ∧ f₀.performAll? referredRequests = some f
      ∧ (∃ tag t, f.Stage 0 tag ⟨⟨0x1002⟩, .forward⟩ t ∧ tag.IsBlank)
      ∧ f₀.performAll? (referredRequests ++ [.complete 1]) = some f'
      ∧ (∃ tag t, f'.Stage 0 tag ⟨⟨0x1002⟩, .full⟩ t ∧ tag.completions = 1
        ∧ f'.complete t.handle = some (.ok true, f'))
      ∧ f.complete 2 = some (.ok false, f'') ∧ f''.store.system.tags.size = 2 := by
  have hrun : ((ofDatabase? Decorated.demangler (.ofTypes referredTypes) ({} : TypeModel)).bind fun f₀ =>
      (f₀.performAll? referredRequests).bind fun f => (f.complete 2).map fun r =>
        decide (f.store.system.tags.size = 2 ∧ f.store.system.tagOf? 1 = some 0
          ∧ f.store.declarations.find? 0 = some ⟨⟨0x1002⟩, .forward⟩ ∧ f.store.completing = []
          ∧ (f.graph.shape? ⟨0x1002⟩ 1).map (·.fieldList) = some .none ∧ r.1.toOption = some false))
        = some true := by
    decide +kernel
  obtain ⟨f₀, hopen, hrun⟩ := Option.bind_eq_some_iff.1 hrun
  obtain ⟨f, hf, hrun⟩ := Option.bind_eq_some_iff.1 hrun
  obtain ⟨⟨r, f''⟩, hfailed, hdecide⟩ := Option.map_eq_some_iff.1 hrun
  obtain ⟨hsize, hconst, hforward, hidle, hlist, hr⟩ := of_decide_eq_true hdecide
  obtain rfl := ok_of_toOption hr
  obtain ⟨shape, hshape, hlist⟩ := Option.map_eq_some_iff.1 hlist
  have hhas : f.graph.hasMembers shape := by simp [TypeGraph.hasMembers, hlist]
  obtain ⟨f', hcomplete, hstore⟩ := exists_complete_of_addMembers hconst hforward
    (hidle ▸ List.not_mem_nil) hshape hhas (hlist ▸ TypeStream.fields?_none _) rfl
  have hf' := performAll?_complete hf hcomplete
  obtain ⟨hstages, -, hfails⟩ := performAll?_lifecycle hopen hf
  obtain ⟨hstages', hcompletes, -⟩ := performAll?_lifecycle hopen hf'
  have htag : 0 < f.store.system.tags.size := hsize ▸ Nat.two_pos
  have hfull : f'.store.declarations.find? 0 = some ⟨⟨0x1002⟩, .full⟩ := by
    rw [hstore]
    exact (find?_resolve ..).trans (if_pos rfl)
  have htag' : 0 < f'.store.system.tags.size := by
    rw [hstore]
    exact ((TypeModel.size_tags_change ..).trans (TypeModel.size_tags_change ..)).symm ▸ htag
  obtain ⟨e, t, hstage⟩ := hstages 0 _ (Nat.zero_le 0) (Array.getElem?_eq_getElem htag)
  obtain ⟨e', t', hstage'⟩ := hstages' 0 _ (Nat.zero_le 0) (Array.getElem?_eq_getElem htag')
  obtain rfl := Option.some.inj (hforward.symm.trans hstage.entry)
  obtain rfl := Option.some.inj (hfull.symm.trans hstage'.entry)
  exact ⟨f₀, f, f', f'', hopen, hf, ⟨_, t, hstage, hstage.blank rfl⟩, hf',
    ⟨_, t', hstage', hstage'.complete.2 ⟨rfl, hstage'.state⟩, (hcompletes 0 _ hfull).2 _ hstage'.handle⟩,
    hfailed, (hfails 2 f'' hfailed).1.trans hsize⟩

end SymbolFile
end Pdb
