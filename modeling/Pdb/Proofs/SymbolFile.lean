import Pdb.Decorated.Demangler
import Pdb.Proofs.Completion
import Pdb.Proofs.Uid
import Pdb.SymbolFile

/-! # Any sequence of requests for types

Whatever types are asked for and completed, in any order, the store of a symbol file is sound and
nothing is left marked (`Sound.leads_performAll?`). So each index that has a type keeps it, there is
one type for each record, and the entries of declarations agree with their types:
`performAll?_consistent`. Requests go on until one of them has no answer: where chains of members end
that is a completion which halts at an overflow (`OverflowsDuring`).
-/

namespace Pdb

theorem TypeIndex.uid_inj {a b : TypeIndex} (h : a.uid = b.uid) : a = b :=
  (Entity.type.inj (Entity.uid_inj h)).1

/-- A question to a symbol file that may make types. -/
inductive TypeRequest
  | typeOf (ti : TypeIndex) (isItem : Bool)
  | typeOfUid (u : Uid)
  | complete (type : TypeHandle)
  | typesNamed (name : Bytes) (limit : Nat)
  | typeOfVariable (v : Variable)

namespace SymbolFile
variable {σ : Type} {f f' f'' : SymbolFile σ}

/-- A symbol file comes from another one by requests. -/
structure Later (f f' : SymbolFile σ) : Prop where
  graph : f'.graph = f.graph
  store : f.store.Later f'.store

theorem Later.refl (f : SymbolFile σ) : Later f f := ⟨rfl, .refl _⟩

theorem Later.trans (h : Later f f') (h' : Later f' f'') : Later f f'' :=
  ⟨h'.graph.trans h.graph, h.store.trans h'.store⟩

variable [TypeSystem σ] {system : σ} {origin : σ} {demangler : Demangler}

/-- The symbol file after a request, if that has an answer. -/
def perform? (f : SymbolFile σ) : TypeRequest → Option (SymbolFile σ)
  | .typeOf ti isItem => (f.typeOf ti isItem).map (·.2)
  | .typeOfUid u =>
    match f.typeOfUid u with
    | .error _ => some f
    | .ok answer? => answer?.map (·.2)
  | .complete type => (f.complete type).map (·.2)
  | .typesNamed name limit => (f.typesNamed name limit).map (·.2)
  | .typeOfVariable v => (f.typeOfVariable v).map (·.2)

/-- The symbol file after some requests one after another. -/
def performAll? (f : SymbolFile σ) (qs : List TypeRequest) : Option (SymbolFile σ) :=
  qs.foldlM perform? f

/-- The request is a completion that halts at an overflow. -/
def OverflowsAt (f : SymbolFile σ) : TypeRequest → Prop
  | .complete type => (f.overflown? (f.graph.complete type)).isSome
  | _ => False

/-- Some requests have answers until one of them halts at an overflow. -/
def OverflowsDuring (f : SymbolFile σ) (qs : List TypeRequest) : Prop :=
  ∃ qs₁ q qs₂ f₁, qs = qs₁ ++ q :: qs₂ ∧ f.performAll? qs₁ = some f₁ ∧ f₁.OverflowsAt q

omit [TypeSystem σ] in
/-- A run with a result comes from one that does not halt. -/
theorem exists_runOn {α : Type} {c : Creation σ α} {r : Option α} (h : f.run c = some (r, f')) :
    ∃ s, c.runOn f.store = .ok (r, s) ∧ { f with store := s } = f' := by
  rw [run] at h
  rcases hc : c.runOn f.store with e | ⟨r', s⟩ <;> rw [hc] at h
  · exact nomatch h
  · obtain ⟨rfl, hf⟩ := Prod.mk.inj (Option.some.inj h)
    exact ⟨s, rfl, hf⟩

omit [TypeSystem σ] in
theorem run_of_runOn {α : Type} {c : Creation σ α} {r : Option α} {s : TypeStore σ}
    (h : c.runOn f.store = .ok (r, s)) : f.run c = some (r, { f with store := s }) := by
  rw [run, h]
  rfl

omit [TypeSystem σ] in
/-- What a run leaves behind, by what is known of the computation. -/
theorem of_run {α : Type} {c : Creation σ α} {Q : Option α → TypeStore σ → Prop}
    {averts : Halt → Prop} (hc : c.wp averts Q f.store) (h : (f.run c).map (·.2) = some f') :
    ∃ r, Q r f'.store := by
  obtain ⟨⟨r, _⟩, hrun, rfl⟩ := Option.map_eq_some_iff.1 h
  obtain ⟨s, hs, rfl⟩ := exists_runOn hrun
  exact ⟨r, Creation.wp_run hc hs⟩

omit [TypeSystem σ] in
theorem run_of_overflown? {α : Type} {c : Creation σ α} (h : (f.overflown? c).isSome) :
    f.run c = none := by
  rw [overflown?] at h
  rw [run]
  cases hc : c.runOn f.store with
  | error e => rfl
  | ok r => rw [hc] at h; exact nomatch h

/-- There is no answer behind an overflow. -/
theorem performAll?_of_overflowsDuring {qs : List TypeRequest} (h : f.OverflowsDuring qs) :
    f.performAll? qs = none := by
  obtain ⟨qs₁, q, qs₂, f₁, rfl, h₁, hq⟩ := h
  have hnone : f₁.perform? q = none := by
    cases q with
    | complete type =>
      rw [perform?, complete, run_of_overflown? hq]
      rfl
    | _ => exact hq.elim
  rw [performAll?] at h₁ ⊢
  rw [List.foldlM_append, h₁, Option.bind_eq_bind, Option.bind_some, List.foldlM_cons, hnone]
  rfl

theorem performAll?_complete {f₀ : SymbolFile σ} {qs : List TypeRequest} {type : TypeHandle}
    (hf : f₀.performAll? qs = some f) (hcomplete : f.complete type = some (.ok true, f')) :
    f₀.performAll? (qs ++ [.complete type]) = some f' := by
  rw [performAll?] at hf ⊢
  rw [List.foldlM_append, hf]
  simp [perform?, hcomplete]

/-- What a request comes to: nothing, one type, a completion, or one type after another. -/
theorem perform?_eq (f : SymbolFile σ) (q : TypeRequest) :
    f.perform? q = some f ∨ (∃ ti, f.perform? q = (f.run (f.graph.get ti)).map (·.2))
      ∨ (∃ type, f.perform? q = (f.run (f.graph.complete type)).map (·.2))
      ∨ ∃ limit tis, f.perform? q = (f.run (gather f.graph limit [] tis)).map (·.2) := by
  have htypeOf (ti : TypeIndex) (isItem : Bool) {f? : Option (SymbolFile σ)}
      (h : f? = (f.typeOf ti isItem).map (·.2)) :
      f? = some f ∨ ∃ ti, f? = (f.run (f.graph.get ti)).map (·.2) := by
    cases isItem with
    | true => exact .inl h
    | false => exact .inr ⟨ti, h⟩
  cases q with
  | typeOf ti isItem => exact (htypeOf ti isItem rfl).imp_right .inl
  | typeOfUid u =>
    rw [perform?, typeOfUid]
    cases Uid.unpackAs .type u with
    | error e => exact .inl rfl
    | ok entity =>
      cases entity with
      | type ti isItem => exact (htypeOf ti isItem rfl).imp_right .inl
      | _ => exact .inl rfl
  | complete type =>
    refine .inr (.inr (.inl ⟨type, ?_⟩))
    rw [perform?, complete, Option.map_map]
    rfl
  | typesNamed name limit =>
    refine .inr (.inr (.inr ⟨limit, f.database.types.find name, ?_⟩))
    rw [perform?, typesNamed, Option.map_map]
    rfl
  | typeOfVariable v => exact (htypeOf v.type false rfl).imp_right .inl

/-- What one request keeps is kept by any number of them. -/
theorem performAll?_induction {I : SymbolFile σ → Prop} {qs : List TypeRequest}
    (hstep : ∀ f q f', I f → f.perform? q = some f' → I f') (hf : I f)
    (h : f.performAll? qs = some f') : I f' := by
  induction qs generalizing f with
  | nil => exact Option.some.inj h ▸ hf
  | cons q qs ih =>
    rw [performAll?, List.foldlM_cons] at h
    obtain ⟨f₁, hq, hqs⟩ := Option.bind_eq_some_iff.1 h
    exact ih (hstep f q f₁ hf hq) hqs

/-- What is kept by making a type is kept by making several. -/
theorem keeps_gather {g : TypeGraph} {averts : Halt → Prop} {I : TypeStore σ → Prop} {P : TypeId → Prop}
    (h : ∀ ti, Creation.Keeps averts I (g.get ti) P) (limit : Nat) (found : List TypeId)
    (tis : List TypeIndex) :
    Creation.Keeps averts I (gather g limit found tis : Creation σ (List TypeId)) fun _ => True := by
  induction tis generalizing found with
  | nil => exact .pure trivial
  | cons ti tis ih =>
    rw [gather]
    split
    · exact .pure trivial
    · exact .bind (h ti).attempt fun id? _ => ih _

/-- What one request leaves behind: what making types keeps, or what completing leads to. -/
theorem of_perform? {averts averts' : Halt → Prop} {I Q : TypeStore σ → Prop} {P : TypeId → Prop}
    {q : TypeRequest} (hI : I f.store) (hget : ∀ ti, Creation.Keeps averts I (f.graph.get ti) P)
    (hQ : ∀ s, I s → Q s)
    (hcomplete : ∀ type, (f.graph.complete type).wp averts' (fun _ => Q) f.store)
    (h : f.perform? q = some f') : Q f'.store := by
  obtain hq | ⟨ti, hq⟩ | ⟨type, hq⟩ | ⟨limit, tis, hq⟩ := perform?_eq f q <;> rw [hq] at h
  · exact Option.some.inj h ▸ hQ _ hI
  · obtain ⟨_, hr, _⟩ := of_run (hget ti f.store hI) h
    exact hQ _ hr
  · obtain ⟨_, hr⟩ := of_run (hcomplete type) h
    exact hr
  · obtain ⟨_, hr, _⟩ := of_run (keeps_gather hget limit [] tis f.store hI) h
    exact hQ _ hr

variable [FreshTags σ]

/-- The store is sound and nothing is marked. -/
structure Sound (origin : σ) (f : SymbolFile σ) : Prop where
  store : f.store.Sound f.graph origin []
  underway : f.store.underway = []
  completing : f.store.completing = []

theorem sound_of_new (h : f.store = { system }) : Sound system f where
  store := h ▸ {
    cached := nofun
    object := nofun
    size := nofun
    entry := nofun
    declared := fun tag => by simp [Table.find?_empty]
    follows := .refl
    entry_origin := fun _ => rfl
    entry_pending := nofun }
  underway := h ▸ rfl
  completing := h ▸ rfl

/-- What may come of a request: it leaves a sound symbol file behind, or it has no answer. There is one
if chains of members end, unless some place does not fit and the request `overflows`. -/
def Leads (origin : σ) (overflows : Prop) (f : SymbolFile σ) (f? : Option (SymbolFile σ)) : Prop :=
  match f? with
  | none => ¬ f.graph.stream.ChainsEnd ∨ overflows ∧ ¬ f.graph.stream.PlacesFit
  | some f' => Later f f' ∧ Sound origin f'

theorem Sound.leads_run {α : Type} {averts : Halt → Prop} {overflows : Prop} {c : Creation σ α}
    (hf : Sound origin f)
    (h : c.wp averts (fun _ s' => f.store.Later s' ∧ s'.Sound f.graph origin []) f.store)
    (hhalt : ∀ e s, c.runOn f.store = .error (e, s) → ¬ averts e →
      ¬ f.graph.stream.ChainsEnd ∨ overflows ∧ ¬ f.graph.stream.PlacesFit) :
    Leads origin overflows f ((f.run c).map (·.2)) := by
  rw [Creation.wp] at h
  rw [run]
  rcases hc : c.runOn f.store with ⟨e, s⟩ | ⟨r, s'⟩
  · rw [hc] at h
    exact hhalt e s hc h
  · rw [hc] at h
    obtain ⟨hlater, hsound⟩ := h
    exact ⟨⟨rfl, hlater⟩, hsound, hlater.underway.trans hf.underway,
      hlater.completing.trans hf.completing⟩

/-- Making types never overflows. -/
theorem Sound.leads_keeps {α : Type} {overflows : Prop} {c : Creation σ α} {P : α → Prop}
    (hf : Sound origin f)
    (hc : Creation.Keeps f.graph.stream.MakingAverts (f.store.Reaches f.graph origin [] []) c P) :
    Leads origin overflows f ((f.run c).map (·.2)) := by
  refine hf.leads_run (Creation.wp_mono (hc f.store (.refl hf.store)) fun _ _ hr =>
    ⟨hr.1.toGrows.later, hr.1.sound⟩) fun e _ _ he => ?_
  cases e with
  | endless => exact .inl he
  | overflow => exact absurd trivial he

theorem Sound.leads_complete (hf : Sound origin f) (type : TypeHandle) :
    Leads origin (f.OverflowsAt (.complete type)) f
      ((f.run (f.graph.complete type)).map (·.2)) := by
  refine hf.leads_run (Creation.wp_mono (TypeGraph.wp_complete type hf.store hf.underway)
    fun _ _ hr => hr.2) fun e s hc he => ?_
  cases e with
  | endless => exact .inl he
  | overflow => exact .inr ⟨by rw [OverflowsAt, overflown?, hc]; rfl, he⟩

theorem Sound.leads_typeOf {overflows : Prop} (hf : Sound origin f) (ti : TypeIndex) (isItem : Bool) :
    Leads origin overflows f ((f.typeOf ti isItem).map (·.2)) := by
  rw [typeOf]
  split
  · exact ⟨.refl f, hf⟩
  · exact hf.leads_keeps (TypeGraph.keeps_get hf.underway ti)

/-- One request keeps a symbol file sound. -/
theorem Sound.leads_perform? (hf : Sound origin f) (q : TypeRequest) :
    Leads origin (f.OverflowsAt q) f (f.perform? q) := by
  cases q with
  | complete type =>
    rw [perform?, complete, Option.map_map]
    exact hf.leads_complete type
  | typeOf ti isItem => exact hf.leads_typeOf ti isItem
  | typeOfUid u =>
    rw [perform?, typeOfUid]
    cases Uid.unpackAs .type u with
    | error e => exact ⟨.refl f, hf⟩
    | ok entity =>
      cases entity with
      | type ti isItem => exact hf.leads_typeOf ti isItem
      | _ => exact ⟨.refl f, hf⟩
  | typesNamed name limit =>
    rw [perform?, typesNamed, Option.map_map]
    exact hf.leads_keeps (keeps_gather (TypeGraph.keeps_get hf.underway) limit [] _)
  | typeOfVariable v => exact hf.leads_typeOf v.type false

/-- Any number of requests keep a symbol file sound. -/
theorem Sound.leads_performAll? (hf : Sound origin f) (qs : List TypeRequest) :
    Leads origin (f.OverflowsDuring qs) f (f.performAll? qs) := by
  induction qs generalizing f with
  | nil => exact ⟨.refl f, hf⟩
  | cons q qs ih =>
    have hq := hf.leads_perform? q
    rw [performAll?, List.foldlM_cons]
    cases hf' : f.perform? q with
    | none =>
      rw [hf'] at hq
      exact hq.imp_right fun h => ⟨⟨[], q, qs, f, rfl, rfl, h.1⟩, h.2⟩
    | some f' =>
      rw [hf'] at hq
      have hqs := ih hq.2
      show Leads origin _ f (f'.performAll? qs)
      cases hf'' : f'.performAll? qs with
      | none =>
        rw [hf'', Leads, hq.1.graph] at hqs
        refine hqs.imp_right fun ⟨⟨qs₁, q', qs₂, f₁, heq, h₁, hover⟩, hfit⟩ => ⟨?_, hfit⟩
        refine ⟨q :: qs₁, q', qs₂, f₁, by rw [heq, List.cons_append], ?_, hover⟩
        rw [performAll?, List.foldlM_cons, hf']
        exact h₁
      | some f'' => rw [hf''] at hqs; exact ⟨hq.1.trans hqs.1, hqs.2⟩

theorem Sound.perform? {q : TypeRequest} (hf : Sound origin f) (h : f.perform? q = some f') :
    Later f f' ∧ Sound origin f' := by
  have hlead := hf.leads_perform? q
  rwa [h] at hlead

theorem Sound.performAll? {qs : List TypeRequest} (hf : Sound origin f)
    (h : f.performAll? qs = some f') : Later f f' ∧ Sound origin f' := by
  have hlead := hf.leads_performAll? qs
  rwa [h] at hlead

/-! ### What holds after any requests -/

/-- What the types of a symbol file and the declarations of its type system have to do with each
other, if the type system was in the state `system` when the file was opened. -/
structure Consistent (system : σ) (f : SymbolFile σ) : Prop where
  /-- An index leads to a type that is found under its own index as well, and is that index or the
  one of a forward reference to it. -/
  cached {k : TypeIndex} {id : TypeId} : f.store.cached? k = some id →
    ∃ t, f.object? id = some t ∧ f.store.cached? t.index = some id ∧ (k.uid = t.uid
      ∨ (f.graph.stream.forwardRef? k).isSome ∧ f.graph.stream.definition k = t.index)
  /-- The entries are those of the declarations that are new. -/
  declared (tag : TagDecl) : (∃ d, f.store.declarations.find? tag = some d)
    ↔ FreshTags.Declared f.store.system tag ∧ ¬ FreshTags.Declared system tag
  /-- An entry agrees with the type of its record, which has the declaration. -/
  entry {tag : TagDecl} {d : DeclStatus} : f.store.declarations.find? tag = some d →
    ∃ id t, f.store.cached? d.index = some id ∧ f.object? id = some t ∧ t.uid = d.index.uid
      ∧ t.state = d.state ∧ TypeSystem.tagOf? f.store.system t.handle = some tag
  underway : f.store.underway = []
  completing : f.store.completing = []
  /-- No two types have the same number. -/
  unique {i j : TypeId} {t u : TypeObject} : f.object? i = some t → f.object? j = some u →
    t.uid = u.uid → i = j

theorem Sound.consistent (hf : Sound system f) : Consistent system f where
  cached {k id} hk := by
    obtain ⟨t, ht, htarget⟩ := hf.store.cached hk
    refine ⟨t, ht, hf.store.object ht, ?_⟩
    by_cases h : f.graph.target k = k
    · exact .inl (by rw [TypeObject.uid, htarget, h])
    · have hdef : f.graph.target k = f.graph.stream.definition k :=
        if_neg fun hsimple => h (if_pos hsimple)
      rw [hdef] at h htarget
      exact .inr ⟨TypeStream.isSome_forwardRef? h, htarget.symm⟩
  declared tag := by
    rw [← Option.isSome_iff_exists, hf.store.declared]
    constructor
    · intro hentry
      refine ⟨.inr (.inl hentry), fun hold => ?_⟩
      rw [hf.store.entry_origin hold] at hentry
      exact nomatch hentry
    · rintro ⟨hold | hentry | hpending, hnew⟩
      exacts [absurd hold hnew, hentry, nomatch hpending]
  entry {tag d} hd := by
    obtain ⟨id, t, ht, hindex, hstate, htag⟩ := hf.store.entry hd
    exact ⟨id, t, hindex ▸ hf.store.object ht, ht, congrArg TypeIndex.uid hindex, hstate, htag⟩
  underway := hf.underway
  completing := hf.completing
  unique ht hu huid := hf.store.id_unique ht hu (TypeIndex.uid_inj huid)

omit [TypeSystem σ] [FreshTags σ] in
theorem graph_of_ofDatabase? {database : Database}
    (h : ofDatabase? demangler database system = some f) :
    f.graph.stream = database.types := by
  rw [ofDatabase?] at h
  split at h
  · exact nomatch h
  · exact Option.some.inj h ▸ rfl

omit [TypeSystem σ] [FreshTags σ] in
theorem store_of_ofDatabase? {database : Database}
    (h : ofDatabase? demangler database system = some f) :
    f.store = { system } := by
  rw [ofDatabase?] at h
  split at h
  · exact nomatch h
  · exact Option.some.inj h ▸ rfl

theorem sound_of_ofDatabase? {database : Database}
    (h : ofDatabase? demangler database system = some f) :
    Sound system f :=
  sound_of_new (store_of_ofDatabase? h)

/-- Requests look for types where they were looked for at first. -/
theorem stream_of_performAll? {database : Database} {f₀ : SymbolFile σ} {qs : List TypeRequest}
    (hopen : ofDatabase? demangler database system = some f₀) (hf : f₀.performAll? qs = some f) :
    f.graph.stream = database.types := by
  rw [((sound_of_ofDatabase? hopen).performAll? hf).1.graph, graph_of_ofDatabase? hopen]

theorem Leads.isSome {f? : Option (SymbolFile σ)} (h : Leads origin False f f?)
    (hends : f.graph.stream.ChainsEnd) : f?.isSome := by
  cases f? with
  | none => exact h.elim (absurd hends) fun h => h.1.elim
  | some f' => rfl

section
variable {database : Database} {f₀ : SymbolFile σ}
  (hopen : ofDatabase? demangler database system = some f₀)
  (hends : database.types.ChainsEnd)
include hopen hends

/-- Where chains of members end, requests have answers up to a completion that overflows, if there is
one. -/
theorem isSome_performAll?_or_overflows (qs : List TypeRequest) :
    (f₀.performAll? qs).isSome ∨ f₀.OverflowsDuring qs := by
  have hlead := (sound_of_ofDatabase? hopen).leads_performAll? qs
  cases hf : f₀.performAll? qs with
  | none =>
    rw [hf, Leads, graph_of_ofDatabase? hopen] at hlead
    exact .inr (hlead.resolve_left (not_not_intro hends)).1
  | some f => exact .inl rfl

theorem isSome_performAll? (hfit : database.types.PlacesFit) (qs : List TypeRequest) :
    (f₀.performAll? qs).isSome := by
  have hlead := (sound_of_ofDatabase? hopen).leads_performAll? qs
  cases hf : f₀.performAll? qs with
  | none =>
    rw [hf, Leads, graph_of_ofDatabase? hopen] at hlead
    exact absurd hfit (hlead.resolve_left (not_not_intro hends)).2
  | some f => rfl

end

/-- Where chains of members end, requests have answers up to a completion that overflows, and there is
none such if all data members have places that fit into a word. After any requests the types and their
declarations are consistent. -/
theorem performAll?_consistent {database : Database} {f₀ : SymbolFile σ}
    (hopen : ofDatabase? demangler database system = some f₀) (qs : List TypeRequest) :
    (database.types.ChainsEnd → ((f₀.performAll? qs).isSome ∨ f₀.OverflowsDuring qs)
      ∧ (database.types.PlacesFit → (f₀.performAll? qs).isSome))
    ∧ ∀ f, f₀.performAll? qs = some f → Consistent system f := by
  refine ⟨fun hends => ⟨isSome_performAll?_or_overflows hopen hends qs,
    fun hfit => isSome_performAll? hopen hends hfit qs⟩, fun f hf => ?_⟩
  have hqs := (sound_of_ofDatabase? hopen).leads_performAll? qs
  rw [hf] at hqs
  exact hqs.2.consistent

end SymbolFile

/-! A stream with a forward reference to a union, and its definition -/

/-- A stream on consecutive pages, from the start of an image on. -/
def PagedStream.ofBytes (bytes : Bytes) : PagedStream where
  image := (bytes ++ List.replicate 512 0).toArray
  pageSize := ⟨9⟩
  pages := List.range (PageSize.pagesFor ⟨9⟩ bytes.length)
  length := bytes.length
  pages_length := List.length_range

/-- A database with nothing but types. -/
def Database.ofTypes (types : TypeStream) : Database where
  container := ⟨#[], ⟨9⟩, 1, 0, []⟩
  options := {}
  info := ⟨0, 0, 0, none, []⟩
  debugInfo := .empty
  types := types
  items := .empty .items
  names := .empty
  globals := .empty
  sections := []
  modules := []

theorem Database.types_ofTypes (types : TypeStream) : (ofTypes types).types = types := rfl

theorem SymbolFile.stream_ofTypes {σ : Type} [TypeSystem σ] [FreshTags σ] {demangler : Demangler}
    {types : TypeStream} {system : σ} {f₀ f : SymbolFile σ} {qs : List TypeRequest}
    (hopen : ofDatabase? demangler (.ofTypes types) system = some f₀)
    (hf : f₀.performAll? qs = some f) : f.graph.stream = types :=
  (stream_of_performAll? hopen hf).trans (Database.types_ofTypes types)

theorem Database.nesting?_ofTypes {types : TypeStream} {nesting : Nesting}
    (h : types.nesting? = some nesting) : (ofTypes types).types.nesting? = some nesting := h

/-- The union is at `0x1001`, and a reference to it at `0x1000`. -/
def unionTypes : TypeStream :=
  let header : Bytes := [0x0b, 0xca, 0x31, 0x01, 56, 0, 0, 0, 0, 0x10, 0, 0, 2, 0x10, 0, 0, 32, 0, 0, 0]
  let reference : Bytes := [14, 0, 0x06, 0x15, 0, 0, 0x80, 0, 0, 0, 0, 0, 0, 0, 0x55, 0]
  let definition : Bytes := [14, 0, 0x06, 0x15, 0, 0, 0, 0, 0, 0, 0, 0, 4, 0, 0x55, 0]
  let bytes := header ++ List.replicate 36 0 ++ reference ++ definition
  match TypeStream.parse .types (.ofBytes bytes) with
  | .ok s => s
  | .error _ => .empty .types

namespace SymbolFile

theorem chainsEnd_unionTypes : unionTypes.ChainsEnd :=
  TypeStream.chainsEnd_of_nextList?_eq_none (by decide +kernel)

theorem placesFit_unionTypes : unionTypes.PlacesFit :=
  TypeStream.placesFit_of_indexes (by decide +kernel)

theorem performAll?_consistent_union : ∃ f₀ f,
    ofDatabase? Decorated.demangler (.ofTypes unionTypes) {} = some f₀
    ∧ f₀.performAll? [.typeOf ⟨0x1000⟩ false, .complete 0, .typeOf ⟨0x1001⟩ false] = some f
    ∧ Consistent ({} : TypeModel) f := by
  have hfile : (ofDatabase? Decorated.demangler (.ofTypes unionTypes) ({} : TypeModel)).isSome := by
    decide +kernel
  obtain ⟨f₀, hopen⟩ := Option.isSome_iff_exists.1 hfile
  have hends := chainsEnd_unionTypes
  have hfit := placesFit_unionTypes
  rw [← Database.types_ofTypes unionTypes] at hends hfit
  obtain ⟨hanswered, hconsistent⟩ := performAll?_consistent hopen
    [.typeOf ⟨0x1000⟩ false, .complete 0, .typeOf ⟨0x1001⟩ false]
  obtain ⟨f, hf⟩ := Option.isSome_iff_exists.1 ((hanswered hends).2 hfit)
  exact ⟨f₀, f, hopen, hf, hconsistent f hf⟩

end SymbolFile
end Pdb
