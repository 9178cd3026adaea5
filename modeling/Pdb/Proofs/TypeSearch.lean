import Mathlib.Data.List.ReduceOption
import Pdb.Proofs.ForwardReference
import Pdb.Proofs.NameLookup

/-! # Searching for types by name

The records with a name are asked for one after another, and each type is kept once (`gather`). What
is kept after some of them are the answers so far without repetitions, so a search that stops early
has found the first types of one that does not (`Asked.exists_gather`). An answer does not change
later, so it is the one that is given after the search: `typesNamed_distinct`.
-/

namespace List
variable {α : Type} [BEq α] [LawfulBEq α] {a : α} {as bs : List α}

theorem nodup_eraseDups (as : List α) : as.eraseDups.Nodup := by
  induction as using reverseRecOn with
  | nil => exact nodup_nil
  | append_singleton as a ih =>
    rw [eraseDups_append]
    by_cases ha : a ∈ as
    · simpa [removeAll, ha] using ih
    · simpa [removeAll, ha, nodup_append, eraseDups_cons] using ⟨ih, fun b hb heq => ha (heq ▸ hb)⟩

end List

namespace Pdb

/-- What holds of a type stream that has been parsed holds of that of any database that has been read: if
the stream is missing, an empty one has been parsed. -/
theorem Database.exists_parse_types {image : Array UInt8} {options : OpenOptions} {d : Database}
    (h : Database.parse image options = .ok d) : ∃ stream, TypeStream.parse .types stream = .ok d.types := by
  obtain ⟨c, -, h⟩ := exists_of_bind_eq_ok h
  obtain ⟨_, -, h⟩ := exists_of_bind_eq_ok h
  obtain ⟨_, -, h⟩ := exists_of_bind_eq_ok h
  obtain ⟨_, -, h⟩ := exists_of_bind_eq_ok h
  obtain ⟨unscanned, hopen, h⟩ := exists_of_bind_eq_ok h
  iterate 5 obtain ⟨_, -, h⟩ := exists_of_bind_eq_ok h
  obtain ⟨types, hscan, h⟩ := exists_of_bind_eq_ok h
  obtain ⟨_, -, h⟩ := exists_of_bind_eq_ok h
  have heq : d.types = types := Except.ok.inj h ▸ rfl
  obtain ⟨stream?, -, hopen⟩ := exists_of_bind_eq_ok hopen
  have hparse : ∃ stream, UnscannedTypes.parse .types stream = .ok unscanned := by
    cases stream? with
    | some stream => exact ⟨stream, hopen⟩
    | none => exact ⟨.ofBytes [], hopen⟩
  obtain ⟨stream, hparse⟩ := hparse
  refine ⟨stream, ?_⟩
  rw [heq, TypeStream.parse, hparse]
  exact hscan

namespace SymbolFile
open TypeGraph TypeSystem
variable {σ : Type} [TypeSystem σ] {demangler : Demangler} {origin : σ} {f f₁ f' : SymbolFile σ}
  {ti : TypeIndex} {tis : List TypeIndex} {r : Option TypeId} {rs : List (Option TypeId)} {found : List TypeId}
  {limit : Nat}

/-- The type of the record at `ti`, for one who asks for it. -/
def answer? (f : SymbolFile σ) (ti : TypeIndex) : Option TypeId := (f.typeOf ti false).bind (·.1)

/-- The records at `tis` are asked for one after another, with the answers `rs`. -/
inductive Asked : SymbolFile σ → List TypeIndex → List (Option TypeId) → SymbolFile σ → Prop
  | nil (f : SymbolFile σ) : Asked f [] [] f
  | cons {f f₁ f' : SymbolFile σ} {ti : TypeIndex} {tis : List TypeIndex} {r : Option TypeId}
    {rs : List (Option TypeId)} : f.typeOf ti false = some (r, f₁) → Asked f₁ tis rs f' →
    Asked f (ti :: tis) (r :: rs) f'

/-! ### What is kept -/

theorem run_gather_nil : f.run (gather f.graph limit found []) = some (some found, f) := rfl

/-- One more record is asked for, unless there are types enough. -/
theorem run_gather_cons : f.run (gather f.graph limit found (ti :: tis))
    = if limit ≠ 0 ∧ limit ≤ found.length then some (some found, f)
      else (f.typeOf ti false).bind fun (id?, f₁) =>
        f₁.run (gather f.graph limit (found ++ (id?.filter (!found.contains ·)).toList) tis) := by
  rw [gather]
  split
  · rfl
  · rw [run, Creation.runOn_bind, typeOf, if_neg Bool.false_ne_true, run]
    show Option.map _ (Except.bind (((f.graph.get ti).runOn f.store).map fun r => (some r.1, r.2))
      _).toOption = _
    rcases (f.graph.get ti).runOn f.store with _ | ⟨id?, s⟩ <;> rfl

theorem graph_of_typeOf (h : f.typeOf ti false = some (r, f₁)) : f₁.graph = f.graph := by
  rw [typeOf, if_neg Bool.false_ne_true, run] at h
  obtain ⟨p, -, heq⟩ := Option.map_eq_some_iff.1 h
  cases heq
  rfl

/-- An answer is kept if it is not there yet. -/
theorem keep_eraseDups (done : List TypeId) (id? : Option TypeId) :
    done.eraseDups ++ (id?.filter (!done.eraseDups.contains ·)).toList
      = (done ++ id?.toList).eraseDups := by
  cases id? with
  | none => simp
  | some id =>
    rw [List.eraseDups_append]
    by_cases hid : id ∈ done <;> simp [List.removeAll, Option.filter_some, List.eraseDups_cons, hid]

namespace Asked

theorem performAll? (h : Asked f tis rs f') : f.performAll? (tis.map (.typeOf · false)) = some f' := by
  induction h with
  | nil f => rfl
  | cons hr _ ih =>
    rw [List.map_cons, SymbolFile.performAll?, List.foldlM_cons, perform?, hr]
    exact ih

theorem run_gather (h : Asked f tis rs f') (done : List TypeId) : f.run (gather f.graph 0 done.eraseDups tis)
    = some (some (done ++ rs.reduceOption).eraseDups, f') := by
  induction h generalizing done with
  | nil f => rw [run_gather_nil, List.reduceOption_nil, List.append_nil]
  | @cons f f₁ f' ti tis r rs hr _ ih =>
    rw [run_gather_cons, if_neg (fun h => h.1 rfl), hr, Option.bind_some]
    dsimp only
    rw [keep_eraseDups, ← graph_of_typeOf hr, ih]
    cases r <;> simp

/-- A search for no more than `limit` types finds the first ones of all. -/
theorem exists_gather (h : Asked f tis rs f') (hlimit : limit ≠ 0) {done : List TypeId}
    (hle : done.eraseDups.length ≤ limit) : ∃ f'', f.run (gather f.graph limit done.eraseDups tis)
      = some (some ((done ++ rs.reduceOption).eraseDups.take limit), f'') := by
  induction h generalizing done with
  | nil f =>
    refine ⟨f, ?_⟩
    rw [run_gather_nil, List.reduceOption_nil, List.append_nil, List.take_of_length_le hle]
  | @cons f f₁ f' ti tis r rs hr _ ih =>
    rw [run_gather_cons]
    split_ifs with hfull
    · have hlength : done.eraseDups.length = limit := Nat.le_antisymm hle hfull.2
      exact ⟨f, by rw [List.eraseDups_append, ← hlength, List.take_left]⟩
    · have hmore : (done ++ r.toList).eraseDups.length ≤ limit := by
        have hr : (r.filter (!done.eraseDups.contains ·)).toList.length ≤ 1 := Option.length_toList_le
        rw [← keep_eraseDups, List.length_append]
        omega
      obtain ⟨f'', hrun⟩ := ih hmore
      refine ⟨f'', ?_⟩
      rw [hr, Option.bind_some]
      dsimp only
      rw [keep_eraseDups, ← graph_of_typeOf hr, hrun]
      cases r <;> simp

end Asked

/-- A search without a limit asks for all records. -/
theorem exists_asked {ids? : Option (List TypeId)}
    (h : f.run (gather f.graph 0 found tis) = some (ids?, f')) : ∃ rs, Asked f tis rs f' := by
  induction tis generalizing f found with
  | nil =>
    cases h
    exact ⟨[], .nil f⟩
  | cons ti tis ih =>
    rw [run_gather_cons, if_neg (fun h => h.1 rfl)] at h
    obtain ⟨⟨r, f₁⟩, hr, h⟩ := Option.bind_eq_some_iff.1 h
    obtain ⟨rs, hrs⟩ := ih (graph_of_typeOf hr ▸ h)
    exact ⟨r :: rs, .cons hr hrs⟩

theorem exists_asked_of_typesNamed {name : Bytes} {ids : List TypeId}
    (h : f.typesNamed name 0 = some (ids, f')) :
    ∃ rs, Asked f (f.database.types.find name) rs f' ∧ ids = rs.reduceOption.eraseDups := by
  obtain ⟨⟨ids?, _⟩, hrun, heq⟩ := Option.map_eq_some_iff.1 h
  cases heq
  obtain ⟨rs, hasked⟩ := exists_asked hrun
  obtain ⟨rfl, -⟩ := Prod.mk.inj (Option.some.inj (hrun.symm.trans (hasked.run_gather [])))
  exact ⟨rs, hasked, rfl⟩

theorem Asked.exists_typesNamed {name : Bytes} (h : Asked f (f.database.types.find name) rs f')
    (hlimit : limit ≠ 0) :
    ∃ f'', f.typesNamed name limit = some (rs.reduceOption.eraseDups.take limit, f'') := by
  obtain ⟨f'', hrun⟩ := @Asked.exists_gather _ _ _ _ _ _ _ h hlimit [] (Nat.zero_le limit)
  refine ⟨f'', ?_⟩
  rw [typesNamed, show f.run (gather f.graph limit [] _) = _ from hrun]
  rfl

/-! ### Answers stay the same -/

section
variable [FreshTags σ] {qs : List TypeRequest}

omit [FreshTags σ] in
theorem answer?_of_cached {id : TypeId} (h : f.store.cached? ti = some id) : f.answer? ti = some id := by
  rw [answer?, typeOf_of_cached h]
  rfl

/-- An answer is found in the store, and is given again whatever has been asked for since then. -/
theorem Sound.answer?_eq (hf : Sound origin f) (hfixed : BasicsFixed origin)
    (hr : f.typeOf ti false = some (r, f₁)) (hqs : f₁.performAll? qs = some f') :
    f'.answer? ti = r ∧ f'.store.cached? ti = r := by
  obtain ⟨-, hf₁, hgot⟩ := hf.typeOf hr
  have hlater := (hf₁.performAll? hqs).1
  cases r with
  | some id =>
    have hid : f'.store.cached? ti = some id := hlater.store.cached hgot
    exact ⟨answer?_of_cached hid, hid⟩
  | none =>
    have hnone : f'.answer? ti = none := by
      rw [answer?]
      cases hr' : f'.typeOf ti false with
      | none => rfl
      | some p => exact (hf.typeOf_eq_of_target hfixed rfl rfl hr hqs hr').1.symm
    refine ⟨hnone, Option.eq_none_iff_forall_ne_some.2 fun id hid => ?_⟩
    exact nomatch hnone.symm.trans (answer?_of_cached hid)

theorem Asked.eq_map (h : Asked f tis rs f') (hf : Sound origin f) (hfixed : BasicsFixed origin) :
    rs = tis.map f'.answer? ∧ rs = tis.map f'.store.cached? := by
  induction h with
  | nil f => exact ⟨rfl, rfl⟩
  | cons hr hrest ih =>
    obtain ⟨hanswer, hcached⟩ := hf.answer?_eq hfixed hr hrest.performAll?
    obtain ⟨hanswers, hall⟩ := ih (hf.typeOf hr).2.1
    exact ⟨by rw [List.map_cons, hanswer, ← hanswers], by rw [List.map_cons, hcached, ← hall]⟩

theorem Sound.isSome_answer?_iff (hf : Sound origin f) (hfixed : BasicsFixed origin)
    (hends : f.graph.stream.ChainsEnd) :
    (f.answer? ti).isSome ↔ ∃ n, f.graph.HasSize (MustHave origin) ti n := by
  have hlead := (hf.leads_typeOf ti false).isSome hends
  obtain ⟨⟨id?, f'⟩, hget⟩ := Option.isSome_iff_exists.1 (Option.isSome_map.symm.trans hlead)
  rw [← hf.isSome_typeOf hfixed hget, answer?, hget, Option.bind_some]

/-- A search without a limit finds the types of all records with the name that have one, in the order of
the records, and each type once. A search with a limit, from the same types made before, finds the first
of these. -/
theorem typesNamed_distinct {stream : PagedStream} {database : Database} {system : σ}
    {f₀ : SymbolFile σ} (hparse : TypeStream.parse .types stream = .ok database.types)
    (hopen : ofDatabase? demangler database system = some f₀) (hfixed : BasicsFixed system)
    (hf : f₀.performAll? qs = some f) (name : Bytes) :
    (∀ ti, ti ∈ database.types.find name
      ↔ (∃ t, database.types.type? ti = some t ∧ t.tagName? = some name) ∧ database.types.Visible ti)
    ∧ Ascending (database.types.find name)
    ∧ (database.types.ChainsEnd → ∀ limit, (f.typesNamed name limit).isSome)
    ∧ ∀ ids f', f.typesNamed name 0 = some (ids, f') →
      ids.Nodup ∧ ids = ((database.types.find name).filterMap f'.answer?).eraseDups
      ∧ (∀ ti ∈ database.types.find name, ∀ id, f'.answer? ti = some id →
        ∃ t, f'.object? id = some t ∧ t.index = f.graph.target ti)
      ∧ (database.types.ChainsEnd → ∀ ti, (f'.answer? ti).isSome = (f.answer? ti).isSome)
      ∧ ∀ limit, limit ≠ 0 → ∃ f'', f.typesNamed name limit = some (ids.take limit, f'') := by
  have hsound := ((sound_of_ofDatabase? hopen).performAll? hf).2
  have hgraph := stream_of_performAll? hopen hf
  have hdatabase : f.database.types = database.types := f.graph_eq.symm.trans hgraph
  refine ⟨fun _ => TypeStream.mem_find_iff hparse, TypeStream.ascending_find hparse name,
    fun hends limit => ?_, fun ids f' h => ?_⟩
  · exact Option.isSome_map.symm.trans
      ((hsound.leads_perform? (.typesNamed name limit)).isSome (hgraph.symm ▸ hends))
  · obtain ⟨rs, hasked, rfl⟩ := exists_asked_of_typesNamed h
    have hlimited (limit : Nat) (hlimit : limit ≠ 0) := hasked.exists_typesNamed hlimit
    rw [hdatabase] at hasked
    obtain ⟨hanswers, hcached⟩ := hasked.eq_map hsound hfixed
    obtain ⟨hlater', hsound'⟩ := hsound.performAll? hasked.performAll?
    refine ⟨List.nodup_eraseDups _, ?_, fun ti hti id hid => ?_, fun hends ti => ?_, hlimited⟩
    · rw [hanswers, List.reduceOption, List.filterMap_map]
      rfl
    · rw [List.map_inj_left.1 (hanswers.symm.trans hcached) ti hti] at hid
      obtain ⟨t, ht, hindex⟩ := hsound'.store.cached hid
      exact ⟨t, ht, hlater'.graph ▸ hindex⟩
    · have hends' : f.graph.stream.ChainsEnd := hgraph.symm ▸ hends
      rw [Bool.eq_iff_iff, hsound.isSome_answer?_iff hfixed hends',
        hsound'.isSome_answer?_iff hfixed (hlater'.graph.symm ▸ hends'), hlater'.graph]

end

end SymbolFile

/-! ### Types with one name -/

/-- A reference to a union is at `0x1000`, and unions with its name are at `0x1001` and `0x1003`. There is
no type for the enumeration at `0x1002`, which has no integers. -/
def sameNames : TypeList :=
  let name := Text.utf8 "S"
  let (_, t) := TypeList.addUnion {} name none .none 0 true
  let (_, t) := t.addUnion name none .none 1 false
  let (_, t) := t.addEnum name none .none .none false
  (t.addUnion name none .none 2 false).2

namespace SymbolFile

theorem typesNamed_distinct_same : ∃ (s : TypeStream) (f₀ f' f'' : SymbolFile TypeModel),
    TypeStream.parse .types (.ofBytes sameNames.encode) = .ok s
      ∧ ofDatabase? Decorated.demangler (.ofTypes s) {} = some f₀ ∧ f₀.performAll? [] = some f₀
      ∧ s.find (Text.utf8 "S") = [⟨0x1000⟩, ⟨0x1001⟩, ⟨0x1002⟩, ⟨0x1003⟩]
      ∧ f₀.typesNamed (Text.utf8 "S") 0 = some ([0, 1], f')
      ∧ [0, 1] = ((s.find (Text.utf8 "S")).filterMap f'.answer?).eraseDups
      ∧ f₀.typesNamed (Text.utf8 "S") 1 = some ([0], f'') := by
  have hrun : (TypeStream.parse .types (.ofBytes sameNames.encode)).toOption.bind (fun s =>
      (ofDatabase? Decorated.demangler (.ofTypes s) ({} : TypeModel)).bind fun f₀ =>
        (f₀.typesNamed (Text.utf8 "S") 0).map fun p => (p.1, s.find (Text.utf8 "S")))
        = some ([0, 1], [⟨0x1000⟩, ⟨0x1001⟩, ⟨0x1002⟩, ⟨0x1003⟩]) := by
    decide +kernel
  obtain ⟨s, hs, hrun⟩ := Option.bind_eq_some_iff.1 hrun
  obtain ⟨f₀, hopen, hrun⟩ := Option.bind_eq_some_iff.1 hrun
  obtain ⟨⟨ids, f'⟩, hfound, heq⟩ := Option.map_eq_some_iff.1 hrun
  obtain ⟨rfl, hfind⟩ := Prod.mk.inj heq
  obtain ⟨-, -, -, hsearch⟩ := typesNamed_distinct (ok_of_toOption hs) hopen (fun _ _ _ => rfl)
    (show f₀.performAll? [] = some f₀ from rfl) (Text.utf8 "S")
  obtain ⟨-, hids, -, -, hlimited⟩ := hsearch _ _ hfound
  obtain ⟨f'', hfirst⟩ := hlimited 1 (by decide)
  exact ⟨s, f₀, f', f'', ok_of_toOption hs, hopen, rfl, hfind, hfound, hids, hfirst⟩

end SymbolFile

/-- Two unions with one name, and between them a record on a page that the image does not have. -/
def lostBetween : PagedStream :=
  let one := (TypeList.addUnion {} (Text.utf8 "S") none .none 1 false).2
  let two := (TypeList.addUnion {} (Text.utf8 "S") none .none 2 false).2
  let header : TypeStreamHeader := ⟨TypeStreamHeader.currentVersion, 56, ⟨0x1000⟩, ⟨0x1003⟩, 984⟩
  let first := header.encode ++ List.replicate 36 0 ++ one.recordBytes
    ++ [0xb6, 0x03, 0x06, 0x15] ++ List.replicate 436 0
  ⟨⟨first ++ two.recordBytes ++ List.replicate 496 0⟩, ⟨9⟩, [0, 3, 1], 1040, by decide⟩

namespace SymbolFile

/-- The second union has the name and a type, which is not found. -/
theorem typesNamed_hidden : ∃ (s : TypeStream) (f₀ f' : SymbolFile TypeModel) (ids : List TypeId)
    (id : TypeId), TypeStream.parse .types lostBetween = .ok s
      ∧ ofDatabase? Decorated.demangler (.ofTypes s) {} = some f₀
      ∧ (s.type? ⟨0x1002⟩).bind TypeRecord.tagName? = some (Text.utf8 "S")
      ∧ f₀.typesNamed (Text.utf8 "S") 0 = some (ids, f')
      ∧ f'.answer? ⟨0x1002⟩ = some id ∧ id ∉ ids := by
  have hrun : (TypeStream.parse .types lostBetween).toOption.bind (fun s =>
      (ofDatabase? Decorated.demangler (.ofTypes s) ({} : TypeModel)).bind fun f₀ =>
        (f₀.typesNamed (Text.utf8 "S") 0).bind fun p => (p.2.answer? ⟨0x1002⟩).map fun id =>
          (p.1, id, (s.type? ⟨0x1002⟩).bind TypeRecord.tagName?))
        = some ([0], 1, some (Text.utf8 "S")) := by
    decide +kernel
  obtain ⟨s, hs, hrun⟩ := Option.bind_eq_some_iff.1 hrun
  obtain ⟨f₀, hopen, hrun⟩ := Option.bind_eq_some_iff.1 hrun
  obtain ⟨⟨ids, f'⟩, hfound, hrun⟩ := Option.bind_eq_some_iff.1 hrun
  obtain ⟨id, hid, heq⟩ := Option.map_eq_some_iff.1 hrun
  obtain ⟨rfl, rfl, hname⟩ := by simpa only [Prod.mk.injEq] using heq
  exact ⟨s, f₀, f', [0], 1, ok_of_toOption hs, hopen, hname, hfound, hid, by decide⟩

end SymbolFile
end Pdb
