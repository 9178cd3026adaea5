import Pdb.Globals
import Pdb.Proofs.RecordWalk
import Pdb.Table

/-! # Symbols by offset and by name

The symbols of a stream are found in two ways: in a row, from bytes that are read as a whole, and by
offset, for which the length of one record is read and then that record. Nothing is asked of the pages
but that the whole can be read (`Globals.exists_spans`). A pass over the symbols collects the offsets
for each name (`Globals.nameIndex`), and what it has collected for a name ascends. Main statement:
`records_reread`.
-/

namespace Pdb

namespace RawRecord
variable {bs rest : Bytes} {r : RawRecord}

theorem withOffsets_ascending {base : UInt32} (hword : base.toNat + bs.length < 2 ^ 32) :
    (withOffsets base (walk bs).1).Pairwise fun p q => p.1 < q.1 := by
  induction bs using walk_induct generalizing base with
  | stop bs hnone => rw [walk_of_decode_eq_none hnone]; exact .nil
  | record bs r rest hr ih =>
    have hlength := length_of_decode hr
    have hsize : 0 < r.size := Nat.succ_pos _
    have hnext := toNat_add_size hword hr
    rw [walk_of_decode hr, withOffsets]
    refine List.pairwise_cons.2 ⟨fun q hq => ?_, ih (by omega)⟩
    obtain ⟨k, hoffset, -, -⟩ := first?_of_mem_withOffsets (by omega) hq
    show base < q.1
    exact UInt32.lt_iff_toNat_lt.2 (by omega)

end RawRecord

namespace Globals
open RawRecord
variable {g : Globals} {rs : List (UInt32 × RawRecord)} {p : UInt32 × RawRecord} {name : Bytes}

/-- The symbols are those of the bytes of a stream, from its start to its end. -/
theorem exists_spans (h : g.records = .ok rs) : rs = [] ∨ ∃ s bs, g.stream? = some s
    ∧ s.Spans 0 s.length bs ∧ rs = withOffsets 0 (walk bs).1 := by
  unfold records at h
  split at h
  · cases h
    exact .inl rfl
  · next s hs =>
    obtain ⟨bs, hbytes, h⟩ := exists_of_bind_eq_ok h
    cases h
    have hread : s.read 0 (s.length - 0) = .ok bs := ok_of_mapError hbytes
    obtain ⟨-, hword⟩ := PagedStream.length_read hread
    exact .inr ⟨s, bs, hs, ⟨Nat.zero_le _, by omega, hread⟩, rfl⟩

theorem recordAt_of_spans {s : PagedStream} {pos : Nat} {bs rest : Bytes} {r : RawRecord}
    (hs : g.stream? = some s) (h : s.Spans pos s.length bs) (hr : decode bs = some (r, rest)) :
    g.recordAt pos = .ok r := by
  have hlength := length_of_decode hr
  have hsize := size_of_decode hr
  have hcopy : s.copy pos 2 = .ok (bs.take 2) := h.copy_eq (by omega)
  have hread : s.read pos (Bytes.leNat (bs.take 2) + 2) = .ok (bs.take r.size) := by
    rw [Nat.add_comm, ← show frame bs = Bytes.leNat (bs.take 2) from rfl, ← hsize,
      PagedStream.read_eq_copy, h.copy_eq (by omega)]
  unfold recordAt
  simp only [hs, hcopy, hread, first?_take_size hr, Except.mapError, bind, Except.bind]
  rfl

theorem recordAt_of_mem (h : g.records = .ok rs) (hp : p ∈ rs) : g.recordAt p.1.toNat = .ok p.2 := by
  rcases exists_spans h with rfl | ⟨s, bs, hs, hspans, rfl⟩
  · exact absurd hp List.not_mem_nil
  have hlength := hspans.length_eq
  have hstop := hspans.stop_lt
  have hword : (0 : UInt32).toNat + bs.length < 2 ^ 32 := by
    rw [UInt32.toNat_zero]
    omega
  obtain ⟨k, hoffset, hk, hfirst⟩ := first?_of_mem_withOffsets hword hp
  obtain ⟨⟨r, rest⟩, hr, hp⟩ := Option.map_eq_some_iff.1 hfirst
  dsimp only at hp
  have hpos : p.1.toNat = 0 + k := hoffset
  rw [hpos, ← hp]
  exact recordAt_of_spans hs (hspans.drop hk) hr

/-! ### Names -/

/-- The offsets of the symbols with each name. -/
abbrev NameIndex := Table Bytes (List UInt32)

/-- The offset of a symbol goes behind those with the same name. -/
def enter (index : NameIndex) (p : UInt32 × RawRecord) : NameIndex :=
  match nameOf? p.2 with
  | none => index
  | some name => index.insert name ((index.find? name).getD [] ++ [p.1])

def nameIndex (rs : List (UInt32 × RawRecord)) : NameIndex := rs.foldl enter .empty

theorem find?_enter (index : NameIndex) (p : UInt32 × RawRecord) (name : Bytes) :
    ((enter index p).find? name).getD []
      = (index.find? name).getD [] ++ if nameOf? p.2 = some name then [p.1] else [] := by
  unfold enter
  split
  · next hnone => simp [hnone]
  · next found hfound =>
    rw [Table.find?_insert, hfound]
    by_cases hname : name = found
    · simp [hname]
    · simp [hname, Ne.symm hname]

theorem find?_foldl_enter (rs : List (UInt32 × RawRecord)) (index : NameIndex) (name : Bytes) :
    ((rs.foldl enter index).find? name).getD [] = (index.find? name).getD []
      ++ (rs.filter fun p => nameOf? p.2 = some name).map (·.1) := by
  induction rs generalizing index with
  | nil => simp
  | cons p rs ih =>
    rw [List.foldl_cons, ih, find?_enter, List.append_assoc, List.filter_cons]
    by_cases hname : nameOf? p.2 = some name <;> simp [hname]

theorem find_eq_nameIndex (h : g.records = .ok rs) (name : Bytes) :
    g.find name = ((nameIndex rs).find? name).getD [] := by
  rw [nameIndex, find?_foldl_enter, Table.find?_empty, find, h]
  rfl

theorem nameOf?_eq_some_iff {r : RawRecord} : nameOf? r = some name
    ↔ isNamed r.symbolKind ∧ ∃ symbol, r.symbol? = some symbol ∧ symbol.name? = some name := by
  unfold nameOf?
  split
  · next hnamed => simp [hnamed, Option.bind_eq_some_iff]
  · next hnot => simp [hnot]

theorem mem_find_iff (h : g.records = .ok rs) {offset : UInt32} : offset ∈ g.find name
    ↔ ∃ r symbol, (offset, r) ∈ rs ∧ isNamed r.symbolKind ∧ r.symbol? = some symbol
      ∧ symbol.name? = some name := by
  unfold find
  rw [h]
  simp only [List.mem_map, List.mem_filter, decide_eq_true_eq, nameOf?_eq_some_iff]
  constructor
  · rintro ⟨⟨_, r⟩, ⟨hmem, hnamed, symbol, hsymbol, hname⟩, rfl⟩
    exact ⟨r, symbol, hmem, hnamed, hsymbol, hname⟩
  · rintro ⟨r, symbol, hmem, hnamed, hsymbol, hname⟩
    exact ⟨(offset, r), ⟨hmem, hnamed, symbol, hsymbol, hname⟩, rfl⟩

theorem find_ascending (h : g.records = .ok rs) (name : Bytes) : (g.find name).Pairwise (· < ·) := by
  have hascending : rs.Pairwise fun p q => p.1 < q.1 := by
    rcases exists_spans h with rfl | ⟨s, bs, -, hspans, rfl⟩
    · exact .nil
    · have hlength := hspans.length_eq
      have hstop := hspans.stop_lt
      exact withOffsets_ascending (by rw [UInt32.toNat_zero]; omega)
  unfold find
  rw [h]
  exact List.pairwise_map.2 (hascending.filter _)

end Globals

/-- Symbols that have been found in a row are read again by their offsets, those of a database as
those of a module. By a name the offsets of the symbols of a named kind with that name are found, in
ascending order, which are those that one pass over the symbols has collected for it. -/
theorem records_reread :
    (∀ (g : Globals) rs, g.records = .ok rs →
      (∀ p ∈ rs, g.recordAt p.1.toNat = .ok p.2)
      ∧ ∀ name, (g.find name).Pairwise (· < ·)
        ∧ (∀ offset, offset ∈ g.find name ↔ ∃ r symbol, (offset, r) ∈ rs
          ∧ Globals.isNamed r.symbolKind ∧ r.symbol? = some symbol ∧ symbol.name? = some name)
        ∧ g.find name = ((Globals.nameIndex rs).find? name).getD [])
    ∧ ∀ (d : ModuleDescriptor) s m rs, ModuleStream.new d s = .ok m → m.records = .ok rs →
      ∀ p ∈ rs, m.recordAt p.1.toNat = .ok p.2 := by
  constructor
  · intro g rs h
    refine ⟨fun p hp => Globals.recordAt_of_mem h hp, fun name => ?_⟩
    exact ⟨Globals.find_ascending h name, fun offset => Globals.mem_find_iff h,
      Globals.find_eq_nameIndex h name⟩
  · intro d s m rs _ h p hp
    exact ModuleStream.recordAt_of_mem h hp

/-- An end record, which may as well be the signature of a module, a variable, a constant, a public
symbol and a reference to a function, on two pages in reverse order. -/
def scatteredSymbols : PagedStream :=
  let records : List RawRecord := [⟨0x0006, []⟩,
    ⟨0x110d, [0x74, 0, 0, 0, 0x10, 0, 0, 0, 1, 0, 0x67, 0]⟩,
    ⟨0x1107, [0x74, 0, 0, 0, 0, 0x80, 0xd6, 0x6b, 0x41, 0x6e, 0x73, 0x77, 0x65, 0x72, 0, 0xf1]⟩,
    ⟨0x110e, [0, 0, 0, 0, 0x10, 0, 0, 0, 1, 0, 0x67, 0]⟩,
    ⟨0x1125, [0, 0, 0, 0, 0x40, 0, 0, 0, 1, 0, 0x67, 0]⟩]
  let bs := records.flatMap RawRecord.encode
  ⟨⟨bs.drop 64 ++ List.replicate 56 0 ++ bs.take 64⟩, ⟨6⟩, [1, 0], 72, by decide⟩

/-- The reference lies on both pages. -/
theorem records_reread_scattered :
    let g : Globals := ⟨some scatteredSymbols⟩
    let reference : RawRecord := ⟨0x1125, [0, 0, 0, 0, 0x40, 0, 0, 0, 1, 0, 0x67, 0]⟩
    g.recordAt 56 = .ok reference ∧ g.find [0x67] = [4, 56]
    ∧ ∃ m, ModuleStream.new { (default : ModuleDescriptor) with symbolBytes := 72 } scatteredSymbols = .ok m
      ∧ m.recordAt 56 = .ok reference := by
  intro g reference
  have hrecords : (g.records.toOption.map fun rs => (rs.map (·.1), rs[4]?))
      = some ([0, 4, 20, 40, 56], some (56, reference)) := by decide +kernel
  have hmodule : (ModuleStream.new { (default : ModuleDescriptor) with symbolBytes := 72 }
      scatteredSymbols).toOption.map (fun m => m.records.toOption.map (·[3]?))
      = some (some (some (56, reference))) := by decide +kernel
  have hindex : g.records.toOption.map (fun rs => ((Globals.nameIndex rs).find? [0x67]).getD [])
      = some [4, 56] := by decide +kernel
  obtain ⟨rs, hrs, hlast⟩ := Option.map_eq_some_iff.1 hrecords
  obtain ⟨m, hm, hsymbols⟩ := Option.map_eq_some_iff.1 hmodule
  obtain ⟨rs', hrs', hlast'⟩ := Option.map_eq_some_iff.1 hsymbols
  rw [hrs, Option.map_some, Option.some.injEq] at hindex
  obtain ⟨hreread, hnames⟩ := records_reread.1 g rs (ok_of_toOption hrs)
  refine ⟨hreread _ (List.mem_of_getElem? (Prod.mk.inj hlast).2), ?_, m, ok_of_toOption hm, ?_⟩
  · exact (hnames _).2.2.trans hindex
  · exact records_reread.2 _ _ m rs' (ok_of_toOption hm) (ok_of_toOption hrs') _
      (List.mem_of_getElem? hlast')

end Pdb
