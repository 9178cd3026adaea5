import Mathlib.Data.List.Perm.Basic
import Pdb.Proofs.Relocation
import Pdb.Proofs.SortedLookup

/-! # Which module is at an address

The last range that starts at or below an address decides which module is there. It may be the wrong
one where ranges overlap. Where no two of them have an address in common there is at most one range
around an address, and everything that starts at or below the address starts in front of it
(`AddressRange.moduleIn?_of_contains`), so the order in which the ranges were listed, and whether the
sort keeps it, does not matter: `Database.moduleAt?_iff_occupied`. -/

namespace Pdb

namespace AddressRange
variable {rs : List AddressRange} {r r' : AddressRange} {a : UInt64} {module : UInt16}

theorem contains_start (h : 0 < r.size) : r.contains r.start :=
  contains_iff.2 ⟨UInt64.le_refl _, Nat.lt_add_of_pos_right h⟩

/-- No address is in two ranges of the list. -/
def Apart (rs : List AddressRange) : Prop :=
  rs.Pairwise fun r r' => ∀ a, ¬ (r.contains a ∧ r'.contains a)

theorem Apart.perm {rs' : List AddressRange} (h : Apart rs) (hperm : rs.Perm rs') : Apart rs' :=
  (hperm.pairwise_iff fun hapart a ha => hapart a ha.symm).1 h

theorem moduleIn?_of_contains (hsorted : rs.Pairwise (·.start ≤ ·.start)) (hapart : Apart rs)
    (hsize : ∀ r ∈ rs, 0 < r.size) (hr : r ∈ rs) (ha : r.contains a) :
    moduleIn? rs a = some r.module := by
  have hfilter : rs.takeWhile (·.start ≤ a) = rs.filter (·.start ≤ a) := by
    refine takeWhile_eq_filter (hsorted.imp fun hle hy => ?_)
    rw [decide_eq_true_eq] at hy ⊢
    exact UInt64.le_trans hle hy
  have hbelow : r ∈ rs.filter (·.start ≤ a) :=
    List.mem_filter.2 ⟨hr, decide_eq_true (contains_iff.1 ha).1⟩
  cases hlast : (rs.filter (·.start ≤ a)).getLast? with
  | none =>
    rw [List.getLast?_eq_none_iff] at hlast
    simp [hlast] at hbelow
  | some e =>
    have hre := rel_getLast? (R := fun r r' : AddressRange => r.start ≤ r'.start)
      (hsorted.sublist List.filter_sublist) (UInt64.le_refl _) hlast hbelow
    obtain ⟨he, hea⟩ := List.mem_filter.1 (List.mem_of_getLast? hlast)
    rw [decide_eq_true_eq] at hea
    -- the last one starts between the first address of the range and `a`, so inside of the range
    have hinside : r.contains e.start := by
      have hle := UInt64.le_iff_toNat_le.1 hea
      exact contains_iff.2 ⟨hre, Nat.lt_of_le_of_lt hle (contains_iff.1 ha).2⟩
    obtain rfl := eq_of_disjoint hapart hr he hinside (contains_start (hsize e he))
    rw [moduleIn?, hfilter, hlast, Option.filter_some, if_pos ha, Option.map_some]

end AddressRange

namespace Database
variable {d d' : Database} {k : Contribution} {r : AddressRange} {rs : List AddressRange} {a : UInt64}
  {module? : Option UInt16}

/-- A contribution with bytes, in a section that there is and not beyond the last address, has the
address. -/
def Occupies (d : Database) (k : Contribution) (a : UInt64) : Prop :=
  0 ≤ k.offset ∧ 0 < k.size ∧ ∃ start, d.addressOf? k.section_ k.offset.toUInt32 = some start
    ∧ start.toNat + k.size.toInt.toNat < 2 ^ 64
    ∧ start ≤ a ∧ a.toNat < start.toNat + k.size.toInt.toNat

theorem occupies_iff : d.Occupies k a ↔ ∃ r, d.rangeOf? k = some r ∧ r.contains a := by
  constructor
  · rintro ⟨hoffset, hsize, start, hstart, hstop, hwithin⟩
    exact ⟨_, rangeOf?_eq ⟨hsize, hoffset⟩ hstart hstop, AddressRange.contains_iff.2 hwithin⟩
  · rintro ⟨r, hr, ha⟩
    obtain ⟨⟨hsize, hoffset⟩, start, hstart, hstop, rfl⟩ := rangeOf?_eq_some_iff.1 hr
    exact ⟨hoffset, hsize, start, hstart, hstop, AddressRange.contains_iff.1 ha⟩

theorem size_pos_of_rangeOf? (h : d.rangeOf? k = some r) : 0 < r.size := by
  obtain ⟨⟨hsize, -⟩, start, -, -, rfl⟩ := rangeOf?_eq_some_iff.1 h
  have hpos : (0 : Int32).toInt < k.size.toInt := Int32.lt_iff_toInt_lt.1 hsize
  rw [Int32.toInt_zero] at hpos
  exact Int.pos_iff_toNat_pos.1 hpos

theorem module_of_rangeOf? (h : d.rangeOf? k = some r) : r.module = k.module := by
  obtain ⟨-, start, -, -, rfl⟩ := rangeOf?_eq_some_iff.1 h
  rfl

/-- The ranges in order of their first addresses. Those with the same first address are in any order,
for the sort need not be stable. -/
def Arranges (d : Database) (rs : List AddressRange) : Prop :=
  rs.Perm (d.contributions.filterMap d.rangeOf?) ∧ rs.Pairwise (·.start ≤ ·.start)

/-- What can be found at an address. -/
def MayFind (d : Database) (a : UInt64) (module? : Option UInt16) : Prop :=
  ∃ rs, d.Arranges rs ∧ AddressRange.moduleIn? rs a = module?

/-- No two contributions have an address in common. -/
def Apart (d : Database) : Prop :=
  d.contributions.Pairwise fun k k' => ∀ a, ¬ (d.Occupies k a ∧ d.Occupies k' a)

theorem arranges_ranges [UnstableSort] (d : Database) : d.Arranges d.ranges :=
  ⟨UnstableSort.perm _ _, UnstableSort.ascending _ _⟩

theorem Arranges.exists_range (h : d.Arranges rs) (hr : r ∈ rs) :
    ∃ k ∈ d.contributions, d.rangeOf? k = some r :=
  List.mem_filterMap.1 (h.1.mem_iff.1 hr)

theorem Arranges.mem (h : d.Arranges rs) (hk : k ∈ d.contributions) (hr : d.rangeOf? k = some r) :
    r ∈ rs :=
  h.1.mem_iff.2 (List.mem_filterMap.2 ⟨k, hk, hr⟩)

theorem apart_iff : d.Apart ↔ AddressRange.Apart (d.contributions.filterMap d.rangeOf?) := by
  rw [AddressRange.Apart, List.pairwise_filterMap]
  refine List.Pairwise.iff fun k k' => ⟨fun h r hr r' hr' a ha => ?_, fun h a ha => ?_⟩
  · exact h a ⟨occupies_iff.2 ⟨r, hr, ha.1⟩, occupies_iff.2 ⟨r', hr', ha.2⟩⟩
  · obtain ⟨r, hr, hra⟩ := occupies_iff.1 ha.1
    obtain ⟨r', hr', hra'⟩ := occupies_iff.1 ha.2
    exact h r hr r' hr' a ⟨hra, hra'⟩

theorem Arranges.apart (h : d.Arranges rs) (hapart : d.Apart) : AddressRange.Apart rs :=
  (apart_iff.1 hapart).perm h.1.symm

theorem exists_occupies_of_mayFind {module : UInt16} (h : d.MayFind a (some module)) :
    ∃ k ∈ d.contributions, k.module = module ∧ d.Occupies k a := by
  obtain ⟨rs, hrs, h⟩ := h
  obtain ⟨r, hr, rfl, ha⟩ := AddressRange.exists_of_moduleIn? h
  obtain ⟨k, hk, hrange⟩ := hrs.exists_range hr
  exact ⟨k, hk, (module_of_rangeOf? hrange).symm, occupies_iff.2 ⟨r, hrange, ha⟩⟩

theorem MayFind.eq_some (h : d.MayFind a module?) (hapart : d.Apart) (hk : k ∈ d.contributions)
    (ha : d.Occupies k a) : module? = some k.module := by
  obtain ⟨rs, hrs, rfl⟩ := h
  obtain ⟨r, hrange, ha⟩ := occupies_iff.1 ha
  rw [← module_of_rangeOf? hrange]
  refine AddressRange.moduleIn?_of_contains hrs.2 (hrs.apart hapart) ?_ (hrs.mem hk hrange) ha
  intro r' hr'
  obtain ⟨k', -, hrange'⟩ := hrs.exists_range hr'
  exact size_pos_of_rangeOf? hrange'

theorem MayFind.eq_some_iff (h : d.MayFind a module?) (hapart : d.Apart) (module : UInt16) :
    module? = some module ↔ ∃ k ∈ d.contributions, k.module = module ∧ d.Occupies k a := by
  constructor
  · rintro rfl
    exact exists_occupies_of_mayFind h
  · rintro ⟨k, hk, rfl, ha⟩
    exact h.eq_some hapart hk ha

theorem rangeOf?_congr (hsections : d'.sections = d.sections)
    (hbase : d'.options.loadAddress = d.options.loadAddress) : d'.rangeOf? = d.rangeOf? := by
  funext k
  rw [rangeOf?, rangeOf?, addressOf?, addressOf?, hsections, hbase]

theorem MayFind.of_perm (h : d'.MayFind a module?) (hsections : d'.sections = d.sections)
    (hbase : d'.options.loadAddress = d.options.loadAddress)
    (hperm : d'.contributions.Perm d.contributions) : d.MayFind a module? := by
  obtain ⟨rs, ⟨hrs, hsorted⟩, hmodule⟩ := h
  rw [rangeOf?_congr hsections hbase] at hrs
  exact ⟨rs, ⟨hrs.trans (hperm.filterMap _), hsorted⟩, hmodule⟩

/-- What is found at an address is the module of a contribution that has it. If no two contributions
have an address in common, it is found wherever there is such a contribution, and the order of the
contributions does not matter. -/
theorem moduleAt?_iff_occupied [UnstableSort] (d : Database) (a : UInt64) :
    d.MayFind a (d.moduleAt? a)
    ∧ (∀ module, d.MayFind a (some module) →
      ∃ k ∈ d.contributions, k.module = module ∧ d.Occupies k a)
    ∧ (d.Apart → ∀ module?, d.MayFind a module? →
      (∀ k ∈ d.contributions, d.Occupies k a → module? = some k.module)
      ∧ ((∀ k ∈ d.contributions, ¬ d.Occupies k a) → module? = none)
      ∧ ∀ d' : Database, d'.sections = d.sections → d'.options.loadAddress = d.options.loadAddress →
        d'.contributions.Perm d.contributions → d'.moduleAt? a = module?) := by
  have hfound (d : Database) : d.MayFind a (d.moduleAt? a) := ⟨_, arranges_ranges d, rfl⟩
  refine ⟨hfound d, fun _ => exists_occupies_of_mayFind, fun hapart module? h => ⟨?_, ?_, ?_⟩⟩
  · exact fun k hk ha => h.eq_some hapart hk ha
  · intro hnone
    by_contra hsome
    obtain ⟨module, hmodule⟩ := Option.ne_none_iff_exists'.1 hsome
    obtain ⟨k, hk, -, ha⟩ := (h.eq_some_iff hapart module).1 hmodule
    exact hnone k hk ha
  · intro d' hsections hbase hperm
    have h' := (hfound d').of_perm hsections hbase hperm
    refine Option.ext fun module => ?_
    rw [h'.eq_some_iff hapart, h.eq_some_iff hapart]

end Database

namespace DatabasePlan

/-- Two modules next to each other, and contributions without addresses: an empty one, one in front of
its section, one in a section that is not there, and one that goes beyond the last address. -/
def twoModules : DatabasePlan where
  guid := defaultGuid
  sections := [section_ [46, 116] 0x1000 0x200, section_ [46, 100] 0 0x1000]
  contributions := [contribution 1 0x30 0x10 7, contribution 1 0x20 0x10 8, contribution 1 0x24 0 9,
    contribution 1 (-8) 0x40 9, contribution 3 0x20 0x10 9, contribution 2 0xff0 0x10 9]

theorem encodable_twoModules : twoModules.Encodable := by decide +kernel

end DatabasePlan

namespace Database
open DatabasePlan
variable {d : Database}

theorem contributions_twoModules (hd : d.Holds twoModules) : d.contributions = twoModules.contributions := by
  rw [contributions, hd.contributions]

/-- The first section is loaded at the address zero. -/
theorem filterMap_rangeOf?_twoModules (hd : d.Holds twoModules)
    (hbase : d.options.loadAddress = 0xfffffffffffff000) :
    d.contributions.filterMap d.rangeOf? = [⟨0x30, 0x10, 7⟩, ⟨0x20, 0x10, 8⟩] := by
  rw [contributions_twoModules hd]
  unfold rangeOf? addressOf?
  rw [hd.sections, hbase]
  decide +kernel

theorem apart_twoModules (hd : d.Holds twoModules) (hbase : d.options.loadAddress = 0xfffffffffffff000) :
    d.Apart := by
  rw [apart_iff, filterMap_rangeOf?_twoModules hd hbase, AddressRange.Apart, List.pairwise_pair]
  rintro a ⟨hr, hr'⟩
  have hstart := UInt64.le_iff_toNat_le.1 (AddressRange.contains_iff.1 hr).1
  exact absurd (AddressRange.contains_iff.1 hr').2 (Nat.not_lt.2 hstart)

theorem moduleAt?_iff_occupied_twoModules : ∃ _ : UnstableSort, ∃ image d,
    twoModules.encode = some image
    ∧ parse image.toArray { loadAddress := 0xfffffffffffff000 } = .ok d ∧ d.Apart
    ∧ d.moduleAt? 0x2f = some 8 ∧ d.moduleAt? 0x30 = some 7 ∧ d.moduleAt? 0x40 = none := by
  obtain ⟨sort⟩ : Nonempty UnstableSort := ⟨.stable⟩
  obtain ⟨image, d, hencode, hparse, hd⟩ := exists_holds encodable_twoModules .globals rfl
    (by decide) { loadAddress := 0xfffffffffffff000 }
  have hbase : d.options.loadAddress = 0xfffffffffffff000 := loadAddress_of_parse {} hparse
  have hapart := apart_twoModules hd hbase
  have hranges := filterMap_rangeOf?_twoModules hd hbase
  have hfound {a : UInt64} {r : AddressRange} (hr : r ∈ d.contributions.filterMap d.rangeOf?)
      (ha : r.contains a) : d.moduleAt? a = some r.module := by
    obtain ⟨hmay, -, hexact⟩ := moduleAt?_iff_occupied d a
    obtain ⟨k, hk, hr⟩ := List.mem_filterMap.1 hr
    rw [module_of_rangeOf? hr]
    exact (hexact hapart _ hmay).1 k hk (occupies_iff.2 ⟨r, hr, ha⟩)
  rw [hranges] at hfound
  refine ⟨sort, image, d, hencode, hparse, hapart, ?_, ?_, ?_⟩
  · exact hfound (List.mem_cons_of_mem _ List.mem_cons_self) (by decide)
  · exact hfound List.mem_cons_self (by decide)
  · obtain ⟨hmay, -, hexact⟩ := moduleAt?_iff_occupied d 0x40
    refine (hexact hapart _ hmay).2.1 fun k hk hoccupies => ?_
    obtain ⟨r, hr, ha⟩ := occupies_iff.1 hoccupies
    have hmem := List.mem_filterMap.2 ⟨k, hk, hr⟩
    rw [hranges, List.mem_pair] at hmem
    rcases hmem with rfl | rfl
    · exact absurd ha (by decide)
    · exact absurd ha (by decide)

end Database
end Pdb
