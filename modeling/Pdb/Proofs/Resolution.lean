import Mathlib.Data.Option.Basic
import Pdb.Proofs.LineTable
import Pdb.Proofs.Memo
import Pdb.Proofs.RecordOffsets

/-! # What is found at an address belongs together

A module is at an address by one of its contributions (`exists_contribution_of_moduleAt?`), and a
function that is found there reaches over it (`within_of_functionAt?`): it is found by a distance
modulo `2 ^ 64`, but is no function if it goes beyond the last address. `Database.Coherent` says what
an answer has to do with the address, with what has been asked for and with the parts of the database,
and the main statement is `coherent_resolve`: each answer is coherent, whatever has been read before.
-/

namespace Pdb

/-! ### Parts -/

namespace ContextItems
variable {a b c : ContextItems}

theorem testBit_union (a b : ContextItems) (i : Nat) :
    (a.union b).bits.toNat.testBit i = (a.bits.toNat.testBit i || b.bits.toNat.testBit i) := by
  rw [union, UInt32.toNat_or, Nat.testBit_or]

/-- The one has each bit of the other. -/
theorem contains_iff :
    a.contains b ↔ ∀ i, b.bits.toNat.testBit i = true → a.bits.toNat.testBit i = true := by
  rw [contains, decide_eq_true_iff, ← UInt32.toNat_inj, UInt32.toNat_and]
  constructor
  · intro h i hi
    rw [← h, Nat.testBit_and, Bool.and_eq_true] at hi
    exact hi.1
  · intro h
    refine Nat.eq_of_testBit_eq fun i => ?_
    have := h i
    rw [Nat.testBit_and]
    cases hb : b.bits.toNat.testBit i with
    | false => rw [Bool.and_false]
    | true => rw [h i hb, Bool.and_true]

theorem contains_none (a : ContextItems) : a.contains none :=
  contains_iff.2 fun i hi => absurd hi (by rw [none, UInt32.toNat_zero, Nat.zero_testBit]; decide)

theorem contains_union (hb : a.contains b) (hc : a.contains c) : a.contains (b.union c) := by
  rw [contains_iff] at hb hc ⊢
  intro i hi
  rw [testBit_union, Bool.or_eq_true] at hi
  exact hi.elim (hb i) (hc i)

theorem union_contains_left (h : a.contains b) (c : ContextItems) : (a.union c).contains b := by
  rw [contains_iff] at h ⊢
  intro i hi
  rw [testBit_union, h i hi, Bool.true_or]

theorem union_contains_right (a b : ContextItems) : (a.union b).contains b := by
  rw [contains_iff]
  intro i hi
  rw [testBit_union, hi, Bool.or_true]

theorem contains_when {p : Bool} (h : p = true → a.contains b) : a.contains (.when p b) := by
  cases p with
  | false => exact contains_none a
  | true => exact h rfl

end ContextItems

/-- Each part is found if it is there. -/
theorem SymbolContext.contains_found (c : SymbolContext) :
    c.found.contains .compileUnit = c.compileUnit?.isSome
    ∧ c.found.contains .function = c.function?.isSome ∧ c.found.contains .line = c.line?.isSome := by
  rw [found]
  generalize c.compileUnit?.isSome = unit
  generalize c.function?.isSome = function
  generalize c.line?.isSome = line
  revert unit function line
  decide

/-! ### Modules -/

namespace AddressRange
variable {rs : List AddressRange} {r : AddressRange} {a : UInt64} {module : UInt16}

theorem contains_iff : r.contains a ↔ r.start ≤ a ∧ a.toNat < r.start.toNat + r.size := by
  rw [contains, decide_eq_true_eq, stop]

theorem exists_of_moduleIn? (h : moduleIn? rs a = some module) :
    ∃ r ∈ rs, r.module = module ∧ r.contains a := by
  obtain ⟨r, hr, hmodule⟩ := Option.map_eq_some_iff.1 h
  obtain ⟨hlast, hcontains⟩ := Option.filter_eq_some_iff.1 hr
  exact ⟨r, List.takeWhile_subset _ (List.mem_of_getLast? hlast), hmodule, hcontains⟩

end AddressRange

namespace Database
variable {d : Database} {address : UInt64} {module : UInt16} {offset : UInt32} {p : ProcSymbol}
  {f : Function}

theorem guard_of {p : Prop} [Decidable p] (h : p) : (guard p : Option Unit) = some () := if_pos h

theorem rangeOf?_eq {k : Contribution} {start : UInt64} (hplace : 0 < k.size ∧ 0 ≤ k.offset)
    (hstart : d.addressOf? k.section_ k.offset.toUInt32 = some start)
    (hstop : start.toNat + k.size.toInt.toNat < 2 ^ 64) :
    d.rangeOf? k = some ⟨start, k.size.toInt.toNat, k.module⟩ := by
  have hfits : (AddressRange.mk start k.size.toInt.toNat k.module).stop < 2 ^ 64 := hstop
  rw [rangeOf?, guard_of hplace, hstart]
  dsimp only [Option.bind_eq_bind, Option.bind_some]
  rw [guard_of hfits]
  rfl

theorem rangeOf?_eq_some_iff {k : Contribution} {r : AddressRange} : d.rangeOf? k = some r ↔
    (0 < k.size ∧ 0 ≤ k.offset) ∧ ∃ start, d.addressOf? k.section_ k.offset.toUInt32 = some start
      ∧ start.toNat + k.size.toInt.toNat < 2 ^ 64 ∧ r = ⟨start, k.size.toInt.toNat, k.module⟩ := by
  constructor
  · intro h
    obtain ⟨_, hplace, h⟩ := Option.bind_eq_some_iff.1 h
    obtain ⟨start, hstart, h⟩ := Option.bind_eq_some_iff.1 h
    obtain ⟨_, hstop, h⟩ := Option.bind_eq_some_iff.1 h
    exact ⟨(Option.guard_eq_some' _).1 hplace, start, hstart, (Option.guard_eq_some' _).1 hstop,
      (Option.some.inj h).symm⟩
  · rintro ⟨hplace, start, hstart, hstop, rfl⟩
    exact rangeOf?_eq hplace hstart hstop

/-- The address is one of those that a contribution has. -/
def Covers (d : Database) (k : Contribution) (address : UInt64) : Prop :=
  0 ≤ k.offset ∧ ∃ start, d.addressOf? k.section_ k.offset.toUInt32 = some start ∧ start ≤ address
    ∧ address.toNat < start.toNat + k.size.toInt.toNat

theorem covers_of_rangeOf? {k : Contribution} {r : AddressRange} (h : d.rangeOf? k = some r)
    (hcontains : r.contains address) : k.module = r.module ∧ d.Covers k address := by
  obtain ⟨⟨-, hoffset⟩, start, hstart, -, rfl⟩ := rangeOf?_eq_some_iff.1 h
  exact ⟨rfl, hoffset, start, hstart, AddressRange.contains_iff.1 hcontains⟩

theorem exists_contribution_of_moduleAt? [UnstableSort] (h : d.moduleAt? address = some module) :
    ∃ k ∈ d.contributions, k.module = module ∧ d.Covers k address := by
  obtain ⟨r, hr, rfl, hcontains⟩ := AddressRange.exists_of_moduleIn? h
  obtain ⟨k, hk, hrange⟩ := List.mem_filterMap.1 ((UnstableSort.perm _ _).mem_iff.1 hr)
  exact ⟨k, hk, covers_of_rangeOf? hrange hcontains⟩

/-! ### Functions -/

theorem within_of_functionOf? (h : d.functionOf? module offset p = some f)
    (hcovers : d.covers address p) : f.start ≤ address ∧ address < f.stop := by
  obtain ⟨start, hstart, h⟩ := Option.bind_eq_some_iff.1 h
  obtain ⟨_, -, h⟩ := Option.bind_eq_some_iff.1 h
  obtain ⟨_, hstop, h⟩ := Option.bind_eq_some_iff.1 h
  cases h
  rw [covers, hstart, Option.any_some, decide_eq_true_iff] at hcovers
  have hend := (Option.guard_eq_some' _).1 hstop
  have hlength : p.length.toUInt64.toNat = p.length.toNat := UInt32.toNat_toUInt64 _
  have haddress := address.toNat_lt
  -- An address in front of the start would be further away than any length that stays in bounds.
  rw [UInt64.lt_iff_toNat_lt, UInt64.toNat_sub, hlength] at hcovers
  have hstopAt : (start + p.length.toUInt64).toNat = start.toNat + p.length.toNat := by
    rw [UInt64.toNat_add, hlength, Nat.mod_eq_of_lt hend]
  rw [UInt64.le_iff_toNat_le, UInt64.lt_iff_toNat_lt]
  dsimp only
  omega

theorem exists_proc_of_procedureAt? (h : d.procedureAt? module.toNat address = .ok (some offset)) :
    ∃ m r p, d.moduleStream module.toNat = .ok (some m) ∧ m.recordAt offset.toNat = .ok r
      ∧ procOf? r = some p ∧ d.covers address p := by
  obtain ⟨stream?, hstream, h⟩ := exists_of_bind_eq_ok h
  cases stream? with
  | none => exact nomatch h
  | some m =>
    obtain ⟨rs, hrecords, h⟩ := exists_of_bind_eq_ok h
    obtain ⟨⟨_, r⟩, hlast, rfl⟩ := Option.map_eq_some_iff.1 (Except.ok.inj h)
    obtain ⟨hmem, hfound⟩ := List.mem_filter.1 (List.mem_of_getLast? hlast)
    obtain ⟨p, hp, hcovers⟩ := (Option.any_eq_true ..).1 hfound
    exact ⟨m, r, p, hstream, ModuleStream.recordAt_of_mem hrecords hmem, hp, hcovers⟩

theorem within_of_functionAt? (h : d.functionAt? module address = some f) :
    f.module = module ∧ f.start ≤ address ∧ address < f.stop := by
  obtain ⟨found?, hfound, hfunction⟩ := Option.bind_eq_some_iff.1 h
  obtain ⟨offset, rfl, hf⟩ := Option.bind_eq_some_iff.1 hfunction
  refine ⟨Recall.module_of_function? hf, ?_⟩
  obtain ⟨m, r, p, hstream, hrecord, hp, hcovers⟩ := exists_proc_of_procedureAt? (ok_of_toOption hfound)
  -- The symbol that was listed is the one that is read again at its offset.
  have hread : d.function? module offset = d.functionOf? module offset p := by
    unfold function?
    simp only [hstream, functionIn?, hrecord, hp, Except.toOption, bind, Option.bind_some]
  exact within_of_functionOf? (hread.symm.trans hf) hcovers

/-! ### Answers -/

/-- What an answer about an address has to do with the address, with what has been asked for and with
the parts of the database. -/
structure Coherent (d : Database) (address : UInt64) (items : ContextItems) (r : Resolution) : Prop where
  found_unit : r.found.contains .compileUnit = r.context.compileUnit?.isSome
  found_function : r.found.contains .function = r.context.function?.isSome
  found_line : r.found.contains .line = r.context.line?.isSome
  /-- There is a unit wherever there is a function or a line. -/
  unit_of_part : r.found.contains .function ∨ r.found.contains .line → r.found.contains .compileUnit
  /-- Nothing is found but what has been asked for, and the unit. -/
  asked : (items.union .compileUnit).contains r.found
  nothing : items = .none → r.found = .none
  unit {u : CompileUnit} : r.context.compileUnit? = some u →
    ∃ k ∈ d.contributions, k.module = u.module ∧ d.Covers k address
  function {f : Function} : r.context.function? = some f → f.start ≤ address ∧ address < f.stop
    ∧ ∃ u, r.context.compileUnit? = some u ∧ f.unitUid = u.uid
  line {e : LineEntry} : r.context.line? = some e → e.isTerminal = false ∧ e.address ≤ address
    ∧ ∃ u t file, r.context.compileUnit? = some u ∧ d.lineTable? u.module.toNat = some t
      ∧ e ∈ t.entries ∧ t.fileName? e = some file ∧ r.context.file? = some file
  file : r.context.file?.isSome = r.context.line?.isSome

theorem module_of_compileUnit? {u : CompileUnit} (h : d.compileUnit? module = some u) :
    u.module = module := by
  obtain ⟨m, -, h⟩ := Option.bind_eq_some_iff.1 h
  obtain ⟨stream?, -, h⟩ := Option.bind_eq_some_iff.1 h
  unfold unitOf? at h
  cases stream? with
  | none => exact Option.some.inj h ▸ rfl
  | some s =>
    obtain ⟨records, -, h⟩ := Option.bind_eq_some_iff.1 h
    exact Option.some.inj h ▸ rfl

/-- Each entry of a module's line table has a file, and is at a place of the image. -/
theorem sound_of_lineTable? {module : Nat} {t : LineTable} (h : d.lineTable? module = some t)
    {e : LineEntry} (he : e ∈ t.entries) :
    e.file < t.files.length ∧ LineTable.Behind d.addressOf? e.address := by
  obtain ⟨stream?, -, h⟩ := Option.bind_eq_some_iff.1 h
  cases stream? with
  | none =>
    cases h
    exact absurd he List.not_mem_nil
  | some m =>
    obtain ⟨bytes, -, h⟩ := Option.bind_eq_some_iff.1 h
    exact LineTable.sound_of_build (ok_of_toOption h) he

theorem exists_fileName? {t : LineTable} (h : d.lineTable? module.toNat = some t) {e : LineEntry}
    (he : e ∈ t.entries) : ∃ file, t.fileName? e = some file :=
  ⟨_, List.getElem?_eq_getElem (sound_of_lineTable? h he).1⟩

theorem coherent_empty (d : Database) (address : UInt64) (items : ContextItems) :
    d.Coherent address items ⟨.empty, SymbolContext.empty.found⟩ where
  found_unit := by decide
  found_function := by decide
  found_line := by decide
  unit_of_part := by decide
  asked := ContextItems.contains_none _
  nothing _ := rfl
  unit := nofun
  function := nofun
  line := nofun
  file := rfl

/-- The parts of an answer, if the function and the line table are those of the unit. -/
theorem coherent_parts [UnstableSort] {u : CompileUnit} {function? : Option Function}
    {table? : Option LineTable} {items : ContextItems} (hitems : items ≠ .none) (hmodule : d.moduleAt? address = some u.module)
    (hfunction : ∀ f, function? = some f →
      items.contains .function ∧ d.functionAt? u.module address = some f)
    (htable : ∀ t, table? = some t → items.contains .line ∧ d.lineTable? u.module.toNat = some t) :
    let line? := table?.bind (·.find? address)
    let c : SymbolContext := ⟨u, function?, line?, line?.bind fun e => table?.bind (·.fileName? e)⟩
    d.Coherent address items ⟨c, c.found⟩ := by
  intro line? c
  obtain ⟨hfoundUnit, hfoundFunction, hfoundLine⟩ := c.contains_found
  have hline {e : LineEntry} (he : line? = some e) : items.contains .line
      ∧ e.isTerminal = false ∧ e.address ≤ address ∧ ∃ t file, d.lineTable? u.module.toNat = some t
        ∧ e ∈ t.entries ∧ t.fileName? e = some file ∧ c.file? = some file := by
    obtain ⟨t, rfl, hfind⟩ := Option.bind_eq_some_iff.1 he
    obtain ⟨hasked, ht⟩ := htable t rfl
    obtain ⟨hmem, hle, hterminal⟩ := LineTable.find?_eq_some hfind
    obtain ⟨file, hfile⟩ := exists_fileName? ht hmem
    refine ⟨hasked, hterminal, hle, t, file, ht, hmem, hfile, ?_⟩
    exact Option.bind_eq_some_iff.2 ⟨e, he, hfile⟩
  exact {
    found_unit := hfoundUnit
    found_function := hfoundFunction
    found_line := hfoundLine
    unit_of_part := fun _ => hfoundUnit
    asked := by
      refine ContextItems.contains_union (ContextItems.contains_union ?_ ?_) ?_
        <;> refine ContextItems.contains_when fun hsome => ?_
      · exact ContextItems.union_contains_right items .compileUnit
      · obtain ⟨f, hf⟩ := Option.isSome_iff_exists.1 hsome
        exact ContextItems.union_contains_left (hfunction f hf).1 _
      · obtain ⟨e, he⟩ := Option.isSome_iff_exists.1 hsome
        exact ContextItems.union_contains_left (hline he).1 _
    nothing := fun h => absurd h hitems
    unit := fun hu => Option.some.inj hu ▸ exists_contribution_of_moduleAt? hmodule
    function := fun hf => by
      obtain ⟨hsame, hstart, hstop⟩ := within_of_functionAt? (hfunction _ hf).2
      exact ⟨hstart, hstop, u, rfl, by rw [Function.unitUid, CompileUnit.uid, hsame]⟩
    line := fun he => by
      obtain ⟨-, hterminal, hle, t, file, hparts⟩ := hline he
      exact ⟨hterminal, hle, u, t, file, rfl, hparts⟩
    file := by
      cases he : line? with
      | none =>
        show (line?.bind _).isSome = line?.isSome
        rw [he]
        rfl
      | some e =>
        obtain ⟨-, -, -, t, file, -, -, -, hfile⟩ := hline he
        rw [hfile]
        exact (congrArg Option.isSome he).symm }

theorem coherent_contextAt [UnstableSort] (d : Database) (address : UInt64) (items : ContextItems) :
    d.Coherent address items ⟨d.contextAt address items, (d.contextAt address items).found⟩ := by
  rw [contextAt]
  by_cases hitems : items = .none
  · rw [if_pos hitems]
    exact coherent_empty d address items
  rw [if_neg hitems]
  cases hmodule : d.moduleAt? address with
  | none => exact coherent_empty d address items
  | some module =>
    rw [Option.bind_some]
    cases hunit : d.compileUnit? module with
    | none => exact coherent_empty d address items
    | some u =>
      rw [Option.map_some]
      obtain rfl := module_of_compileUnit? hunit
      refine coherent_parts hitems hmodule (fun f hf => ?_) (fun t ht => ?_)
      · split_ifs at hf with hasked
        exact ⟨hasked, hf⟩
      · split_ifs at ht with hasked
        exact ⟨hasked, ht⟩

/-- Whatever has been read before, an answer about an address is coherent. -/
theorem coherent_resolve [UnstableSort] (d : Database) (qs : List Question) (address : UInt64)
    (items : ContextItems) :
    d.Coherent address items ((Recall.resolve d address items).run (Memo.after d qs)).1 := by
  obtain ⟨hanswer, -⟩ := Recall.answers_resolve d address items _ (Memo.faithful_after d qs)
  rw [hanswer]
  exact coherent_contextAt d address items

end Database
end Pdb
