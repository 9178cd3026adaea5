import Pdb.Proofs.DatabaseRoundTrip
import Pdb.Proofs.Resolution

/-! # Loading an image elsewhere

All addresses of an image lie less than `3 * 2 ^ 32` above the address where it is loaded. If that stays
in bounds, addresses are compared as they are in the image that is loaded at 0, so what is found there
is moved as a whole: `contextAt_loadedAt`. The main statement, `resolve_relocated`, compares two
addresses where the image is loaded. -/

namespace Pdb

/-! ### Addresses above a load address -/

/-- The addresses of an image that is loaded at `base` do not wrap. -/
def HasRoom (base : UInt64) : Prop := base.toNat + 3 * 2 ^ 32 ≤ 2 ^ 64

section
variable {base a b : UInt64}

theorem toNat_add_of_lt (h : base.toNat + a.toNat < 2 ^ 64) :
    (base + a).toNat = base.toNat + a.toNat := by
  rw [UInt64.toNat_add, Nat.mod_eq_of_lt h]

theorem HasRoom.toNat_add (h : HasRoom base) (ha : a.toNat < 3 * 2 ^ 32) :
    (base + a).toNat = base.toNat + a.toNat :=
  toNat_add_of_lt (Nat.lt_of_lt_of_le (Nat.add_lt_add_left ha _) h)

theorem HasRoom.le_iff (h : HasRoom base) (ha : a.toNat < 3 * 2 ^ 32)
    (hb : base.toNat + b.toNat < 2 ^ 64) : base + a ≤ base + b ↔ a ≤ b := by
  rw [UInt64.le_iff_toNat_le, h.toNat_add ha, toNat_add_of_lt hb, UInt64.le_iff_toNat_le]
  omega

theorem HasRoom.lt_iff (h : HasRoom base) (ha : a.toNat < 3 * 2 ^ 32) (hb : b.toNat < 3 * 2 ^ 32) :
    base + a < base + b ↔ a < b := by
  rw [UInt64.lt_iff_toNat_lt, h.toNat_add ha, h.toNat_add hb, UInt64.lt_iff_toNat_lt]
  omega

end

theorem bind_moved {α β : Type} {x? : Option α} {f f' : α → Option β} {g : β → β}
    (h : ∀ a, f a = (f' a).map g) : x?.bind f = (x?.bind f').map g := by
  rw [Option.map_bind]
  exact congrArg _ (funext h)

/-- What stands last at or below an address, if all addresses are moved alike. -/
theorem getLast?_takeWhile_map {α : Type} {f : α → α} {key : α → UInt64} {a b : UInt64} {xs : List α}
    (h : ∀ x ∈ xs, key (f x) ≤ b ↔ key x ≤ a) :
    ((xs.map f).takeWhile fun x => decide (key x ≤ b)).getLast?
      = ((xs.takeWhile fun x => decide (key x ≤ a)).getLast?).map f := by
  have hsame : xs.takeWhile ((fun x => decide (key x ≤ b)) ∘ f)
      = xs.takeWhile fun x => decide (key x ≤ a) := by
    induction xs with
    | nil => rfl
    | cons x xs ih =>
      obtain ⟨hx, hxs⟩ := List.forall_mem_cons.1 h
      rw [List.takeWhile_cons, List.takeWhile_cons, ih hxs]
      simp only [Function.comp_apply, hx]
  rw [List.takeWhile_map, List.getLast?_map, hsame]

def AddressRange.moved (base : UInt64) (r : AddressRange) : AddressRange :=
  { r with start := base + r.start }

def Function.moved (base : UInt64) (f : Function) : Function :=
  { f with start := base + f.start, stop := base + f.stop }

namespace Database
variable {d : Database} {base address : UInt64}

/-- The database with its image loaded at an address. -/
def loadedAt (d : Database) (base : UInt64) : Database :=
  { d with options := { d.options with loadAddress := base } }

theorem addressOf?_loadedAt (d : Database) (base : UInt64) (segment : UInt16) (offset : UInt32) :
    (d.loadedAt base).addressOf? segment offset
      = ((d.loadedAt 0).addressOf? segment offset).map (base + ·) := by
  simp only [addressOf?, loadedAt, Option.bind_eq_bind, Option.pure_def, Option.map_bind,
    Function.comp_def, Option.map_some, UInt64.zero_add, UInt64.add_assoc]

theorem addressOf?_lt {segment : UInt16} {offset : UInt32} {a : UInt64}
    (h : (d.loadedAt 0).addressOf? segment offset = some a) : a.toNat < 2 * 2 ^ 32 := by
  obtain ⟨_, -, h⟩ := Option.bind_eq_some_iff.1 h
  obtain ⟨s, -, h⟩ := Option.bind_eq_some_iff.1 h
  cases h
  have haddress := s.virtualAddress.toNat_lt
  have hoffset := offset.toNat_lt
  have hzero : (d.loadedAt 0).options.loadAddress = 0 := rfl
  rw [hzero, UInt64.zero_add, UInt64.toNat_add, UInt32.toNat_toUInt64, UInt32.toNat_toUInt64]
  omega

/-! ### Modules -/

theorem rangeOf?_lt {k : Contribution} {r : AddressRange} (h : (d.loadedAt 0).rangeOf? k = some r) :
    r.stop < 3 * 2 ^ 32 := by
  obtain ⟨-, start, hstart, -, rfl⟩ := rangeOf?_eq_some_iff.1 h
  have hlt := addressOf?_lt hstart
  have hsize := k.size.toInt_lt
  dsimp only [AddressRange.stop]
  omega

theorem rangeOf?_loadedAt (hbase : HasRoom base) (k : Contribution) :
    (d.loadedAt base).rangeOf? k = ((d.loadedAt 0).rangeOf? k).map (.moved base) := by
  by_cases hplace : 0 < k.size ∧ 0 ≤ k.offset
  · have hmoved := addressOf?_loadedAt d base k.section_ k.offset.toUInt32
    cases hstart : (d.loadedAt 0).addressOf? k.section_ k.offset.toUInt32 with
    | none =>
      rw [hstart] at hmoved
      rw [rangeOf?, rangeOf?, hmoved, hstart]
      cases (guard (0 < k.size ∧ 0 ≤ k.offset) : Option Unit) <;> rfl
    | some start =>
      rw [hstart, Option.map_some] at hmoved
      have hlt := addressOf?_lt hstart
      have hsize := k.size.toInt_lt
      have hsum := hbase.toNat_add (a := start) (by omega)
      rw [HasRoom] at hbase
      rw [rangeOf?_eq hplace hstart (by omega), rangeOf?_eq hplace hmoved (by omega)]
      rfl
  · rw [rangeOf?, rangeOf?, guard, if_neg hplace]
    rfl

theorem ranges_loadedAt [UnstableSort] (hbase : HasRoom base) :
    (d.loadedAt base).ranges = (d.loadedAt 0).ranges.map (.moved base) := by
  have hlist : d.contributions.filterMap (d.loadedAt base).rangeOf?
      = (d.contributions.filterMap (d.loadedAt 0).rangeOf?).map (.moved base) := by
    rw [List.map_filterMap]
    exact congrArg (List.filterMap · d.contributions) (funext (rangeOf?_loadedAt hbase))
  show UnstableSort.sortByKey _ (d.contributions.filterMap (d.loadedAt base).rangeOf?) = _
  rw [hlist]
  refine UnstableSort.map _ _ _ fun a ha b hb => ?_
  have hlt {r : AddressRange} (hr : r ∈ d.contributions.filterMap (d.loadedAt 0).rangeOf?) :
      r.start.toNat < 3 * 2 ^ 32 := by
    obtain ⟨k, -, hk⟩ := List.mem_filterMap.1 hr
    exact Nat.lt_of_le_of_lt (Nat.le_add_right _ _) (rangeOf?_lt hk)
  have hroom : base.toNat + b.start.toNat < 2 ^ 64 :=
    Nat.lt_of_lt_of_le (Nat.add_lt_add_left (hlt hb) _) hbase
  exact hbase.le_iff (hlt ha) hroom

theorem moduleAt?_loadedAt [UnstableSort] (hbase : HasRoom base)
    (haddress : base.toNat + address.toNat < 2 ^ 64) :
    (d.loadedAt base).moduleAt? (base + address) = (d.loadedAt 0).moduleAt? address := by
  have hlt {r : AddressRange} (hr : r ∈ (d.loadedAt 0).ranges) : r.stop < 3 * 2 ^ 32 := by
    obtain ⟨k, -, hk⟩ := List.mem_filterMap.1 ((UnstableSort.perm _ _).mem_iff.1 hr)
    exact rangeOf?_lt hk
  have hstart {r : AddressRange} (hr : r ∈ (d.loadedAt 0).ranges) :
      base + r.start ≤ base + address ↔ r.start ≤ address :=
    hbase.le_iff (Nat.lt_of_le_of_lt (Nat.le_add_right _ _) (hlt hr)) haddress
  rw [moduleAt?, moduleAt?, AddressRange.moduleIn?, AddressRange.moduleIn?, ranges_loadedAt hbase]
  rw [getLast?_takeWhile_map (f := AddressRange.moved base) fun r hr => hstart hr]
  cases hlast : ((d.loadedAt 0).ranges.takeWhile fun r => decide (r.start ≤ address)).getLast? with
  | none => rfl
  | some r =>
    have hr := List.takeWhile_subset _ (List.mem_of_getLast? hlast)
    have hcontains : (r.moved base).contains (base + address) = r.contains address := by
      have hstop := hlt hr
      rw [AddressRange.stop] at hstop
      refine decide_eq_decide.2 (and_congr (hstart hr) ?_)
      rw [AddressRange.stop, AddressRange.stop, toNat_add_of_lt haddress]
      show _ < (base + r.start).toNat + r.size ↔ _
      rw [hbase.toNat_add (by omega)]
      omega
    rw [Option.map_some, Option.filter_some, Option.filter_some, hcontains]
    split <;> rfl

/-! ### Functions -/

theorem covers_loadedAt (base address : UInt64) :
    (d.loadedAt base).covers (base + address) = (d.loadedAt 0).covers address := by
  funext p
  rw [covers, covers, addressOf?_loadedAt d base]
  cases (d.loadedAt 0).addressOf? p.address.segment p.address.offset with
  | none => rfl
  | some start =>
    have hdistance : base + address - (base + start) = address - start := by grind
    rw [Option.map_some, Option.any_some, Option.any_some, hdistance]

theorem procedureAt?_loadedAt (base address : UInt64) (module : Nat) :
    (d.loadedAt base).procedureAt? module (base + address)
      = (d.loadedAt 0).procedureAt? module address := by
  have hin : (d.loadedAt base).procedureIn? (base + address) = (d.loadedAt 0).procedureIn? address := by
    funext stream?
    cases stream? with
    | none => rfl
    | some m => rw [procedureIn?, procedureIn?, covers_loadedAt]
  show (d.moduleStream module).bind _ = (d.moduleStream module).bind _
  rw [hin]

variable {module : UInt16} {offset : UInt32} {p : ProcSymbol} {f : Function}

theorem functionOf?_lt (h : (d.loadedAt 0).functionOf? module offset p = some f) :
    f.start.toNat < 3 * 2 ^ 32 ∧ f.stop.toNat < 3 * 2 ^ 32 := by
  obtain ⟨start, hstart, h⟩ := Option.bind_eq_some_iff.1 h
  obtain ⟨_, -, h⟩ := Option.bind_eq_some_iff.1 h
  obtain ⟨_, -, h⟩ := Option.bind_eq_some_iff.1 h
  cases h
  have hlt := addressOf?_lt hstart
  have hlength := p.length.toNat_lt
  dsimp only
  rw [UInt64.toNat_add, UInt32.toNat_toUInt64]
  omega

theorem functionOf?_eq {start : UInt64}
    (hstart : d.addressOf? p.address.segment p.address.offset = some start)
    (hfirst : start ≠ d.options.loadAddress) (hstop : start.toNat + p.length.toNat < 2 ^ 64) :
    d.functionOf? module offset p = some {
      module, offset, name := p.name, start, stop := start + p.length.toUInt64, type := p.type } := by
  rw [functionOf?, hstart]
  dsimp only [Option.bind_eq_bind, Option.bind_some]
  rw [guard_of hfirst, guard_of hstop]
  rfl

/-- Code that starts where the image is loaded is no function. -/
theorem functionOf?_eq_none
    (hstart : d.addressOf? p.address.segment p.address.offset = some d.options.loadAddress) :
    d.functionOf? module offset p = none := by
  rw [functionOf?, hstart]
  dsimp only [Option.bind_eq_bind, Option.bind_some]
  rw [guard, if_neg (not_not_intro rfl)]
  rfl

theorem functionOf?_loadedAt (hbase : HasRoom base) (module : UInt16) (offset : UInt32)
    (p : ProcSymbol) : (d.loadedAt base).functionOf? module offset p
      = ((d.loadedAt 0).functionOf? module offset p).map (.moved base) := by
  have hmoved := addressOf?_loadedAt d base p.address.segment p.address.offset
  cases hstart : (d.loadedAt 0).addressOf? p.address.segment p.address.offset with
  | none =>
    rw [hstart] at hmoved
    rw [functionOf?, functionOf?, hmoved, hstart]
    rfl
  | some start =>
    rw [hstart, Option.map_some] at hmoved
    by_cases hfirst : start = 0
    · subst hfirst
      rw [UInt64.add_zero] at hmoved
      rw [functionOf?_eq_none hmoved, functionOf?_eq_none hstart]
      rfl
    · have hlt := addressOf?_lt hstart
      have hlength := p.length.toNat_lt
      have hsum := hbase.toNat_add (a := start) (by omega)
      have hfirst' : base + start ≠ base := fun h => hfirst (by grind)
      rw [HasRoom] at hbase
      rw [functionOf?_eq hmoved hfirst' (by omega), functionOf?_eq hstart hfirst (by omega),
        Option.map_some, Function.moved, UInt64.add_assoc]

theorem function?_loadedAt (hbase : HasRoom base) (module : UInt16) (offset : UInt32) :
    (d.loadedAt base).function? module offset
      = ((d.loadedAt 0).function? module offset).map (.moved base) := by
  have hin (stream? : Option ModuleStream) : (d.loadedAt base).functionIn? module offset stream?
      = ((d.loadedAt 0).functionIn? module offset stream?).map (.moved base) := by
    cases stream? with
    | none => rfl
    | some m => exact bind_moved fun _ => bind_moved fun _ => functionOf?_loadedAt hbase _ _ _
  exact bind_moved hin

theorem function?_lt (h : (d.loadedAt 0).function? module offset = some f) :
    f.start.toNat < 3 * 2 ^ 32 ∧ f.stop.toNat < 3 * 2 ^ 32 := by
  obtain ⟨p, hp⟩ := Recall.exists_functionOf? h
  exact functionOf?_lt hp

theorem functionAt?_loadedAt (hbase : HasRoom base) (module : UInt16) (address : UInt64) :
    (d.loadedAt base).functionAt? module (base + address)
      = ((d.loadedAt 0).functionAt? module address).map (.moved base) := by
  rw [functionAt?, functionAt?, procedureAt?_loadedAt]
  exact bind_moved fun _ => bind_moved fun _ => function?_loadedAt hbase _ _

end Database

/-! ### Lines -/

def LineEntry.moved (base : UInt64) (e : LineEntry) : LineEntry :=
  { e with address := base + e.address }

namespace LineTable

def moved (base : UInt64) (t : LineTable) : LineTable :=
  { t with entries := t.entries.map (.moved base) }

def Progress.moved (base : UInt64) (p : Progress) : Progress := { p with table := p.table.moved base }

variable {checksums : Bytes} {names : Names} {base start address : UInt64}
  {place place' : UInt16 → UInt32 → Option UInt64}

theorem fileOf_moved (p : Progress) (offset : Nat) :
    fileOf checksums names (p.moved base) offset
      = (fileOf checksums names p offset).map fun r => (r.1.moved base, r.2) := by
  have hknown : (p.moved base).known = p.known := rfl
  rw [fileOf, fileOf, hknown]
  cases p.known.lookup offset with
  | some i => rfl
  | none =>
    cases FileChecksum.at_ checksums offset with
    | error e => rfl
    | ok file =>
      dsimp only [bind, Except.bind]
      cases names.get file.name.toNat <;> rfl

theorem blockEntries_moved (base start : UInt64) (file : Nat) (b : LineBlock) :
    blockEntries (base + start) file b = (blockEntries start file b).map (.moved base) := by
  rw [blockEntries, blockEntries, List.map_map]
  refine List.map_congr_left fun l _ => ?_
  rw [Function.comp_apply, entryOf, UInt64.add_assoc]
  rfl

theorem addBlocks_moved (p : Progress) (bs : List LineBlock) :
    addBlocks checksums names (base + start) (p.moved base) bs
      = (addBlocks checksums names start p bs).map fun r =>
        (r.1.moved base, r.2.map (.moved base)) := by
  induction bs generalizing p with
  | nil => rfl
  | cons b bs ih =>
    rw [addBlocks, addBlocks, fileOf_moved]
    cases fileOf checksums names p b.file.toNat with
    | error e => rfl
    | ok r =>
      obtain ⟨q, file⟩ := r
      dsimp only [bind, Except.bind, Except.map]
      rw [ih]
      cases addBlocks checksums names start q bs with
      | error e => rfl
      | ok rest =>
        dsimp only [Except.map, pure, Except.pure]
        rw [List.map_append, blockEntries_moved]

theorem terminal_moved (base start : UInt64) (size : UInt32) (es : List LineEntry) :
    terminal (base + start) size (es.map (.moved base)) = (terminal start size es).map (.moved base) := by
  rw [terminal, terminal, List.getLast?_map]
  cases es.getLast? with
  | none => rfl
  | some e =>
    rw [Option.map_some, UInt64.add_assoc]
    rfl

theorem addContribution_moved (h : ∀ segment offset, place' segment offset = (place segment offset).map (base + ·))
    (p : Progress) (c : LineContribution) :
    addContribution checksums names place' (p.moved base) c
      = (addContribution checksums names place p c).map (.moved base) := by
  rw [addContribution, addContribution, h]
  cases place c.segment c.offset with
  | none => rfl
  | some start =>
    dsimp only [Option.map_some]
    rw [addBlocks_moved]
    cases addBlocks checksums names start p (LineBlock.list c.blocks) with
    | error e => rfl
    | ok r =>
      dsimp only [bind, Except.bind, Except.map, pure, Except.pure]
      rw [terminal_moved]
      simp only [Progress.moved, moved, List.map_append]

theorem addAll_moved (h : ∀ segment offset, place' segment offset = (place segment offset).map (base + ·))
    (checksums? : Option Bytes) (p : Progress) (ss : List Subsection) :
    addAll checksums? names place' (p.moved base) ss
      = (addAll checksums? names place p ss).map (.moved base) := by
  induction ss generalizing p with
  | nil => rfl
  | cons s ss ih =>
    cases checksums? with
    | none => rfl
    | some checksums =>
      rw [addAll, addAll]
      cases Fault.orMalformed (LineContribution.parse? s.data) with
      | error e => rfl
      | ok c =>
        dsimp only [bind, Except.bind]
        rw [addContribution_moved h]
        cases addContribution checksums names place p c with
        | error e => rfl
        | ok q => exact ih q

/-- Entries are less than `3 * 2 ^ 32` above the load address if places are less than `2 * 2 ^ 32`. -/
theorem Behind.lt (h : Behind place address)
    (hplace : ∀ segment offset start, place segment offset = some start → start.toNat < 2 * 2 ^ 32) :
    address.toNat < 3 * 2 ^ 32 := by
  obtain ⟨segment, offset, start, hstart, distance, rfl⟩ := h
  have hlt := hplace segment offset start hstart
  have hdistance := distance.toNat_lt
  rw [UInt64.toNat_add, UInt32.toNat_toUInt64]
  omega

theorem sort_moved (hbase : HasRoom base) {es : List LineEntry}
    (hlt : ∀ e ∈ es, e.address.toNat < 3 * 2 ^ 32) :
    sort (es.map (.moved base)) = (sort es).map (.moved base) := by
  refine (List.map_mergeSort fun a ha b hb => decide_eq_decide.2 ?_).symm
  have hless : base + a.address < base + b.address ↔ a.address < b.address :=
    hbase.lt_iff (hlt a ha) (hlt b hb)
  have hsame : base + a.address = base + b.address ↔ a.address = b.address := by grind
  exact or_congr hless.symm (and_congr hsame.symm Iff.rfl)

theorem build_moved (hbase : HasRoom base)
    (hplace : ∀ segment offset start, place segment offset = some start → start.toNat < 2 * 2 ^ 32)
    (h : ∀ segment offset, place' segment offset = (place segment offset).map (base + ·))
    (lineData : Bytes) :
    build lineData names place' = (build lineData names place).map (.moved base) := by
  have hadd (checksums? : Option Bytes) (ss : List Subsection) :
      addAll checksums? names place' ⟨⟨[], []⟩, []⟩ ss
        = (addAll checksums? names place ⟨⟨[], []⟩, []⟩ ss).map (.moved base) :=
    addAll_moved h checksums? ⟨⟨[], []⟩, []⟩ ss
  dsimp only [build]
  rw [hadd]
  cases hp : addAll (checksums? (Subsection.list lineData)) names place ⟨⟨[], []⟩, []⟩
      ((Subsection.list lineData).filter (·.kind = .lines)) with
  | error e => rfl
  | ok p =>
    have hlt (e : LineEntry) (he : e ∈ p.table.entries) : e.address.toNat < 3 * 2 ^ 32 :=
      ((sound_addAll sound_new hp).placed he).lt hplace
    have hsort := sort_moved hbase hlt
    show Except.ok (LineTable.mk _ (sort (p.table.entries.map _))) = _
    rw [hsort]
    rfl

theorem find?_moved (hbase : HasRoom base) (haddress : base.toNat + address.toNat < 2 ^ 64)
    {t : LineTable} (hlt : ∀ e ∈ t.entries, e.address.toNat < 3 * 2 ^ 32) :
    (t.moved base).find? (base + address) = (t.find? address).map (.moved base) := by
  rw [find?, find?, moved]
  rw [getLast?_takeWhile_map (f := LineEntry.moved base) fun e he => hbase.le_iff (hlt e he) haddress]
  cases (t.entries.takeWhile fun e => decide (e.address ≤ address)).getLast? with
  | none => rfl
  | some e =>
    rw [Option.map_some, Option.filter_some, Option.filter_some]
    show (if (!e.isTerminal) = true then _ else _) = _
    split <;> rfl

end LineTable

/-! ### Answers -/

def SymbolContext.moved (base : UInt64) (c : SymbolContext) : SymbolContext :=
  { c with function? := c.function?.map (.moved base), line? := c.line?.map (.moved base) }

namespace Database
variable {d : Database} {base address : UInt64}

theorem lineTable?_loadedAt (hbase : HasRoom base) (module : Nat) :
    (d.loadedAt base).lineTable? module = ((d.loadedAt 0).lineTable? module).map (.moved base) := by
  have hbuild (lineData : Bytes) : LineTable.build lineData d.names (d.loadedAt base).addressOf?
      = (LineTable.build lineData d.names (d.loadedAt 0).addressOf?).map (.moved base) :=
    LineTable.build_moved hbase (fun _ _ _ => addressOf?_lt) (addressOf?_loadedAt d base) lineData
  have hin (stream? : Option ModuleStream) : (d.loadedAt base).lineTableIn? stream?
      = ((d.loadedAt 0).lineTableIn? stream?).map (.moved base) := by
    cases stream? with
    | none => rfl
    | some m =>
      exact bind_moved fun lineData =>
        (congrArg Except.toOption (hbuild lineData)).trans (toOption_map _ _)
  exact bind_moved hin

/-- The entries of a line table are less than `3 * 2 ^ 32` above the load address. -/
theorem address_lt_of_lineTable? {module : Nat} {t : LineTable}
    (h : (d.loadedAt 0).lineTable? module = some t) {e : LineEntry} (he : e ∈ t.entries) :
    e.address.toNat < 3 * 2 ^ 32 :=
  (sound_of_lineTable? h he).2.lt fun _ _ _ => addressOf?_lt

/-- The line in a table that is moved, and its file. -/
theorem line_moved (hbase : HasRoom base) (haddress : base.toNat + address.toNat < 2 ^ 64)
    {table? : Option LineTable}
    (hlt : ∀ t, table? = some t → ∀ e ∈ t.entries, e.address.toNat < 3 * 2 ^ 32) :
    (table?.bind fun t => (t.moved base).find? (base + address))
        = (table?.bind (·.find? address)).map (LineEntry.moved base)
      ∧ ∀ e : LineEntry, (table?.bind fun t => (t.moved base).fileName? (e.moved base))
        = table?.bind (·.fileName? e) := by
  cases table? with
  | none => exact ⟨rfl, fun _ => rfl⟩
  | some t => exact ⟨LineTable.find?_moved hbase haddress (hlt t rfl), fun _ => rfl⟩

/-- What is found at an address is moved with the image. -/
theorem contextAt_loadedAt [UnstableSort] (hbase : HasRoom base)
    (haddress : base.toNat + address.toNat < 2 ^ 64) (items : ContextItems) :
    (d.loadedAt base).contextAt (base + address) items
      = ((d.loadedAt 0).contextAt address items).moved base := by
  rw [contextAt, contextAt]
  by_cases hitems : items = .none
  · rw [if_pos hitems, if_pos hitems]
    rfl
  rw [if_neg hitems, if_neg hitems, moduleAt?_loadedAt hbase haddress]
  cases (d.loadedAt 0).moduleAt? address with
  | none => rfl
  | some module =>
    have hunit : (d.loadedAt base).compileUnit? module = (d.loadedAt 0).compileUnit? module := rfl
    rw [Option.bind_some, Option.bind_some, hunit]
    cases (d.loadedAt 0).compileUnit? module with
    | none => rfl
    | some u =>
      dsimp only [Option.map_some]
      have hfunction : (if items.contains .function then
            (d.loadedAt base).functionAt? module (base + address) else none)
          = (if items.contains .function then
            (d.loadedAt 0).functionAt? module address else none).map (.moved base) := by
        rw [functionAt?_loadedAt hbase]
        split <;> rfl
      have htable : (if items.contains .line then (d.loadedAt base).lineTable? module.toNat else none)
          = (if items.contains .line then
            (d.loadedAt 0).lineTable? module.toNat else none).map (.moved base) := by
        rw [lineTable?_loadedAt hbase]
        split <;> rfl
      have hlt (t : LineTable) (ht : (if items.contains .line then
          (d.loadedAt 0).lineTable? module.toNat else none) = some t) (e : LineEntry)
          (he : e ∈ t.entries) : e.address.toNat < 3 * 2 ^ 32 := by
        split_ifs at ht
        exact address_lt_of_lineTable? ht he
      obtain ⟨hline, hfile⟩ := line_moved hbase haddress hlt
      simp only [hfunction, htable, hline, Option.bind_map, Function.comp_def, hfile]
      rfl

theorem exists_functionAt?_of_contextAt [UnstableSort] {items : ContextItems} {f : Function}
    (h : (d.contextAt address items).function? = some f) :
    ∃ module, d.functionAt? module address = some f := by
  rw [contextAt] at h
  by_cases hitems : items = .none
  · rw [if_pos hitems] at h
    cases h
  rw [if_neg hitems] at h
  cases hmodule : d.moduleAt? address with
  | none =>
    rw [hmodule] at h
    cases h
  | some module =>
    cases hunit : d.compileUnit? module with
    | none =>
      rw [hmodule, Option.bind_some, hunit] at h
      cases h
    | some u =>
      rw [hmodule, Option.bind_some, hunit] at h
      dsimp only [Option.map_some] at h
      split_ifs at h
      exact ⟨module, h⟩

/-- The addresses of a function that is found are less than `3 * 2 ^ 32` above the load address. -/
theorem function_lt_of_contextAt [UnstableSort] {items : ContextItems} {f : Function}
    (h : ((d.loadedAt 0).contextAt address items).function? = some f) :
    f.start.toNat < 3 * 2 ^ 32 ∧ f.stop.toNat < 3 * 2 ^ 32 := by
  obtain ⟨module, h⟩ := exists_functionAt?_of_contextAt h
  obtain ⟨found?, -, h⟩ := Option.bind_eq_some_iff.1 h
  obtain ⟨offset, -, h⟩ := Option.bind_eq_some_iff.1 h
  exact function?_lt h

theorem line_lt_of_contextAt [UnstableSort] {items : ContextItems} {e : LineEntry}
    (h : ((d.loadedAt 0).contextAt address items).line? = some e) : e.address.toNat < 3 * 2 ^ 32 := by
  obtain ⟨-, -, u, t, file, -, htable, he, -⟩ :=
    ((d.loadedAt 0).coherent_contextAt address items).line h
  exact address_lt_of_lineTable? htable he

end Database

/-! ### A database with one function -/

namespace DatabasePlan

/-- One section, and one module with a function of 32 bytes at 16 in the section. -/
def oneFunction : DatabasePlan where
  guid := defaultGuid
  sections := [section_ [46, 116] 4096 512]
  modules := [{
    name := [109]
    symbols := (SymbolList.ofModule.openProc .globalProc32 ⟨0x1000⟩ ⟨16, 1⟩ 32 [102]).2.closeProc.2.encode
    lines := [] }]
  contributions := [contribution 1 0 512 0]

/-- The function, as it is read. -/
def theFunction : ProcSymbol where
  parent := 0
  end_ := 48
  next := 0
  length := 32
  debugStart := 0
  debugEnd := 32
  type := ⟨0x1000⟩
  address := ⟨16, 1⟩
  flags := 0
  name := [102]

end DatabasePlan

namespace Database
open DatabasePlan

variable {d : Database}

theorem addressOf?_oneFunction (hd : d.Holds oneFunction) (hbase : d.options.loadAddress = 0x10000)
    (offset : UInt32) : d.addressOf? 1 offset = some (0x11000 + offset.toUInt64) := by
  rw [addressOf?, hd.sections, hbase]
  rfl

theorem moduleAt?_oneFunction [UnstableSort] (hd : d.Holds oneFunction)
    (hbase : d.options.loadAddress = 0x10000) :
    d.moduleAt? 0x11014 = some 0 := by
  have hcontributions : d.contributions = [contribution 1 0 512 0] := by
    rw [contributions, hd.contributions]
    rfl
  have hrange : d.rangeOf? (contribution 1 0 512 0) = some ⟨0x11000, 512, 0⟩ :=
    rangeOf?_eq (by decide) (addressOf?_oneFunction hd hbase 0) (by decide)
  have hsorted : d.ranges = [⟨0x11000, 512, 0⟩] := by
    rw [ranges, hcontributions, List.filterMap_cons_some hrange, List.filterMap_nil]
    exact List.perm_singleton.1 (UnstableSort.perm _ _)
  rw [moduleAt?, hsorted]
  decide

theorem exists_records_oneFunction (hd : d.Holds oneFunction) : ∃ s r stop,
    d.moduleStream 0 = .ok (some s) ∧ s.records = .ok [(4, r), (48, stop)]
      ∧ procOf? r = some theFunction ∧ procOf? stop = none
      ∧ headSymbols [(4, r), (48, stop)] = [] := by
  obtain ⟨s, hstream, hdata, -⟩ := hd.moduleStream 0 _ rfl
  refine ⟨s, ⟨4368, [0, 0, 0, 0, 48, 0, 0, 0, 0, 0, 0, 0, 32, 0, 0, 0, 0, 0, 0, 0, 32, 0, 0, 0, 0, 16,
    0, 0, 16, 0, 0, 0, 1, 0, 0, 102, 0, 241, 242, 243]⟩, ⟨6, []⟩, hstream, ?_, rfl, rfl, rfl⟩
  rw [ModuleStream.records, hdata]
  exact congrArg Except.ok (by decide +kernel)

theorem compileUnit?_oneFunction (hd : d.Holds oneFunction) :
    d.compileUnit? 0 = some ⟨0, [109], [109], .unknown, false⟩ := by
  obtain ⟨s, r, stop, hstream, hrecords, -, -, hhead⟩ := exists_records_oneFunction hd
  have hdescriptor : d.modules[(0 : UInt16).toNat]? = some ⟨0, [109], [109], some 8, 52, 0, 0⟩ := by
    rw [hd.modules]
    rfl
  rw [compileUnit?, hdescriptor]
  show (d.moduleStream 0).toOption.bind _ = _
  rw [hstream]
  show s.records.toOption.bind _ = _
  rw [hrecords]
  show some _ = _
  rw [hhead]
  rfl

theorem functionAt?_oneFunction (hd : d.Holds oneFunction) (hbase : d.options.loadAddress = 0x10000) :
    d.functionAt? 0 0x11014 = some ⟨0, 4, [102], 0x11010, 0x11030, ⟨0x1000⟩⟩ := by
  obtain ⟨s, r, stop, hstream, hrecords, hproc, hstop, -⟩ := exists_records_oneFunction hd
  have hstart := addressOf?_oneFunction hd hbase 16
  have hprocedure : d.procedureAt? 0 0x11014 = .ok (some 4) := by
    have hcovers : d.covers 0x11014 theFunction = true := by
      rw [covers, theFunction, hstart]
      decide
    have hfound : [(4, r), (48, stop)].filter (fun q => (procOf? q.2).any (d.covers 0x11014))
        = [((4 : UInt32), r)] := by
      simp [hproc, hstop, hcovers]
    rw [procedureAt?, hstream]
    show s.records >>= _ = _
    rw [hrecords]
    show Except.ok ((List.getLast? _).map _) = _
    rw [hfound]
    rfl
  have hread : s.recordAt 4 = .ok r := ModuleStream.recordAt_of_mem hrecords List.mem_cons_self
  rw [functionAt?, show (0 : UInt16).toNat = 0 from rfl, hprocedure]
  show (d.moduleStream 0).toOption.bind _ = _
  rw [hstream]
  show (s.recordAt 4).toOption.bind _ = _
  rw [hread]
  show (procOf? r).bind _ = _
  rw [hproc]
  refine functionOf?_eq hstart ?_ (by decide)
  rw [hbase]
  decide

theorem contextAt_oneFunction [UnstableSort] (hd : d.Holds oneFunction)
    (hbase : d.options.loadAddress = 0x10000) :
    d.contextAt 0x11014 .function = {
      compileUnit? := some ⟨0, [109], [109], .unknown, false⟩
      function? := some ⟨0, 4, [102], 0x11010, 0x11030, ⟨0x1000⟩⟩
      line? := none
      file? := none } := by
  rw [contextAt, if_neg (by decide), moduleAt?_oneFunction hd hbase, Option.bind_some,
    compileUnit?_oneFunction hd]
  dsimp only [Option.map_some]
  rw [if_pos (by decide), functionAt?_oneFunction hd hbase, if_neg (by decide)]
  rfl

end Database

/-! ### The image at two load addresses -/

/-- The one address is as far above its load address as the other above another one. -/
def Shifted (base base' address address' : UInt64) : Prop :=
  address'.toNat + base.toNat = address.toNat + base'.toNat

theorem HasRoom.shifted {base base' a : UInt64} (h : HasRoom base) (h' : HasRoom base')
    (ha : a.toNat < 3 * 2 ^ 32) : Shifted base base' (base + a) (base' + a) := by
  rw [Shifted, h.toNat_add ha, h'.toNat_add ha]
  omega

/-- A function of the image, as it is found with another load address. -/
structure Function.Relocated (base base' : UInt64) (f f' : Function) : Prop where
  uid_eq : f'.uid = f.uid
  unit_eq : f'.unitUid = f.unitUid
  name_eq : f'.name = f.name
  type_eq : f'.type = f.type
  start : Shifted base base' f.start f'.start
  stop : Shifted base base' f.stop f'.stop

/-- An entry of a line table, as it is found with another load address. -/
structure LineEntry.Relocated (base base' : UInt64) (e e' : LineEntry) : Prop where
  address : Shifted base base' e.address e'.address
  line_eq : e'.line = e.line
  file_eq : e'.file = e.file
  isStatement_eq : e'.isStatement = e.isStatement
  isTerminal_eq : e'.isTerminal = e.isTerminal

/-- What is known of an address, as it is known with another load address. -/
structure SymbolContext.Relocated (base base' : UInt64) (c c' : SymbolContext) : Prop where
  compileUnit_eq : c'.compileUnit? = c.compileUnit?
  function : Option.Rel (Function.Relocated base base') c.function? c'.function?
  line : Option.Rel (LineEntry.Relocated base base') c.line? c'.line?
  file_eq : c'.file? = c.file?

theorem rel_map {α : Type} {R : α → α → Prop} {f g : α → α} {x? : Option α}
    (h : ∀ x, x? = some x → R (f x) (g x)) : Option.Rel R (x?.map f) (x?.map g) := by
  cases x? with
  | none => exact .none
  | some x => exact .some (h x rfl)

theorem SymbolContext.found_moved (base : UInt64) (c : SymbolContext) :
    (c.moved base).found = c.found := by
  rw [found, found, moved, Option.isSome_map, Option.isSome_map]

namespace Database
variable {d : Database} {base base' r : UInt64}

theorem relocated_contextAt [UnstableSort] (h : HasRoom base) (h' : HasRoom base')
    (hr : base.toNat + r.toNat < 2 ^ 64) (hr' : base'.toNat + r.toNat < 2 ^ 64)
    (items : ContextItems) :
    let c := (d.loadedAt base).contextAt (base + r) items
    let c' := (d.loadedAt base').contextAt (base' + r) items
    c'.found = c.found ∧ c.Relocated base base' c' := by
  intro c c'
  have hc : c = _ := contextAt_loadedAt h hr items
  have hc' : c' = _ := contextAt_loadedAt h' hr' items
  rw [hc, hc', SymbolContext.found_moved, SymbolContext.found_moved]
  refine ⟨rfl, rfl, rel_map fun f hf => ?_, rel_map fun e he => ?_, rfl⟩
  · obtain ⟨hstart, hstop⟩ := function_lt_of_contextAt hf
    exact ⟨rfl, rfl, rfl, rfl, h.shifted h' hstart, h.shifted h' hstop⟩
  · exact ⟨h.shifted h' (line_lt_of_contextAt he), rfl, rfl, rfl, rfl⟩

theorem parse_loadedAt (image : Array UInt8) (options : OpenOptions) (base : UInt64) :
    parse image { options with loadAddress := base } = (parse image options).map (·.loadedAt base) := by
  show _ = (·.loadedAt base) <$> parse image options
  simp only [parse, map_bind, map_pure]
  rfl

theorem loadAddress_of_parse {image : Array UInt8} (options : OpenOptions)
    (h : parse image { options with loadAddress := base } = .ok d) : d.options.loadAddress = base := by
  rw [parse_loadedAt] at h
  obtain ⟨o, -, rfl⟩ := exists_of_map_eq_ok h
  rfl

/-- With another load address the same image is opened alike, and the same is found at the same
distance above it, whatever has been read before. -/
theorem resolve_relocated [UnstableSort] (image : Array UInt8) (options : OpenOptions)
    (base base' : UInt64)
    (h : base.toNat + 3 * 2 ^ 32 ≤ 2 ^ 64) (h' : base'.toNat + 3 * 2 ^ 32 ≤ 2 ^ 64) {d : Database}
    (hparse : parse image { options with loadAddress := base } = .ok d) :
    ∃ d', parse image { options with loadAddress := base' } = .ok d' ∧ ∀ (r : UInt64),
      base.toNat + r.toNat < 2 ^ 64 → base'.toNat + r.toNat < 2 ^ 64 →
      ∀ (qs qs' : List Question) (items : ContextItems),
        let a := ((Recall.resolve d (base + r) items).run (Memo.after d qs)).1
        let a' := ((Recall.resolve d' (base' + r) items).run (Memo.after d' qs')).1
        a'.found = a.found ∧ a.context.Relocated base base' a'.context := by
  rw [parse_loadedAt] at hparse
  obtain ⟨o, ho, rfl⟩ := exists_of_map_eq_ok hparse
  refine ⟨o.loadedAt base', by rw [parse_loadedAt, ho]; rfl, fun r hr hr' qs qs' items => ?_⟩
  obtain ⟨hanswer, -⟩ := Recall.answers_resolve (o.loadedAt base) (base + r) items _
    (Memo.faithful_after _ qs)
  obtain ⟨hanswer', -⟩ := Recall.answers_resolve (o.loadedAt base') (base' + r) items _
    (Memo.faithful_after _ qs')
  rw [hanswer, hanswer']
  exact relocated_contextAt h h' hr hr' items

/-- What is found in the function, where the image is loaded at `0x10000`. -/
theorem resolve_oneFunction [UnstableSort] (hd : d.Holds .oneFunction)
    (hbase : d.options.loadAddress = 0x10000) :
    ((Recall.resolve d 0x11014 .function).run {}).1 = {
      context := {
        compileUnit? := some ⟨0, [109], [109], .unknown, false⟩
        function? := some ⟨0, 4, [102], 0x11010, 0x11030, ⟨0x1000⟩⟩
        line? := none
        file? := none }
      found := ⟨3⟩ } := by
  obtain ⟨hanswer, -⟩ := Recall.answers_resolve d 0x11014 .function {} (.empty d)
  rw [hanswer, contextAt_oneFunction hd hbase]
  rfl

/-- The function is found with two load addresses. -/
theorem resolve_relocated_oneFunction : ∃ _ : UnstableSort, ∃ image d d' f f',
    DatabasePlan.oneFunction.encode = some image
    ∧ parse image.toArray { loadAddress := 0x10000 } = .ok d
    ∧ parse image.toArray { loadAddress := 0x7ff600000000 } = .ok d'
    ∧ let a := ((Recall.resolve d 0x11014 .function).run {}).1
      let a' := ((Recall.resolve d' 0x7ff600001014 .function).run {}).1
      a.found = ⟨3⟩ ∧ a'.found = ⟨3⟩ ∧ a.context.function? = some f ∧ a'.context.function? = some f'
        ∧ f.start = 0x11010 ∧ f'.start = 0x7ff600001010 ∧ f'.name = [102] := by
  obtain ⟨sort⟩ : Nonempty UnstableSort := ⟨.stable⟩
  have hencodable : DatabasePlan.oneFunction.Encodable := by decide +kernel
  obtain ⟨image, d, hencode, hparse, hholds⟩ := DatabasePlan.exists_holds hencodable .globals rfl
    (by decide) { loadAddress := 0x10000 }
  obtain ⟨d', hparse', hsame⟩ := resolve_relocated image.toArray {} 0x10000 0x7ff600000000
    (by decide) (by decide) hparse
  have hresolve := resolve_oneFunction hholds (loadAddress_of_parse {} hparse)
  have hboth := hsame 4116 (by decide) (by decide) [] [] .function
  have haddress : (0x10000 : UInt64) + 4116 = 0x11014 := by decide
  have haddress' : (0x7ff600000000 : UInt64) + 4116 = 0x7ff600001014 := by decide
  have hnothing (d : Database) : Memo.after d [] = {} := rfl
  dsimp only at hboth
  rw [haddress, haddress', hnothing, hnothing, hresolve] at hboth
  obtain ⟨hfound, hcontext⟩ := hboth
  have hfunction := hcontext.function
  generalize hf' : ((Recall.resolve d' 0x7ff600001014 .function).run {}).1.context.function? = f'?
    at hfunction
  cases hfunction with
  | @some f f' hmoved =>
    have hstart : f'.start.toNat + 65536 = 69648 + 140694538682368 := hmoved.start
    have hstart' : f'.start = 0x7ff600001010 := UInt64.toNat_inj.1 (Nat.add_right_cancel hstart)
    refine ⟨sort, image, d, d', ⟨0, 4, [102], 0x11010, 0x11030, ⟨0x1000⟩⟩, f', hencode, hparse, hparse', ?_⟩
    dsimp only
    rw [hresolve]
    exact ⟨rfl, hfound, rfl, hf', rfl, hstart', hmoved.name_eq⟩

end Database
end Pdb
