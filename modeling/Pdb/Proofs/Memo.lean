import Mathlib.Tactic.SplitIfs
import Pdb.Database.Memo
import Pdb.Proofs.Uid

/-! # What is kept is what would be read again

A memo is faithful to a database if all that it holds is what the database says. `Recall.Answers d c a`:
whatever has been read before, the question `c` has the answer `a`, and it leaves a faithful memo
behind. Each question has the answer of the database itself (`answers_compileUnit?` and so on), so the
memo is faithful after any questions: `faithful_after`.
-/

namespace Pdb

theorem Table.find?_insert_eq_some {κ υ : Type} [DecidableEq κ] {t : Table κ υ} {k j : κ} {v w : υ}
    (h : (t.insert k v).find? j = some w) : (j = k ∧ v = w) ∨ t.find? j = some w := by
  rw [find?_insert] at h
  split_ifs at h with hj
  · exact .inl ⟨hj, Option.some.inj h⟩
  · exact .inr h

/-- What the memo holds is what the database says. -/
structure Memo.Faithful [UnstableSort] (d : Database) (memo : Memo) : Prop where
  ranges {rs : List AddressRange} : memo.ranges? = some rs → d.ranges = rs
  stream {module : UInt16} {s : ModuleStream} :
    memo.streams.find? module = some s → d.moduleStream module.toNat = .ok (some s)
  unit {module : UInt16} {u : CompileUnit} :
    memo.units.find? module = some u → d.compileUnit? module = some u
  function {module : UInt16} {offset : UInt32} {f : Function} :
    memo.functions.find? (Entity.unitSymbol module offset).uid = some f →
      d.function? module offset = some f
  variable_ {offset : UInt32} {flag : Bool} {v : Variable} :
    memo.globals.find? (Entity.globalSymbol offset flag).uid = some v →
      d.variableAt? offset flag = some v
  lineTable {module : UInt16} {t : LineTable} :
    memo.lineTables.find? module = some t → d.lineTable? module.toNat = some t

namespace Memo.Faithful
variable [UnstableSort] {d : Database} {memo : Memo} {module : UInt16} {offset : UInt32}

theorem empty (d : Database) : Faithful d {} where
  ranges := nofun
  stream := nofun
  unit := nofun
  function := nofun
  variable_ := nofun
  lineTable := nofun

theorem keep_ranges (h : memo.Faithful d) : (Slot.ranges.keep d.ranges memo).Faithful d :=
  { h with ranges := fun hrs => Option.some.inj hrs }

theorem keep_stream (h : memo.Faithful d) {s : ModuleStream}
    (hs : d.moduleStream module.toNat = .ok (some s)) : ((Slot.stream module).keep s memo).Faithful d := by
  refine { h with stream := ?_ }
  intro _ _ hfind
  rcases Table.find?_insert_eq_some hfind with ⟨rfl, rfl⟩ | hfind
  · exact hs
  · exact h.stream hfind

theorem keep_unit (h : memo.Faithful d) {u : CompileUnit} (hu : d.compileUnit? module = some u) :
    ((Slot.unit module).keep u memo).Faithful d := by
  refine { h with unit := ?_ }
  intro _ _ hfind
  rcases Table.find?_insert_eq_some hfind with ⟨rfl, rfl⟩ | hfind
  · exact hu
  · exact h.unit hfind

/-- No other function has the same number. -/
theorem keep_function (h : memo.Faithful d) {f : Function} (hf : d.function? module offset = some f) :
    ((Slot.function (Entity.unitSymbol module offset).uid).keep f memo).Faithful d := by
  refine { h with function := ?_ }
  intro _ _ _ hfind
  rcases Table.find?_insert_eq_some hfind with ⟨huid, rfl⟩ | hfind
  · obtain ⟨rfl, rfl⟩ := Entity.unitSymbol.inj (Entity.uid_inj huid)
    exact hf
  · exact h.function hfind

theorem keep_variable {flag : Bool} (h : memo.Faithful d) {v : Variable}
    (hv : d.variableAt? offset flag = some v) :
    ((Slot.variable_ (Entity.globalSymbol offset flag).uid).keep v memo).Faithful d := by
  refine { h with variable_ := ?_ }
  intro _ _ _ hfind
  rcases Table.find?_insert_eq_some hfind with ⟨huid, rfl⟩ | hfind
  · obtain ⟨rfl, rfl⟩ := Entity.globalSymbol.inj (Entity.uid_inj huid)
    exact hv
  · exact h.variable_ hfind

theorem keep_lineTable (h : memo.Faithful d) {t : LineTable}
    (ht : d.lineTable? module.toNat = some t) : ((Slot.lineTable module).keep t memo).Faithful d := by
  refine { h with lineTable := ?_ }
  intro _ _ hfind
  rcases Table.find?_insert_eq_some hfind with ⟨rfl, rfl⟩ | hfind
  · exact ht
  · exact h.lineTable hfind

end Memo.Faithful

namespace Recall
variable {α β : Type}

theorem module_of_functionOf? {d : Database} {module : UInt16} {offset : UInt32} {p : ProcSymbol}
    {f : Function} (h : d.functionOf? module offset p = some f) : f.module = module := by
  obtain ⟨start, -, h⟩ := Option.bind_eq_some_iff.1 h
  obtain ⟨_, -, h⟩ := Option.bind_eq_some_iff.1 h
  obtain ⟨_, -, h⟩ := Option.bind_eq_some_iff.1 h
  exact Option.some.inj h ▸ rfl

/-- A function is read from its symbol. -/
theorem exists_functionOf? {d : Database} {module : UInt16} {offset : UInt32} {f : Function}
    (h : d.function? module offset = some f) : ∃ p, d.functionOf? module offset p = some f := by
  obtain ⟨stream?, -, h⟩ := Option.bind_eq_some_iff.1 h
  cases stream? with
  | none => exact nomatch h
  | some m =>
    obtain ⟨r, -, h⟩ := Option.bind_eq_some_iff.1 h
    obtain ⟨p, -, h⟩ := Option.bind_eq_some_iff.1 h
    exact ⟨p, h⟩

theorem module_of_function? {d : Database} {module : UInt16} {offset : UInt32} {f : Function}
    (h : d.function? module offset = some f) : f.module = module := by
  obtain ⟨p, hp⟩ := exists_functionOf? h
  exact module_of_functionOf? hp

theorem limited_map (f : α → β) (limit : Nat) (xs : List α) :
    Database.limited limit (xs.map f) = (Database.limited limit xs).map f := by
  rw [Database.limited, Database.limited]
  split_ifs
  · rfl
  · exact List.map_take.symm

/-- The parts that are added are those that are there in the end. -/
theorem addParts_eq (u : CompileUnit) (function? : Option Function) (table? : Option LineTable)
    (address : UInt64) :
    let r := function?.elim (Resolution.addUnit {} u) (Resolution.addUnit {} u).addFunction
    let line? := table?.bind (·.find? address)
    let c : SymbolContext := ⟨u, function?, line?, line?.bind fun e => table?.bind (·.fileName? e)⟩
    (table?.elim r fun t => (t.find? address).elim r (r.addLine t)) = ⟨c, c.found⟩ := by
  have hparts (b c : Bool) : ContextItems.union
        (ContextItems.union (.when true .compileUnit) (.when b .function)) (.when c .line)
      = let r := bif b then ContextItems.compileUnit.union .function else .compileUnit
        bif c then r.union .line else r := by
    cases b <;> cases c <;> rfl
  dsimp only [SymbolContext.found, Option.isSome_some]
  rw [hparts]
  cases table? with
  | none => cases function? <;> rfl
  | some t =>
    dsimp only [Option.elim_some, Option.bind_some]
    cases t.find? address <;> cases function? <;> rfl

variable [UnstableSort] {d : Database}

/-- The question has this answer, whatever has been read before. -/
def Answers (d : Database) (c : Recall α) (a : α) : Prop :=
  ∀ memo : Memo, memo.Faithful d → (c.run memo).1 = a ∧ (c.run memo).2.Faithful d

theorem Answers.pure (a : α) : Answers d (pure a) a := fun _ hmemo => ⟨rfl, hmemo⟩

theorem Answers.bind {c : Recall α} {f : α → Recall β} {a : α} {b : β} (h : Answers d c a)
    (hf : Answers d (f a) b) : Answers d (c >>= f) b := by
  intro memo hmemo
  obtain ⟨rfl, hafter⟩ := h memo hmemo
  exact hf _ hafter

theorem Answers.map {c : Recall α} {a : α} (h : Answers d c a) (f : α → β) :
    Answers d (do return f (← c)) (f a) :=
  h.bind (.pure (f a))

/-- A kept answer is right if it is what would be made. -/
theorem answers_lookUp {slot : Slot α} {shown : α → β} {part? : β → Option α} {answer : Recall β} {b : β}
    (hkept : ∀ memo a, memo.Faithful d → slot.kept? memo = some a → shown a = b)
    (hkeep : ∀ memo a, memo.Faithful d → part? b = some a → (slot.keep a memo).Faithful d)
    (hanswer : Answers d answer b) : Answers d (slot.lookUp shown part? answer) b := by
  have hmake : Answers d (slot.make part? answer) b := by
    refine hanswer.bind ?_
    cases hpart : part? b with
    | none => exact .pure b
    | some a => exact fun memo hmemo => ⟨rfl, hkeep memo a hmemo hpart⟩
  intro memo hmemo
  cases hslot : slot.kept? memo with
  | some a =>
    have hrun : (slot.lookUp shown part? answer).run memo = (shown a, memo) := by
      simp only [Slot.lookUp, StateT.run_bind, StateT.run_get, pure_bind, hslot]
      rfl
    exact hrun ▸ ⟨hkept memo a hmemo hslot, hmemo⟩
  | none =>
    have hrun : (slot.lookUp shown part? answer).run memo = (slot.make part? answer).run memo := by
      simp only [Slot.lookUp, StateT.run_bind, StateT.run_get, pure_bind, hslot]
    exact hrun ▸ hmake memo hmemo

variable (d)

theorem answers_ranges : Answers d (ranges d) d.ranges :=
  answers_lookUp (fun _ _ hmemo hkept => (hmemo.ranges hkept).symm)
    (fun _ _ hmemo hpart => Option.some.inj hpart ▸ hmemo.keep_ranges) (.pure _)

theorem answers_moduleAt? (address : UInt64) :
    Answers d (moduleAt? d address) (d.moduleAt? address) :=
  (answers_ranges d).map _

theorem answers_moduleStream (module : UInt16) :
    Answers d (moduleStream d module) (d.moduleStream module.toNat) := by
  refine answers_lookUp (fun _ _ hmemo hkept => (hmemo.stream hkept).symm) ?_ (.pure _)
  intro memo s hmemo hpart
  refine hmemo.keep_stream ?_
  match hstream : d.moduleStream module.toNat, hpart with
  | .ok (some s), rfl => rfl

theorem answers_compileUnit? (module : UInt16) :
    Answers d (compileUnit? d module) (d.compileUnit? module) := by
  refine answers_lookUp (fun _ _ hmemo hkept => (hmemo.unit hkept).symm)
    (fun _ _ hmemo hpart => hmemo.keep_unit hpart) ?_
  rw [Database.compileUnit?]
  cases d.modules[module.toNat]? with
  | none => exact .pure none
  | some m => exact (answers_moduleStream d module).map _

theorem answers_unitAt? (i : Nat) : Answers d (unitAt? d i) (d.unitAt? i) := by
  rw [unitAt?, Database.unitAt?]
  cases d.unitModule? i with
  | none => exact .pure none
  | some module => exact answers_compileUnit? d module

theorem answers_lineTable? (module : UInt16) :
    Answers d (lineTable? d module) (d.lineTable? module.toNat) :=
  answers_lookUp (fun _ _ hmemo hkept => (hmemo.lineTable hkept).symm)
    (fun _ _ hmemo hpart => hmemo.keep_lineTable hpart) ((answers_moduleStream d module).map _)

theorem answers_supportFiles? (module : UInt16) :
    Answers d (supportFiles? d module) (d.supportFiles? module.toNat) :=
  (answers_moduleStream d module).map _

theorem answers_procedureAt? (module : UInt16) (address : UInt64) :
    Answers d (procedureAt? d module address) (d.procedureAt? module.toNat address) :=
  (answers_moduleStream d module).map _

theorem answers_function? (module : UInt16) (offset : UInt32) :
    Answers d (function? d module offset) (d.function? module offset) :=
  answers_lookUp (fun _ _ hmemo hkept => (hmemo.function hkept).symm)
    (fun _ _ hmemo hpart => hmemo.keep_function hpart) ((answers_moduleStream d module).map _)

theorem answers_functionAt? (module : UInt16) (address : UInt64) :
    Answers d (functionAt? d module address) (d.functionAt? module address) := by
  refine (answers_procedureAt? d module address).bind ?_
  rw [Database.functionAt?]
  match d.procedureAt? module.toNat address with
  | .error _ => exact .pure none
  | .ok none => exact .pure none
  | .ok (some offset) => exact answers_function? d module offset

theorem answers_variableModule? (address? : Option UInt64) :
    Answers d (variableModule? d address?) (address?.bind d.moduleAt?) := by
  cases address? with
  | none => exact .pure none
  | some address => exact answers_moduleAt? d address

theorem answers_variableAt? (offset : UInt32) (flag : Bool) :
    Answers d (variableAt? d offset flag) (d.variableAt? offset flag) := by
  refine answers_lookUp (fun _ _ hmemo hkept => (hmemo.variable_ hkept).symm)
    (fun _ _ hmemo hpart => hmemo.keep_variable hpart) ?_
  rw [Database.variableAt?]
  cases (d.globals.recordAt offset.toNat).toOption with
  | none => exact .pure none
  | some r => exact (answers_variableModule? d _).map _

variable {d}

/-- Answers are made until there are enough of them. -/
theorem answers_upTo {ask : α → Recall (Option β)} {f : α → Option β}
    (h : ∀ x, Answers d (ask x) (f x)) {limit : Nat} (xs : List α) {found : List β}
    (hfound : limit ≠ 0 → found.length ≤ limit) :
    Answers d (upTo limit ask found xs) (Database.limited limit (found ++ xs.filterMap f)) := by
  induction xs generalizing found with
  | nil =>
    have hall : Database.limited limit (found ++ [].filterMap f) = found := by
      rw [List.filterMap_nil, List.append_nil, Database.limited]
      split_ifs with h0
      · rfl
      · exact List.take_of_length_le (hfound h0)
    rw [hall]
    exact .pure found
  | cons x xs ih =>
    rw [upTo]
    split_ifs with hfull
    · have htake : Database.limited limit (found ++ (x :: xs).filterMap f) = found := by
        have hlength : found.length = limit := Nat.le_antisymm (hfound hfull.1) hfull.2
        rw [Database.limited, if_neg hfull.1, ← hlength, List.take_left']
        rfl
      rw [htake]
      exact .pure found
    · refine (h x).bind ?_
      have hnext := @ih (found ++ (f x).toList) fun h0 => ?_
      · have hcons : found ++ (x :: xs).filterMap f = found ++ (f x).toList ++ xs.filterMap f := by
          rw [List.filterMap_cons, List.append_assoc]
          cases f x <;> rfl
        rwa [hcons]
      · have hroom : found.length < limit := Nat.lt_of_not_le fun hle => hfull ⟨h0, hle⟩
        rw [List.length_append]
        cases f x with
        | none => exact hfound h0
        | some y => exact hroom

theorem answers_variablesNamed (d : Database) (name : Bytes) (limit : Nat) :
    Answers d (variablesNamed d name limit) (d.variablesNamed name limit) :=
  answers_upTo (fun offset => answers_variableAt? d offset false) _ fun _ => Nat.zero_le _

/-- The function of one global symbol, with its compile unit. -/
theorem answers_functionContext? (d : Database) (offset : UInt32) :
    Answers d (functionContext? d offset)
      (((d.target? offset).bind fun target => d.function? target.1 target.2).map fun f =>
        { SymbolContext.empty with function? := some f, compileUnit? := d.compileUnit? f.module }) := by
  rw [functionContext?]
  cases d.target? offset with
  | none => exact .pure none
  | some target =>
    refine (answers_function? d target.1 target.2).bind ?_
    rw [Option.bind_some]
    cases hf : d.function? target.1 target.2 with
    | none => exact .pure none
    | some f =>
      rw [Option.map_some, module_of_function? hf]
      exact (answers_compileUnit? d target.1).map _

theorem answers_functionContexts (d : Database) (name : Bytes) (limit : Nat) :
    Answers d (functionContexts d name limit) (d.functionContexts name limit) := by
  have hlist : Answers d (functionContexts d name limit) (Database.limited limit _) :=
    answers_upTo (answers_functionContext? d) (d.globals.find name) fun _ => Nat.zero_le _
  rw [List.nil_append, ← List.map_filterMap, limited_map] at hlist
  exact hlist

/-! ### What is at an address -/

theorem answers_addFunctionAt (d : Database) (module : UInt16) (address : UInt64) (items : ContextItems)
    (r : Resolution) : Answers d (addFunctionAt d module address items r)
      ((if items.contains .function then d.functionAt? module address else none).elim r
        r.addFunction) := by
  rw [addFunctionAt]
  split_ifs
  · refine (answers_functionAt? d module address).bind ?_
    cases d.functionAt? module address with
    | none => exact .pure r
    | some f => exact .pure (r.addFunction f)
  · exact .pure r

theorem answers_addLineAt (d : Database) (module : UInt16) (address : UInt64) (items : ContextItems)
    (r : Resolution) : Answers d (addLineAt d module address items r)
      ((if items.contains .line then d.lineTable? module.toNat else none).elim r fun t =>
        (t.find? address).elim r (r.addLine t)) := by
  rw [addLineAt]
  split_ifs
  · refine (answers_lineTable? d module).bind ?_
    cases d.lineTable? module.toNat with
    | none => exact .pure r
    | some t =>
      dsimp only [Option.elim_some]
      cases t.find? address with
      | none => exact .pure r
      | some e => exact .pure (r.addLine t e)
  · exact .pure r

theorem answers_resolve (d : Database) (address : UInt64) (items : ContextItems) :
    Answers d (resolve d address items)
      ⟨d.contextAt address items, (d.contextAt address items).found⟩ := by
  have hnothing : Answers d (pure ({} : Resolution)) ⟨.empty, SymbolContext.empty.found⟩ := .pure _
  rw [resolve, Database.contextAt]
  by_cases hitems : items = .none
  · rw [if_pos hitems, if_pos hitems]
    exact hnothing
  rw [if_neg hitems, if_neg hitems]
  refine (answers_moduleAt? d address).bind ?_
  cases d.moduleAt? address with
  | none => exact hnothing
  | some module =>
    refine (answers_compileUnit? d module).bind ?_
    rw [Option.bind_some]
    cases d.compileUnit? module with
    | none => exact hnothing
    | some u =>
      have hparts := (answers_addFunctionAt d module address items (Resolution.addUnit {} u)).bind
        (answers_addLineAt d module address items _)
      rwa [addParts_eq] at hparts

end Recall

/-! ### Any questions -/

/-- A question to a database that is answered with a memo. -/
inductive Question
  | moduleAt (address : UInt64)
  | moduleStream (module : UInt16)
  | procedureAt (module : UInt16) (address : UInt64)
  | compileUnit (module : UInt16)
  | unitAt (i : Nat)
  | lineTable (module : UInt16)
  | supportFiles (module : UInt16)
  | function (module : UInt16) (offset : UInt32)
  | variableAt (offset : UInt32) (flag : Bool)
  | variablesNamed (name : Bytes) (limit : Nat)
  | functionContexts (name : Bytes) (limit : Nat)
  | resolve (address : UInt64) (items : ContextItems)

namespace Recall

/-- Asks a question for what is kept afterwards. -/
def ask [UnstableSort] (d : Database) : Question → Recall PUnit
  | .moduleAt address => discard (moduleAt? d address)
  | .moduleStream module => discard (moduleStream d module)
  | .procedureAt module address => discard (procedureAt? d module address)
  | .compileUnit module => discard (compileUnit? d module)
  | .unitAt i => discard (unitAt? d i)
  | .lineTable module => discard (lineTable? d module)
  | .supportFiles module => discard (supportFiles? d module)
  | .function module offset => discard (function? d module offset)
  | .variableAt offset flag => discard (variableAt? d offset flag)
  | .variablesNamed name limit => discard (variablesNamed d name limit)
  | .functionContexts name limit => discard (functionContexts d name limit)
  | .resolve address items => discard (resolve d address items)

end Recall

/-- What is kept after some questions, if nothing has been read before. -/
def Memo.after [UnstableSort] (d : Database) (qs : List Question) : Memo :=
  qs.foldl (fun memo q => ((Recall.ask d q).run memo).2) {}

namespace Recall

theorem Answers.discard {α : Type} [UnstableSort] {d : Database} {c : Recall α} {a : α} (h : Answers d c a) :
    Answers d (discard c) ⟨⟩ :=
  fun memo hmemo => ⟨rfl, (h memo hmemo).2⟩

theorem answers_ask [UnstableSort] (d : Database) (q : Question) : Answers d (ask d q) ⟨⟩ := by
  cases q with
  | moduleAt address => exact (answers_moduleAt? d address).discard
  | moduleStream module => exact (answers_moduleStream d module).discard
  | procedureAt module address => exact (answers_procedureAt? d module address).discard
  | compileUnit module => exact (answers_compileUnit? d module).discard
  | unitAt i => exact (answers_unitAt? d i).discard
  | lineTable module => exact (answers_lineTable? d module).discard
  | supportFiles module => exact (answers_supportFiles? d module).discard
  | function module offset => exact (answers_function? d module offset).discard
  | variableAt offset flag => exact (answers_variableAt? d offset flag).discard
  | variablesNamed name limit => exact (answers_variablesNamed d name limit).discard
  | functionContexts name limit => exact (answers_functionContexts d name limit).discard
  | resolve address items => exact (answers_resolve d address items).discard

end Recall

/-- Any questions leave a faithful memo behind. -/
theorem Memo.faithful_after [UnstableSort] (d : Database) (qs : List Question) : (after d qs).Faithful d := by
  have hfold (memo : Memo) (hmemo : memo.Faithful d) :
      (qs.foldl (fun memo q => ((Recall.ask d q).run memo).2) memo).Faithful d := by
    induction qs generalizing memo with
    | nil => exact hmemo
    | cons q qs ih => exact ih _ (Recall.answers_ask d q memo hmemo).2
  exact hfold {} (.empty d)

end Pdb
