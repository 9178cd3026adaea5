import Pdb.Proofs.DatabaseRoundTrip

/-! # Databases that are made by calls

A `DatabaseCall` is one call that adds something to a database. Each part of the plan has what the
calls for it have added, in their order, whatever comes in between. `Database.Reflects` says for a
database and the calls that have made it that what a call has returned leads to what it has added.
-/

namespace Pdb

/-- One call that adds something to a database. -/
inductive DatabaseCall
  | type (kind : Leaf) (payload : Bytes)
  | item (kind : Leaf) (payload : Bytes)
  | name (name : Bytes)
  | global (call : SymbolCall)
  | section_ (name : Bytes) (address size : UInt32)
  | module (m : PlannedModule)
  | contribution (section_ : UInt16) (offset size : Int32) (module : UInt16)
  deriving DecidableEq, Repr

namespace DatabaseCall

/-- The record of a type or an item. -/
def paddedRecord (kind : Leaf) (payload : Bytes) : RawRecord :=
  ⟨kind.code, payload ++ countdownPadding payload.length⟩

def type? : DatabaseCall → Option RawRecord
  | type kind payload => some (paddedRecord kind payload)
  | _ => none

def item? : DatabaseCall → Option RawRecord
  | item kind payload => some (paddedRecord kind payload)
  | _ => none

def name? : DatabaseCall → Option Bytes
  | name n => some n
  | _ => none

def global? : DatabaseCall → Option SymbolCall
  | global call => some call
  | _ => none

def section? : DatabaseCall → Option Section
  | section_ n address size => some (DatabasePlan.section_ n address size)
  | _ => none

def module? : DatabaseCall → Option PlannedModule
  | module m => some m
  | _ => none

def contribution? : DatabaseCall → Option Contribution
  | contribution s offset size m => some (DatabasePlan.contribution s offset size m)
  | _ => none

end DatabaseCall

namespace DatabasePlan
variable {p : DatabasePlan} {guid : Guid} {age : UInt32} {calls before after : List DatabaseCall}
  {c : DatabaseCall}

def perform (p : DatabasePlan) : DatabaseCall → DatabasePlan
  | .type kind payload => { p with types := (p.types.addPayload kind payload).2 }
  | .item kind payload => { p with items := (p.items.addPayload kind payload).2 }
  | .name name => { p with names := (p.names.add name).2 }
  | .global call => { p with globals := (p.globals.perform call).2 }
  | .section_ name address size => { p with sections := p.sections ++ [section_ name address size] }
  | .module m => { p with modules := p.modules ++ [m] }
  | .contribution section_ offset size module =>
    { p with contributions := p.contributions ++ [contribution section_ offset size module] }

/-- The database with an identifier and an age that is made by calls. -/
def written (guid : Guid) (age : UInt32) (calls : List DatabaseCall) : DatabasePlan :=
  calls.foldl perform { new with guid, age }

/-! ### Each part has what has been added to it -/

/-- A part to which each call adds at most one thing. -/
theorem foldl_perform_eq {α : Type} (part : DatabasePlan → List α) (added : DatabaseCall → Option α)
    (h : ∀ p c, part (perform p c) = part p ++ (added c).toList) (calls : List DatabaseCall)
    (p : DatabasePlan) : part (calls.foldl perform p) = part p ++ calls.filterMap added := by
  induction calls generalizing p with
  | nil => exact (List.append_nil _).symm
  | cons c calls ih =>
    rw [List.foldl_cons, ih, h, List.filterMap_cons]
    cases added c with
    | none => rw [Option.toList_none, List.append_nil]
    | some x => rw [Option.toList_some, List.append_assoc, List.singleton_append]

section
variable (guid : Guid) (age : UInt32) (calls : List DatabaseCall)

theorem types_written : (written guid age calls).types.records = calls.filterMap DatabaseCall.type? := by
  refine foldl_perform_eq (fun p => p.types.records) _ (fun p c => ?_) calls _
  cases c <;> first | rfl | exact (List.append_nil _).symm

theorem items_written : (written guid age calls).items.records = calls.filterMap DatabaseCall.item? := by
  refine foldl_perform_eq (fun p => p.items.records) _ (fun p c => ?_) calls _
  cases c <;> first | rfl | exact (List.append_nil _).symm

theorem names_written : (written guid age calls).names.names = calls.filterMap DatabaseCall.name? := by
  refine foldl_perform_eq (fun p => p.names.names) _ (fun p c => ?_) calls _
  cases c <;> first | rfl | exact (List.append_nil _).symm

theorem sections_written :
    (written guid age calls).sections = calls.filterMap DatabaseCall.section? := by
  refine foldl_perform_eq DatabasePlan.sections _ (fun p c => ?_) calls _
  cases c <;> first | rfl | exact (List.append_nil _).symm

theorem modules_written : (written guid age calls).modules = calls.filterMap DatabaseCall.module? := by
  refine foldl_perform_eq DatabasePlan.modules _ (fun p c => ?_) calls _
  cases c <;> first | rfl | exact (List.append_nil _).symm

theorem contributions_written :
    (written guid age calls).contributions = calls.filterMap DatabaseCall.contribution? := by
  refine foldl_perform_eq DatabasePlan.contributions _ (fun p c => ?_) calls _
  cases c <;> first | rfl | exact (List.append_nil _).symm

theorem globals_written : (written guid age calls).globals
    = SymbolList.globals.performAll (calls.filterMap DatabaseCall.global?) := by
  have hfold (p : DatabasePlan) : (calls.foldl perform p).globals
      = p.globals.performAll (calls.filterMap DatabaseCall.global?) := by
    induction calls generalizing p with
    | nil => rfl
    | cons c calls ih =>
      rw [List.foldl_cons, ih]
      cases c <;> rfl
  exact hfold _

theorem guid_written : (written guid age calls).guid = guid ∧ (written guid age calls).age = age := by
  have hfold (p : DatabasePlan) : (calls.foldl perform p).guid = p.guid
      ∧ (calls.foldl perform p).age = p.age := by
    induction calls generalizing p with
    | nil => exact ⟨rfl, rfl⟩
    | cons c calls ih =>
      rw [List.foldl_cons, (ih _).1, (ih _).2]
      cases c <;> exact ⟨rfl, rfl⟩
  exact hfold _

end

/-- A section has a name of eight bytes, of which some may be zero. -/
theorem length_rawName_written {s : Section} (hs : s ∈ (written guid age calls).sections) :
    s.rawName.length = 8 := by
  rw [sections_written] at hs
  obtain ⟨c, -, hc⟩ := List.mem_filterMap.1 hs
  cases c <;> cases hc
  simp only [section_, Bytes.zeros, List.length_append, List.length_take, List.length_replicate]
  omega

theorem listed_written (guid : Guid) (age : UInt32) (calls : List DatabaseCall) :
    (written guid age calls).globals.Listed :=
  globals_written guid age calls ▸ SymbolList.Listed.globals.performAll _

theorem header_written (guid : Guid) (age : UInt32) (calls : List DatabaseCall) :
    (written guid age calls).globals.header = [] := by
  rw [globals_written, SymbolList.header_performAll]
  rfl

/-- What a call adds to a part stands behind what the calls before it have added. -/
theorem getElem?_filterMap {α : Type} {added : DatabaseCall → Option α} {x : α} (hx : added c = some x) :
    ((before ++ c :: after).filterMap added)[(before.filterMap added).length]? = some x := by
  rw [List.filterMap_append, List.getElem?_append_right (Nat.le_refl _), Nat.sub_self,
    List.filterMap_cons_some hx, List.getElem?_cons_zero]

/-- The symbol of a call, with the calls behind it. -/
theorem planned_mem_written (guid : Guid) (age : UInt32) (before after : List DatabaseCall)
    (call : SymbolCall) :
    let l := (written guid age before).globals
    call.planned l.next l.parent
        (((l.perform call).2.stop? 0 (after.filterMap DatabaseCall.global?)).getD 0)
      ∈ (written guid age (before ++ .global call :: after)).globals.symbols := by
  have hmem := (listed_written guid age before).planned_mem_performAll call
    (after.filterMap DatabaseCall.global?)
  have hsplit : (written guid age (before ++ .global call :: after)).globals
      = (written guid age before).globals.performAll (call :: after.filterMap DatabaseCall.global?) := by
    rw [globals_written, globals_written, List.filterMap_append, SymbolList.performAll_append]
    rfl
  rwa [← hsplit] at hmem

end DatabasePlan

/-- What has been added by calls is found, each by what its call has returned. -/
structure Database.Reflects (d : Database) (guid : Guid) (age : UInt32) (calls : List DatabaseCall) :
    Prop where
  guid_eq : d.info.guid? = some guid
  age_eq : d.info.age = age
  type : ∀ before kind payload after, calls = before ++ .type kind payload :: after →
    d.types.record ((DatabasePlan.written guid age before).types.addPayload kind payload).1
      = .ok ⟨kind.code, payload ++ countdownPadding payload.length⟩
  item : ∀ before kind payload after, calls = before ++ .item kind payload :: after →
    d.items.record ((DatabasePlan.written guid age before).items.addPayload kind payload).1
      = .ok ⟨kind.code, payload ++ countdownPadding payload.length⟩
  name : ∀ before name after, calls = before ++ .name name :: after →
    d.names.get ((DatabasePlan.written guid age before).names.add name).1 = .ok name
  /-- A function refers to the function around it, and to the record that closes it later. -/
  global : ∀ before call after, calls = before ++ .global call :: after →
    let l := (DatabasePlan.written guid age before).globals
    let stop? := (l.perform call).2.stop? 0 (after.filterMap DatabaseCall.global?)
    d.globals.recordAt (l.perform call).1
      = .ok (call.planned (l.perform call).1 l.parent (stop?.getD 0)).record
  sections : d.sections = calls.filterMap DatabaseCall.section?
  contributions :
    Contribution.parseTable d.debugInfo.contributions = .ok (calls.filterMap DatabaseCall.contribution?)
  modules : d.modules = (calls.filterMap DatabaseCall.module?).mapIdx DatabasePlan.moduleDescriptor
    ++ [DatabasePlan.linkerDescriptor (calls.filterMap DatabaseCall.module?).length]
  moduleStream : ∀ i m, (calls.filterMap DatabaseCall.module?)[i]? = some m →
    ∃ s, d.moduleStream i = .ok (some s)
      ∧ s.symbolData = .ok (m.symbols.drop ModuleStream.signatureLength)
      ∧ s.stream.read 0 s.symbolBytes = .ok m.symbols ∧ s.lineData = .ok m.lines

namespace DatabasePlan
variable {guid : Guid} {age : UInt32} {calls : List DatabaseCall} {d : Database}

theorem reflects_of_holds (h : d.Holds (written guid age calls)) : d.Reflects guid age calls where
  guid_eq := h.guid_eq.trans (congrArg some (guid_written guid age calls).1)
  age_eq := h.age_eq.trans (guid_written guid age calls).2
  type before kind payload after hcalls := by
    refine h.type _ _ ?_
    rw [types_written, types_written, hcalls]
    exact getElem?_filterMap rfl
  item before kind payload after hcalls := by
    refine h.item _ _ ?_
    rw [items_written, items_written, hcalls]
    exact getElem?_filterMap rfl
  name before name after hcalls := by
    refine h.name (written guid age before).names.names name (after.filterMap DatabaseCall.name?) ?_
    rw [names_written, names_written, hcalls, List.filterMap_append]
    rfl
  global before call after hcalls := by
    have hmem := planned_mem_written guid age before after call
    rw [← hcalls] at hmem
    intro l stop?
    rw [SymbolList.fst_perform]
    exact h.global _ hmem
  sections := h.sections.trans (sections_written guid age calls)
  contributions := h.contributions.trans (congrArg Except.ok (contributions_written guid age calls))
  modules := by
    rw [h.modules, moduleDescriptors, modules_written]
  moduleStream i m hm := h.moduleStream i m (modules_written guid age calls ▸ hm)

/-- A database that has been written is opened, and all that has been added to it is found there. -/
theorem parse_written (guid : Guid) (age : UInt32) (calls : List DatabaseCall)
    (h : (written guid age calls).Encodable) (options : OpenOptions) : ∃ image d,
      (written guid age calls).encode = some image ∧ Database.parse image.toArray options = .ok d
      ∧ d.Reflects guid age calls := by
  obtain ⟨image, d, hencode, hparse, hholds⟩ :=
    exists_holds h (listed_written guid age calls) (header_written guid age calls)
      (fun _ => length_rawName_written) options
  exact ⟨image, d, hencode, hparse, reflects_of_holds hholds⟩

/-- A type, an item, a name, a function and its end, a section, a module and a contribution. -/
theorem parse_written_small : ∃ image d,
    (written defaultGuid 7 [.type .modifier [1, 2, 3, 4, 5], .item .stringId [6], .name [97],
      .global (.openProc .globalProc32 ⟨0x1000⟩ ⟨16, 1⟩ 32 [102]), .global .closeProc,
      .section_ [46, 116] 4096 512, .module ⟨[109], [4, 0, 0, 0, 9], [8]⟩,
      .contribution 1 0 32 0]).encode = some image
    ∧ Database.parse image.toArray {} = .ok d ∧ d.info.age = 7
    ∧ d.types.record ⟨0x1000⟩ = .ok ⟨Leaf.modifier.code, [1, 2, 3, 4, 5, 0xf3, 0xf2, 0xf1]⟩
    ∧ d.names.get 1 = .ok [97] ∧ d.sections = [section_ [46, 116] 4096 512] := by
  let calls : List DatabaseCall := [.type .modifier [1, 2, 3, 4, 5], .item .stringId [6], .name [97],
    .global (.openProc .globalProc32 ⟨0x1000⟩ ⟨16, 1⟩ 32 [102]), .global .closeProc,
    .section_ [46, 116] 4096 512, .module ⟨[109], [4, 0, 0, 0, 9], [8]⟩, .contribution 1 0 32 0]
  have hencodable : (written defaultGuid 7 calls).Encodable := by decide +kernel
  obtain ⟨image, d, hencode, hparse, hreflects⟩ := parse_written defaultGuid 7 calls hencodable {}
  exact ⟨image, d, hencode, hparse, hreflects.age_eq, hreflects.type [] _ _ _ rfl,
    hreflects.name [_, _] _ _ rfl, hreflects.sections⟩

end DatabasePlan
end Pdb
