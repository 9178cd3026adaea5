import Mathlib.Data.List.TakeWhile
import Pdb.LineData.Table
import Pdb.Proofs.Outcome

/-! # Entries of line tables

While a line table is made its list of files only grows, and whatever is entered refers to a file
that is in the list by then, and stands behind a place of the image (`Progress.Sound`). So does each
entry of a table that has been made: `sound_of_build`. What is found at an address is an entry at or
below it: `find?_eq_some`. -/

namespace Pdb

theorem Fault.eq_some_of_orMalformed {α : Type} {x? : Option α} {x : α}
    (h : Fault.orMalformed x? = .ok x) : x? = some x := by
  cases x? with
  | none => exact nomatch h
  | some y => exact congrArg some (Except.ok.inj h)

namespace LineTable

/-- An address is a place of the image, or lies behind one by a word. -/
def Behind (place : UInt16 → UInt32 → Option UInt64) (address : UInt64) : Prop :=
  ∃ segment offset start, place segment offset = some start
    ∧ ∃ distance : UInt32, address = start + distance.toUInt64

/-- Each file that is referred to is in the list, and each entry is at a place of the image. -/
structure Progress.Sound (place : UInt16 → UInt32 → Option UInt64) (p : Progress) : Prop where
  known {k : Nat × Nat} : k ∈ p.known → k.2 < p.table.files.length
  files {e : LineEntry} : e ∈ p.table.entries → e.file < p.table.files.length
  placed {e : LineEntry} : e ∈ p.table.entries → Behind place e.address

variable {p p' : Progress} {checksums : Bytes} {names : Names} {base : UInt64} {es : List LineEntry}
  {place : UInt16 → UInt32 → Option UInt64}

theorem prefix_position (files : List Bytes) (name : Bytes) : files <+: (position files name).1 := by
  rw [position]
  split
  · exact List.prefix_rfl
  · exact List.prefix_append _ _

theorem position_lt (files : List Bytes) (name : Bytes) :
    (position files name).2 < (position files name).1.length := by
  rw [position]
  split
  · next i hi => exact (List.idxOf?_eq_some_iff.1 hi).1
  · rw [List.length_append, List.length_singleton]
    exact Nat.lt_succ_self _

/-- The file of a block is in the list afterwards, at whose end it may have been put. -/
theorem sound_fileOf {offset i : Nat} (hp : p.Sound place)
    (h : fileOf checksums names p offset = .ok (p', i)) :
    p'.Sound place ∧ p.table.files <+: p'.table.files ∧ i < p'.table.files.length := by
  rw [fileOf] at h
  split at h
  · next j hj =>
    obtain ⟨before, after, hknown, -⟩ := List.lookup_eq_some_iff.1 hj
    cases h
    refine ⟨hp, List.prefix_rfl, hp.known (k := (offset, i)) ?_⟩
    rw [hknown]
    exact List.mem_append_right _ List.mem_cons_self
  · obtain ⟨file, -, h⟩ := exists_of_bind_eq_ok h
    obtain ⟨name, -, h⟩ := exists_of_bind_eq_ok h
    cases h
    have hgrows := prefix_position p.table.files name
    have hlt := position_lt p.table.files name
    refine ⟨⟨fun hk => ?_, fun he => (hp.files he).trans_le hgrows.length_le, hp.placed⟩, hgrows, hlt⟩
    rcases List.mem_append.1 hk with hold | hnew
    · exact (hp.known hold).trans_le hgrows.length_le
    · rwa [List.mem_singleton.1 hnew]

theorem of_mem_blockEntries {file : Nat} {b : LineBlock} {e : LineEntry}
    (h : e ∈ blockEntries base file b) :
    e.file = file ∧ ∃ distance : UInt32, e.address = base + distance.toUInt64 := by
  obtain ⟨l, -, rfl⟩ := List.mem_map.1 h
  exact ⟨rfl, l.offset, rfl⟩

/-- Blocks are entered one after another, each with the files that there are by then. -/
theorem sound_addBlocks {bs : List LineBlock} (hp : p.Sound place)
    (h : addBlocks checksums names base p bs = .ok (p', es)) :
    p'.Sound place ∧ p.table.files <+: p'.table.files ∧ ∀ e ∈ es, e.file < p'.table.files.length
      ∧ ∃ distance : UInt32, e.address = base + distance.toUInt64 := by
  induction bs generalizing p es with
  | nil =>
    cases h
    exact ⟨hp, List.prefix_rfl, nofun⟩
  | cons b bs ih =>
    obtain ⟨r, hfile, h⟩ := exists_of_bind_eq_ok h
    obtain ⟨rest, hrest, h⟩ := exists_of_bind_eq_ok h
    cases h
    obtain ⟨hsound, hgrows, hlt⟩ := sound_fileOf hp hfile
    obtain ⟨hsound', hgrows', hall⟩ := ih hsound hrest
    refine ⟨hsound', hgrows.trans hgrows', fun e he => ?_⟩
    rcases List.mem_append.1 he with hblock | hback
    · obtain ⟨hsame, haddress⟩ := of_mem_blockEntries hblock
      exact ⟨hsame ▸ hlt.trans_le hgrows'.length_le, haddress⟩
    · exact hall e hback

theorem of_mem_terminal {size : UInt32} {e : LineEntry} (h : e ∈ terminal base size es) :
    e.address = base + size.toUInt64 ∧ ∃ e' ∈ es, e.file = e'.file := by
  rw [terminal] at h
  split at h
  · exact nomatch h
  · next e' hlast =>
    rw [List.mem_singleton.1 h]
    exact ⟨rfl, e', List.mem_of_getLast? hlast, rfl⟩

theorem sound_addContribution {c : LineContribution} (hp : p.Sound place)
    (h : addContribution checksums names place p c = .ok p') : p'.Sound place := by
  rw [addContribution] at h
  split at h
  · cases h
    exact hp
  · next base hbase =>
    obtain ⟨r, hblocks, h⟩ := exists_of_bind_eq_ok h
    cases h
    obtain ⟨hsound, -, hall⟩ := sound_addBlocks hp hblocks
    have hbehind {address : UInt64} (h : ∃ distance : UInt32, address = base + distance.toUInt64) :
        Behind place address := ⟨_, _, base, hbase, h⟩
    refine ⟨hsound.known, fun he => ?_, fun he => ?_⟩
    all_goals rcases List.mem_append.1 he with hbefore | hterminal
    · rcases List.mem_append.1 hbefore with hold | hnew
      · exact hsound.files hold
      · exact (hall _ hnew).1
    · obtain ⟨-, e', he', hfile⟩ := of_mem_terminal hterminal
      exact hfile ▸ (hall e' he').1
    · rcases List.mem_append.1 hbefore with hold | hnew
      · exact hsound.placed hold
      · exact hbehind (hall _ hnew).2
    · exact hbehind ⟨c.size, (of_mem_terminal hterminal).1⟩

/-- What holds when no contribution has been entered, and is kept by each one that is entered, holds
of all of them in the end. -/
theorem addAll_induction {I : List LineContribution → Progress → Prop} {checksums? : Option Bytes}
    {ss : List Subsection}
    (hstep : ∀ checksums done p c p', checksums? = some checksums → I done p →
      addContribution checksums names place p c = .ok p' → I (done ++ [c]) p')
    (hp : I [] p) (h : addAll checksums? names place p ss = .ok p') :
    I (ss.filterMap (LineContribution.parse? ·.data)) p' := by
  suffices hbehind : ∀ done p, I done p → addAll checksums? names place p ss = .ok p' →
      I (done ++ ss.filterMap (LineContribution.parse? ·.data)) p' from hbehind [] p hp h
  clear hp h
  intro done p hp h
  induction ss generalizing p done with
  | nil =>
    cases h
    rwa [List.filterMap_nil, List.append_nil]
  | cons s ss ih =>
    cases checksums? with
    | none => exact nomatch h
    | some checksums =>
      obtain ⟨c, hc, h⟩ := exists_of_bind_eq_ok h
      obtain ⟨q, hadd, h⟩ := exists_of_bind_eq_ok h
      have hq := ih _ _ (hstep _ _ _ _ _ rfl hp hadd) h
      have hparse : LineContribution.parse? s.data = some c := Fault.eq_some_of_orMalformed hc
      rw [List.filterMap_cons, hparse]
      rwa [List.append_assoc, List.singleton_append] at hq

theorem sound_addAll {checksums? : Option Bytes} {ss : List Subsection} (hp : p.Sound place)
    (h : addAll checksums? names place p ss = .ok p') : p'.Sound place :=
  addAll_induction (I := fun _ p => p.Sound place)
    (fun _ _ _ _ _ _ hp hadd => sound_addContribution hp hadd) hp h

theorem sound_new : Progress.Sound place ⟨⟨[], []⟩, []⟩ where
  known h := absurd h List.not_mem_nil
  files h := absurd h List.not_mem_nil
  placed h := absurd h List.not_mem_nil

/-- Each entry of a line table has a file, and is at a place of the image. -/
theorem sound_of_build {lineData : Bytes} {t : LineTable} (h : build lineData names place = .ok t)
    {e : LineEntry} (he : e ∈ t.entries) : e.file < t.files.length ∧ Behind place e.address := by
  obtain ⟨p, hadd, h⟩ := exists_of_bind_eq_ok h
  cases h
  have hsound := sound_addAll sound_new hadd
  have hmem := List.mem_mergeSort.1 he
  exact ⟨hsound.files hmem, hsound.placed hmem⟩

/-- The entry that covers an address stands at or below it, and ends nothing. -/
theorem find?_eq_some {t : LineTable} {address : UInt64} {e : LineEntry}
    (h : t.find? address = some e) : e ∈ t.entries ∧ e.address ≤ address ∧ e.isTerminal = false := by
  obtain ⟨hlast, hterminal⟩ := Option.filter_eq_some_iff.1 h
  have hmem := List.mem_of_getLast? hlast
  have hle := List.mem_takeWhile_imp hmem
  exact ⟨List.takeWhile_subset _ hmem, of_decide_eq_true hle, Bool.not_eq_true' _ ▸ hterminal⟩

end LineTable
end Pdb
