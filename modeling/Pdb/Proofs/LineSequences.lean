import Mathlib.Data.List.Basic
import Pdb.Proofs.LineTable

/-! # Where the entries of a line table come from

A contribution that has an address is a sequence of lines: the rows of its blocks in the order of
their records, without those of hidden lines. While a line table is made its entries are those of the
sequences so far, each row with the position of the file that its block names (`Progress.Holds`). So
the table that comes out has the entries of all sequences, sorted: `exists_positions`. -/

namespace Pdb

/-- A line that is shown, and the offset of its file in the checksums. -/
structure LineRow where
  file : UInt32
  record : LineRecord
  deriving DecidableEq, Repr

/-- The lines of a contribution that are shown. -/
def LineContribution.rows (c : LineContribution) : List LineRow :=
  (LineBlock.list c.blocks).flatMap fun b => (b.lines.filter fun l => !l.isHidden).map (.mk b.file)

/-- A contribution that has an address. -/
structure LineSequence where
  base : UInt64
  size : UInt32
  rows : List LineRow
  deriving DecidableEq, Repr

namespace LineSequence

def addressOf (q : LineSequence) (r : LineRow) : UInt64 := q.base + r.record.offset.toUInt64

/-- The entry of a row, for the positions of the files in the list of a table. -/
def entryOf (q : LineSequence) (position : UInt32 → Nat) (r : LineRow) : LineEntry :=
  LineTable.entryOf q.base (position r.file) r.record

/-- The entries of the rows, and the terminal one. -/
def entries (q : LineSequence) (position : UInt32 → Nat) : List LineEntry :=
  q.rows.map (q.entryOf position)
    ++ LineTable.terminal q.base q.size (q.rows.map (q.entryOf position))

end LineSequence

namespace LineTable

def contributions (lineData : Bytes) : List LineContribution :=
  ((Subsection.list lineData).filter (·.kind = .lines)).filterMap (LineContribution.parse? ·.data)

def sequenceOf? (place : UInt16 → UInt32 → Option UInt64) (c : LineContribution) :
    Option LineSequence :=
  (place c.segment c.offset).map fun base => ⟨base, c.size, c.rows⟩

/-- The contributions of line data that have an address. -/
def sequences (lineData : Bytes) (place : UInt16 → UInt32 → Option UInt64) : List LineSequence :=
  (contributions lineData).filterMap (sequenceOf? place)

/-- The name of the file at an offset in the checksums. -/
def nameAt? (checksums : Option Bytes) (names : Names) (offset : Nat) : Option Bytes := do
  let file ← (FileChecksum.at_ (← checksums) offset).toOption
  (names.get file.name.toNat).toOption

variable {p p' : Progress} {checksums : Bytes} {checksums? : Option Bytes} {names : Names}
  {base : UInt64} {es : List LineEntry} {place : UInt16 → UInt32 → Option UInt64}
  {done : List LineSequence}

namespace Progress

/-- The position of a file in the list. -/
def position (p : Progress) (file : UInt32) : Nat := (p.known.lookup file.toNat).getD 0

/-- Files that are known have their names. -/
def Named (checksums? : Option Bytes) (names : Names) (p : Progress) : Prop :=
  ∀ offset i, p.known.lookup offset = some i →
    ∃ name, nameAt? checksums? names offset = some name ∧ p.table.files[i]? = some name

/-- What is known stays known. -/
def Grows (p p' : Progress) : Prop :=
  ∀ offset i, p.known.lookup offset = some i → p'.known.lookup offset = some i

theorem Grows.refl (p : Progress) : p.Grows p := fun _ _ h => h

theorem Grows.trans {p'' : Progress} (h : p.Grows p') (h' : p'.Grows p'') : p.Grows p'' :=
  fun offset i hi => h' offset i (h offset i hi)

theorem Grows.isSome (h : p.Grows p') {file : UInt32} (hfile : (p.known.lookup file.toNat).isSome) :
    (p'.known.lookup file.toNat).isSome := by
  obtain ⟨i, hi⟩ := Option.isSome_iff_exists.1 hfile
  rw [h _ _ hi]
  rfl

theorem Grows.position_eq (h : p.Grows p') {file : UInt32}
    (hfile : (p.known.lookup file.toNat).isSome) : p'.position file = p.position file := by
  obtain ⟨i, hi⟩ := Option.isSome_iff_exists.1 hfile
  rw [position, position, hi, h _ _ hi]

/-- The entries are those of the sequences that have been entered. -/
structure Holds (checksums? : Option Bytes) (names : Names) (done : List LineSequence)
    (p : Progress) : Prop where
  named : p.Named checksums? names
  known : ∀ q ∈ done, ∀ r ∈ q.rows, (p.known.lookup r.file.toNat).isSome
  entries : p.table.entries = done.flatMap (·.entries p.position)

end Progress

/-! ### Files -/

theorem getElem?_position (files : List Bytes) (name : Bytes) :
    (position files name).1[(position files name).2]? = some name := by
  rw [position]
  split
  · next i hi =>
    obtain ⟨hlt, heq, -⟩ := List.idxOf?_eq_some_iff.1 hi
    rw [List.getElem?_eq_getElem hlt, heq]
  · simp

theorem named_fileOf {offset i : Nat} (hp : p.Named (some checksums) names)
    (h : fileOf checksums names p offset = .ok (p', i)) :
    p'.Named (some checksums) names ∧ p.Grows p' ∧ p'.table.entries = p.table.entries
      ∧ p'.known.lookup offset = some i := by
  rw [fileOf] at h
  split at h
  · next j hj =>
    cases h
    exact ⟨hp, .refl p, rfl, hj⟩
  · next hnew =>
    obtain ⟨file, hfile, h⟩ := exists_of_bind_eq_ok h
    obtain ⟨name, hname, h⟩ := exists_of_bind_eq_ok h
    cases h
    have hgrows := prefix_position p.table.files name
    have hat := getElem?_position p.table.files name
    refine ⟨fun offset' i' hi' => ?_, fun offset' i' hi' => ?_, rfl, ?_⟩
    · rw [List.lookup_append, Option.or_eq_some_iff] at hi'
      rcases hi' with hold | ⟨-, hlast⟩
      · obtain ⟨name', hname', hat'⟩ := hp offset' i' hold
        obtain ⟨more, hmore⟩ := hgrows
        refine ⟨name', hname', ?_⟩
        show (position p.table.files name).1[i']? = some name'
        rw [← hmore, List.getElem?_append_left (List.getElem?_eq_some_iff.1 hat').1, hat']
      · rw [List.lookup_cons] at hlast
        split at hlast
        · next hsame =>
          cases hlast
          rw [beq_iff_eq.1 hsame]
          exact ⟨name, by simp [nameAt?, hfile, hname, Except.toOption], hat⟩
        · simp at hlast
    · rw [List.lookup_append, hi']
      rfl
    · rw [List.lookup_append, hnew]
      simp

/-! ### Contributions -/

theorem named_addBlocks {bs : List LineBlock} (hp : p.Named (some checksums) names)
    (h : addBlocks checksums names base p bs = .ok (p', es)) :
    p'.Named (some checksums) names ∧ p.Grows p' ∧ p'.table.entries = p.table.entries
      ∧ (∀ b ∈ bs, (p'.known.lookup b.file.toNat).isSome)
      ∧ es = bs.flatMap fun b => blockEntries base (p'.position b.file) b := by
  induction bs generalizing p es with
  | nil =>
    cases h
    exact ⟨hp, .refl _, rfl, nofun, rfl⟩
  | cons b bs ih =>
    obtain ⟨⟨q, file⟩, hfile, h⟩ := exists_of_bind_eq_ok h
    obtain ⟨⟨q', rest⟩, hrest, h⟩ := exists_of_bind_eq_ok h
    cases h
    obtain ⟨hnamed, hgrows, hentries, hat⟩ := named_fileOf hp hfile
    obtain ⟨hnamed', hgrows', hentries', hknown, rfl⟩ := ih hnamed hrest
    have hb : p'.known.lookup b.file.toNat = some file := hgrows' _ _ hat
    refine ⟨hnamed', hgrows.trans hgrows', hentries'.trans hentries, ?_, ?_⟩
    · rw [List.forall_mem_cons, hb]
      exact ⟨rfl, hknown⟩
    · rw [List.flatMap_cons, Progress.position, hb]
      rfl

theorem flatMap_blockEntries (base : UInt64) (position : UInt32 → Nat) (c : LineContribution) :
    ((LineBlock.list c.blocks).flatMap fun b => blockEntries base (position b.file) b)
      = c.rows.map ((⟨base, c.size, c.rows⟩ : LineSequence).entryOf position) := by
  rw [LineContribution.rows, List.map_flatMap]
  refine List.flatMap_congr fun b _ => ?_
  rw [List.map_map]
  rfl

theorem LineSequence.entries_congr {q : LineSequence} {f g : UInt32 → Nat}
    (h : ∀ r ∈ q.rows, f r.file = g r.file) : q.entries f = q.entries g := by
  have hrows : q.rows.map (q.entryOf f) = q.rows.map (q.entryOf g) :=
    List.map_congr_left fun r hr => by rw [LineSequence.entryOf, LineSequence.entryOf, h r hr]
  rw [LineSequence.entries, LineSequence.entries, hrows]

namespace Progress.Holds

theorem grow (hp : p.Holds checksums? names done) (hgrows : p.Grows p') :
    done.flatMap (·.entries p'.position) = p.table.entries := by
  rw [hp.entries]
  refine List.flatMap_congr fun q hq => LineSequence.entries_congr fun r hr => ?_
  exact hgrows.position_eq (hp.known q hq r hr)

theorem addContribution {cs : List LineContribution} {c : LineContribution}
    (hp : p.Holds (some checksums) names (cs.filterMap (sequenceOf? place)))
    (h : addContribution checksums names place p c = .ok p') :
    p'.Holds (some checksums) names ((cs ++ [c]).filterMap (sequenceOf? place)) := by
  rw [LineTable.addContribution] at h
  split at h
  · next hplace =>
    cases h
    simpa [sequenceOf?, hplace] using hp
  · next base hbase =>
    obtain ⟨⟨q, es⟩, hblocks, h⟩ := exists_of_bind_eq_ok h
    cases h
    obtain ⟨hnamed, hgrows, hentries, hknown, rfl⟩ := named_addBlocks hp.named hblocks
    have hseq : sequenceOf? place c = some ⟨base, c.size, c.rows⟩ := by
      rw [sequenceOf?, hbase, Option.map_some]
    rw [List.filterMap_append, List.filterMap_cons_some hseq, List.filterMap_nil]
    refine ⟨hnamed, fun s hs r hr => ?_, ?_⟩
    · rcases List.mem_append.1 hs with hs | hs
      · exact hgrows.isSome (hp.known s hs r hr)
      · rw [List.mem_singleton.1 hs] at hr
        obtain ⟨b, hb, hr⟩ := List.mem_flatMap.1 hr
        obtain ⟨l, -, rfl⟩ := List.mem_map.1 hr
        exact hknown b hb
    · rw [List.flatMap_append, List.flatMap_singleton]
      show q.table.entries ++ _ ++ _ = _
      rw [flatMap_blockEntries, hentries, List.append_assoc]
      exact congrArg (· ++ _) (hp.grow hgrows).symm

theorem addAll {ss : List Subsection} (h : addAll checksums? names place ⟨⟨[], []⟩, []⟩ ss = .ok p) :
    p.Holds checksums? names
      ((ss.filterMap (LineContribution.parse? ·.data)).filterMap (sequenceOf? place)) := by
  have hnew : (⟨⟨[], []⟩, []⟩ : Progress).Holds checksums? names [] := ⟨nofun, nofun, rfl⟩
  refine addAll_induction (I := fun cs p => p.Holds checksums? names (cs.filterMap (sequenceOf? place)))
    (fun checksums cs p c p' hsome hp hadd => ?_) hnew h
  subst hsome
  exact hp.addContribution hadd

end Progress.Holds

/-- A line table has the entries of all sequences, and each row has the file that its block names. -/
theorem exists_positions {lineData : Bytes} {t : LineTable} (h : build lineData names place = .ok t) :
    ∃ position : UInt32 → Nat,
      t.entries = sort ((sequences lineData place).flatMap (·.entries position))
      ∧ ∀ q ∈ sequences lineData place, ∀ r ∈ q.rows, ∃ name,
        nameAt? (LineTable.checksums? (Subsection.list lineData)) names r.file.toNat = some name
        ∧ t.files[position r.file]? = some name := by
  obtain ⟨p, hadd, h⟩ := exists_of_bind_eq_ok h
  cases h
  have hp := Progress.Holds.addAll hadd
  refine ⟨p.position, congrArg sort hp.entries, fun q hq r hr => ?_⟩
  obtain ⟨i, hi⟩ := Option.isSome_iff_exists.1 (hp.known q hq r hr)
  obtain ⟨name, hname, hat⟩ := hp.named _ _ hi
  refine ⟨name, hname, ?_⟩
  rw [Progress.position, hi]
  exact hat

end LineTable
end Pdb
