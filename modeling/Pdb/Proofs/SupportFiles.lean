import Pdb.Proofs.Codec
import Pdb.Proofs.LineLookup

/-! # The source files of a module

The records of the checksums are reached in two ways. For the list of source files they are read one
after another, each with the padding behind it; a block of lines has the offset of one of them. At each
offset where a record has been read there is that record: `FileChecksum.at_of_mem_placed`.

A list of files gets a name at its end unless it has that name. So the source files are the names of
the records, and the files of a line table those of the blocks that have been entered, each once and in
the order in which they come first (`Firsts`), and blocks that have the offsets of records have files
among the source files: `files_subset_supportFiles`. -/

namespace Pdb

namespace Decoder
variable {α : Type} {d : Decoder α} {bs : Bytes} {x : α} {left : Nat}

/-- Reads a value, and says how many bytes there are from its beginning on. -/
def counted (d : Decoder α) : Decoder (Nat × α) := fun bs =>
  (d bs).map fun front => ((bs.length, front.1), front.2)

theorem Progress.counted (hd : Progress d) : Progress d.counted := by
  intro bs y r h
  obtain ⟨front, hfront, h⟩ := Option.map_eq_some_iff.1 h
  cases h
  exact hd _ _ _ hfront

theorem map_snd_many_counted (hd : Progress d) (bs : Bytes) :
    (many d.counted hd.counted bs).1.map (·.2) = (many d hd bs).1 := by
  induction bs using many_induct hd with
  | stop bs h => simp [many_eq _ _ bs, Decoder.counted, h]
  | value bs x r h ih => simp [many_eq _ _ bs, Decoder.counted, h, ih]

/-- What is read after other values is read from the bytes behind them. -/
theorem exists_suffix_of_mem_many (hd : Progress d)
    (hsuffix : ∀ bs x r, d bs = some (x, r) → r <:+ bs)
    (h : (left, x) ∈ (many d.counted hd.counted bs).1) :
    ∃ back r, back <:+ bs ∧ back.length = left ∧ d back = some (x, r) := by
  induction bs using many_induct hd with
  | stop bs hnone => simp [many_eq _ _ bs, counted, hnone] at h
  | value bs y r hfront ih =>
    simp only [many_eq _ _ bs, counted, hfront, Option.map_some, List.mem_cons] at h
    rcases h with hfirst | hlater
    · cases hfirst
      exact ⟨bs, r, List.suffix_rfl, rfl, hfront⟩
    · obtain ⟨back, r', hback, hrest⟩ := ih hlater
      exact ⟨back, r', hback.trans (hsuffix bs y r hfront), hrest⟩

end Decoder

open Decoder

namespace FileChecksum
variable {bs r : Bytes} {c : FileChecksum} {offset : Nat}

/-- The records one after another, each with the offset at which it has been read. -/
def placed (bs : Bytes) : List (Nat × FileChecksum) :=
  (many decode.counted decode_progress.counted bs).1.map fun front => (bs.length - front.1, front.2)

theorem map_snd_placed (bs : Bytes) : (placed bs).map (·.2) = list bs := by
  rw [placed, List.map_map]
  exact map_snd_many_counted decode_progress bs

theorem mem_list_of_placed (h : (offset, c) ∈ placed bs) : c ∈ list bs :=
  map_snd_placed bs ▸ List.mem_map_of_mem h

instance decodeBodyLocal : Local decodeBody :=
  bindLocal _ _

theorem suffix_of_decode (h : decode bs = some (c, r)) : r <:+ bs := by
  obtain ⟨⟨c', m⟩, hbody, h⟩ := Option.bind_eq_some_iff.1 h
  cases h
  obtain ⟨p, rfl, -⟩ := decodeBodyLocal.split hbody
  split
  · exact (List.drop_suffix _ m).trans (List.suffix_append p m)
  · exact List.suffix_append p m

theorem at_of_mem_placed (h : (offset, c) ∈ placed bs) : at_ bs offset = .ok c := by
  obtain ⟨⟨left, c'⟩, hmem, h⟩ := List.mem_map.1 h
  cases h
  obtain ⟨back, r, hback, hleft, hread⟩ :=
    exists_suffix_of_mem_many decode_progress (fun _ _ _ => suffix_of_decode) hmem
  rw [at_, if_pos (Nat.sub_le _ _), ← hleft, ← List.suffix_iff_eq_drop.1 hback, hread]
  rfl

end FileChecksum

namespace LineTable
variable {lineData checksums : Bytes} {names : Names} {place : UInt16 → UInt32 → Option UInt64}
  {t : LineTable} {fs found done : List Bytes} {name : Bytes} {p p' : Progress}

/-! ### Names in the order in which they come first -/

/-- The names that have come, each once and in the order in which they have come first. -/
structure Firsts (found done : List Bytes) : Prop where
  mem_iff : ∀ name, name ∈ found ↔ name ∈ done
  order : found.Pairwise fun a b => done.idxOf a < done.idxOf b

theorem fst_position (files : List Bytes) (name : Bytes) :
    (position files name).1 = if name ∈ files then files else files ++ [name] := by
  rw [position]
  split
  · next i hi =>
    obtain ⟨hlt, heq, -⟩ := List.idxOf?_eq_some_iff.1 hi
    rw [if_pos (heq ▸ List.getElem_mem hlt)]
  · next hnone => rw [if_neg (List.idxOf?_eq_none_iff.1 hnone)]

namespace Firsts

theorem nil : Firsts [] [] := ⟨fun _ => .rfl, .nil⟩

theorem nodup (h : Firsts found done) : found.Nodup :=
  h.order.imp fun hlt => mt (congrArg done.idxOf) hlt.ne

theorem idxOf_concat (h : Firsts found done) {a : Bytes} (ha : a ∈ found) (name : Bytes) :
    (done ++ [name]).idxOf a = done.idxOf a :=
  List.idxOf_append_of_mem ((h.mem_iff a).1 ha)

/-- One more name comes. -/
theorem position (h : Firsts found done) (name : Bytes) :
    Firsts (position found name).1 (done ++ [name]) := by
  have hkept : found.Pairwise fun a b => (done ++ [name]).idxOf a < (done ++ [name]).idxOf b :=
    h.order.imp_of_mem fun ha hb hlt => by rwa [h.idxOf_concat ha, h.idxOf_concat hb]
  rw [fst_position]
  split
  · next hold =>
    refine ⟨fun a => ?_, hkept⟩
    rw [List.mem_append, List.mem_singleton, h.mem_iff]
    exact ⟨.inl, fun hmem => hmem.elim id fun heq => heq ▸ (h.mem_iff name).1 hold⟩
  · next hnew =>
    refine ⟨fun a => by rw [List.mem_append, List.mem_append, h.mem_iff], ?_⟩
    refine List.pairwise_append.2 ⟨hkept, List.pairwise_singleton _ _, fun a ha b hb => ?_⟩
    rw [List.mem_singleton.1 hb, h.idxOf_concat ha,
      List.idxOf_append_of_notMem fun hmem => hnew ((h.mem_iff name).2 hmem)]
    exact (List.idxOf_lt_length_of_mem ((h.mem_iff a).1 ha)).trans_le (Nat.le_add_right _ _)

end Firsts

/-! ### Source files -/

/-- The records of all checksums. -/
def records (lineData : Bytes) : List FileChecksum :=
  ((Subsection.list lineData).filter (·.kind = .checksums)).flatMap fun s => FileChecksum.list s.data

def nameOf? (names : Names) (c : FileChecksum) : Option Bytes := (names.get c.name.toNat).toOption

theorem firsts_add {cs : List FileChecksum} (hfound : Firsts found done)
    (h : supportFiles.add names found cs = .ok fs) :
    Firsts fs (done ++ cs.filterMap (nameOf? names)) ∧ ∀ c ∈ cs, (nameOf? names c).isSome := by
  induction cs generalizing found done with
  | nil =>
    cases h
    simpa using hfound
  | cons c cs ih =>
    obtain ⟨name, hname, h⟩ := exists_of_bind_eq_ok h
    obtain ⟨hfirsts, hall⟩ := ih (hfound.position name) h
    have hc : nameOf? names c = some name := by rw [nameOf?, hname]; rfl
    rw [List.filterMap_cons_some hc, List.forall_mem_cons, hc]
    rw [List.append_assoc] at hfirsts
    exact ⟨hfirsts, rfl, hall⟩

theorem firsts_supportFiles (h : supportFiles lineData names = .ok fs) :
    Firsts fs ((records lineData).filterMap (nameOf? names))
      ∧ ∀ c ∈ records lineData, (nameOf? names c).isSome :=
  firsts_add .nil h

/-! ### Files of line tables -/

theorem nameAt?_eq {c : FileChecksum} {offset : Nat} (h : FileChecksum.at_ checksums offset = .ok c) :
    nameAt? (some checksums) names offset = nameOf? names c := by
  simp [nameAt?, nameOf?, h, Except.toOption]

/-- A file that is known by its offset has its name in the list, and would be found there. -/
theorem files_fileOf {offset i : Nat} (hp : p.Named (some checksums) names)
    (h : fileOf checksums names p offset = .ok (p', i)) :
    ∃ name, nameAt? (some checksums) names offset = some name
      ∧ p'.table.files = (position p.table.files name).1 := by
  rw [fileOf] at h
  split at h
  · next j hj =>
    cases h
    obtain ⟨name, hname, hat⟩ := hp offset i hj
    refine ⟨name, hname, ?_⟩
    rw [fst_position, if_pos (List.mem_of_getElem? hat)]
  · obtain ⟨c, hc, h⟩ := exists_of_bind_eq_ok h
    obtain ⟨name, hname, h⟩ := exists_of_bind_eq_ok h
    cases h
    refine ⟨name, ?_, rfl⟩
    rw [nameAt?_eq hc, nameOf?, hname]
    rfl

/-- The names of the files of blocks. -/
def blockNames (checksums? : Option Bytes) (names : Names) (bs : List LineBlock) : List Bytes :=
  bs.filterMap fun b => nameAt? checksums? names b.file.toNat

theorem blockNames_append (checksums? : Option Bytes) (names : Names) (bs bs' : List LineBlock) :
    blockNames checksums? names (bs ++ bs')
      = blockNames checksums? names bs ++ blockNames checksums? names bs' :=
  List.filterMap_append

/-- The blocks that are entered: those of a contribution that has an address. -/
def enteredBlocks (place : UInt16 → UInt32 → Option UInt64) (c : LineContribution) : List LineBlock :=
  if (place c.segment c.offset).isSome then LineBlock.list c.blocks else []

/-- What the list of files is after the blocks have been entered. -/
structure Progress.Lists (checksums? : Option Bytes) (names : Names) (bs : List LineBlock)
    (p : Progress) : Prop where
  named : p.Named checksums? names
  files : Firsts p.table.files (blockNames checksums? names bs)

namespace Progress.Lists
variable {checksums? : Option Bytes} {bs : List LineBlock}

theorem fileOf {b : LineBlock} {i : Nat} (hp : p.Lists (some checksums) names bs)
    (h : fileOf checksums names p b.file.toNat = .ok (p', i)) :
    p'.Lists (some checksums) names (bs ++ [b]) := by
  obtain ⟨name, hname, hfiles⟩ := files_fileOf hp.named h
  refine ⟨(named_fileOf hp.named h).1, ?_⟩
  have hb : blockNames (some checksums) names [b] = [name] := List.filterMap_cons_some hname
  rw [hfiles, blockNames_append, hb]
  exact hp.files.position name

theorem addBlocks {base : UInt64} {es : List LineEntry} {more : List LineBlock}
    (hp : p.Lists (some checksums) names bs)
    (h : addBlocks checksums names base p more = .ok (p', es)) :
    p'.Lists (some checksums) names (bs ++ more) := by
  induction more generalizing p bs es with
  | nil =>
    cases h
    simpa using hp
  | cons b more ih =>
    obtain ⟨⟨q, i⟩, hfile, h⟩ := exists_of_bind_eq_ok h
    obtain ⟨⟨q', rest⟩, hrest, h⟩ := exists_of_bind_eq_ok h
    cases h
    have hq := ih (hp.fileOf hfile) hrest
    rwa [List.append_assoc] at hq

theorem addContribution {cs : List LineContribution} {c : LineContribution}
    (hp : p.Lists (some checksums) names (cs.flatMap (enteredBlocks place)))
    (h : addContribution checksums names place p c = .ok p') :
    p'.Lists (some checksums) names ((cs ++ [c]).flatMap (enteredBlocks place)) := by
  rw [LineTable.addContribution] at h
  rw [List.flatMap_append, List.flatMap_singleton, enteredBlocks]
  split at h
  · next hplace =>
    cases h
    simpa [hplace] using hp
  · next base hbase =>
    obtain ⟨⟨q, es⟩, hblocks, h⟩ := exists_of_bind_eq_ok h
    cases h
    rw [hbase, if_pos Option.isSome_some]
    have hq := hp.addBlocks hblocks
    exact ⟨hq.named, hq.files⟩

theorem addAll {ss : List Subsection} (h : addAll checksums? names place ⟨⟨[], []⟩, []⟩ ss = .ok p) :
    p.Lists checksums? names
      ((ss.filterMap (LineContribution.parse? ·.data)).flatMap (enteredBlocks place)) := by
  have hnew : (⟨⟨[], []⟩, []⟩ : Progress).Lists checksums? names [] := ⟨nofun, .nil⟩
  refine addAll_induction (I := fun cs p => p.Lists checksums? names (cs.flatMap (enteredBlocks place)))
    (fun checksums cs p c p' hsome hp hadd => ?_) hnew h
  subst hsome
  exact hp.addContribution hadd

end Progress.Lists

/-- The files of a line table are those of its blocks, in the order in which they come first. -/
theorem firsts_files (h : build lineData names place = .ok t) :
    Firsts t.files (blockNames (checksums? (Subsection.list lineData)) names
      ((contributions lineData).flatMap (enteredBlocks place))) := by
  obtain ⟨p, hadd, h⟩ := exists_of_bind_eq_ok h
  cases h
  exact (Progress.Lists.addAll hadd).files

/-- The offset is that of a record of the first checksums. -/
def IsFile (lineData : Bytes) (offset : Nat) : Prop :=
  ∃ checksums ∈ checksums? (Subsection.list lineData),
    offset ∈ (FileChecksum.placed checksums).map (·.1)

instance (lineData : Bytes) (offset : Nat) : Decidable (IsFile lineData offset) :=
  inferInstanceAs (Decidable (∃ checksums ∈ checksums? (Subsection.list lineData),
    offset ∈ (FileChecksum.placed checksums).map (·.1)))

/-- A file of a record is a source file. -/
theorem IsFile.mem_supportFiles {offset : Nat} (hfile : IsFile lineData offset)
    (h : supportFiles lineData names = .ok fs)
    (hname : nameAt? (checksums? (Subsection.list lineData)) names offset = some name) : name ∈ fs := by
  obtain ⟨checksums, hfirst, hoffset⟩ := hfile
  obtain ⟨⟨offset, c⟩, hc, rfl⟩ := List.mem_map.1 hoffset
  rw [Option.mem_def.1 hfirst, nameAt?_eq (FileChecksum.at_of_mem_placed hc)] at hname
  obtain ⟨s, hs, rfl⟩ := Option.map_eq_some_iff.1 hfirst
  have hkind := List.find?_some hs
  have hmem : s ∈ (Subsection.list lineData).filter (·.kind = .checksums) :=
    List.mem_filter.2 ⟨List.mem_of_find?_eq_some hs, hkind⟩
  refine ((firsts_supportFiles h).1.mem_iff name).2 (List.mem_filterMap.2 ⟨c, ?_, hname⟩)
  exact List.mem_flatMap.2 ⟨s, hmem, FileChecksum.mem_list_of_placed hc⟩

/-- If the blocks have the offsets of records, the files of a line table are source files. In both lists
each name is there once, and source files are in the order of their first records. -/
theorem files_subset_supportFiles (h : build lineData names place = .ok t)
    (hs : supportFiles lineData names = .ok fs)
    (hblocks : ∀ c ∈ contributions lineData, ∀ b ∈ LineBlock.list c.blocks, IsFile lineData b.file.toNat) :
    (∀ bs, (FileChecksum.placed bs).map (·.2) = FileChecksum.list bs
      ∧ ∀ x ∈ FileChecksum.placed bs, FileChecksum.at_ bs x.1 = .ok x.2)
    ∧ t.files ⊆ fs ∧ t.files.Nodup ∧ fs.Nodup
    ∧ (∀ c ∈ records lineData, (nameOf? names c).isSome)
    ∧ Firsts fs ((records lineData).filterMap (nameOf? names))
    ∧ ∀ e ∈ t.entries, e.file < t.files.length := by
  obtain ⟨hfirsts, hall⟩ := firsts_supportFiles hs
  have hfiles := firsts_files h
  refine ⟨fun bs => ⟨FileChecksum.map_snd_placed bs, fun _ => FileChecksum.at_of_mem_placed⟩,
    fun name hname => ?_, hfiles.nodup, hfirsts.nodup, hall, hfirsts, fun e he => (sound_of_build h he).1⟩
  obtain ⟨b, hb, hname⟩ := List.mem_filterMap.1 ((hfiles.mem_iff name).1 hname)
  obtain ⟨c, hc, hb⟩ := List.mem_flatMap.1 hb
  rw [enteredBlocks] at hb
  split at hb
  · exact (hblocks c hc b hb).mem_supportFiles hs hname
  · exact nomatch hb

/-- Records of several lengths, two of which have one name, and further checksums behind the lines. The
first file that lines refer to is the second one. -/
def repeatedFiles : Bytes :=
  LineList.encode ({ checksums := [⟨1, 1, [0xa, 0xb, 0xc]⟩, ⟨3, 0, []⟩, ⟨1, 0, []⟩] : LineList }
    |>.addLines 1 0 0x10 [⟨12, [(0, 7)]⟩, ⟨20, [(4, 8)]⟩, ⟨0, [(8, 9)]⟩])
  ++ Subsection.encode ⟨.checksums, FileChecksum.encode ⟨4, 0, []⟩⟩

theorem isFile_repeatedFiles : ∀ c ∈ contributions repeatedFiles, ∀ b ∈ LineBlock.list c.blocks,
    IsFile repeatedFiles b.file.toNat := by
  decide +kernel

theorem files_subset_supportFiles_repeated :
    ∃ t, build repeatedFiles twoNames oneSection = .ok t ∧ t.files = [[98], [97]]
      ∧ supportFiles repeatedFiles twoNames = .ok [[97], [98], []]
      ∧ (∀ c ∈ contributions repeatedFiles, ∀ b ∈ LineBlock.list c.blocks,
        IsFile repeatedFiles b.file.toNat)
      ∧ t.files ⊆ [[97], [98], []] ∧ ∀ e ∈ t.entries, e.file < 2 := by
  have hfiles : (build repeatedFiles twoNames oneSection).map (·.files) = .ok [[98], [97]] := by
    decide +kernel
  have hs : supportFiles repeatedFiles twoNames = .ok [[97], [98], []] := by decide +kernel
  obtain ⟨t, ht, hfiles⟩ := exists_of_map_eq_ok hfiles
  obtain ⟨-, hsub, -, -, -, -, hindex⟩ := files_subset_supportFiles ht hs isFile_repeatedFiles
  rw [hfiles] at hindex
  exact ⟨t, ht, hfiles, hs, isFile_repeatedFiles, hsub, hindex⟩

end LineTable
end Pdb
