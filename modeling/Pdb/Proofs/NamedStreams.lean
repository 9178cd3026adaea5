import Pdb.Proofs.Codec
import Pdb.Proofs.Utf8
import Pdb.Writer.Database

/-! # Named streams are found again

The table of named streams has the names in a buffer, a bit for each of its slots, and a slot with the
offset of each name. All of it is read as it has been written (`decodeNamed_table`), as long as the
offsets are words: the bits are as many as the names, also where their last word is not full
(`bitCount_presentBits`), and each offset leads to its name (`nameAt_of_append`). Of streams with one
name the first is kept, so a name leads to the first of its streams (`lookup_collected`).

The bound is the one of the format, in which the size of the buffer is a word. Nothing checks it when the
table is written, and names beyond it are lost (`parse_ofTexts_overfull`).
-/

namespace Pdb
open Decoder

namespace Decoder

theorem u32s.chunk_flatMap (ws : List UInt32) : u32s.chunk ws.length (ws.flatMap Bytes.ofU32) = ws := by
  induction ws with
  | nil => rfl
  | cons w ws ih =>
    have hlength : (Bytes.ofU32 w).length = 4 := Bytes.length_leBytes 4 w.toNat
    have hword : Bytes.leNat (Bytes.ofU32 w) = w.toNat := by
      rw [Bytes.ofU32, Bytes.leNat_leBytes]
      exact Nat.mod_eq_of_lt w.toNat_lt
    rw [List.length_cons, List.flatMap_cons, chunk, List.take_left' hlength, List.drop_left' hlength,
      hword, UInt32.ofNat_toNat, ih]

theorem length_flatMap_ofU32 (ws : List UInt32) : (ws.flatMap Bytes.ofU32).length = 4 * ws.length := by
  induction ws with
  | nil => rfl
  | cons w ws ih =>
    rw [List.flatMap_cons, List.length_append, ih, Bytes.ofU32, Bytes.length_leBytes, List.length_cons]
    omega

theorem reads_u32s (ws : List UInt32) : Reads (u32s ws.length) (ws.flatMap Bytes.ofU32) ws := by
  intro r
  rw [u32s, take_append (length_flatMap_ofU32 ws), Option.map_some, u32s.chunk_flatMap]

end Decoder

namespace Info

/-! ### Bits -/

theorem bitCount_append (bs cs : Bytes) : bitCount (bs ++ cs) = bitCount bs + bitCount cs := by
  rw [bitCount, List.flatMap_append, List.length_append]
  rfl

theorem bitCount_low : ∀ k ≤ 32, bitCount (Bytes.leBytes 4 (2 ^ k - 1)) = k := by
  decide

/-- The first words have the bits of all slots that they go for. -/
theorem bitCount_words (n m : Nat) : bitCount ((List.range m).flatMap fun w =>
    Bytes.leBytes 4 (2 ^ min (n - 32 * w) 32 - 1)) = min n (32 * m) := by
  induction m with
  | zero => simp [bitCount]
  | succ m ih =>
    rw [List.range_succ, List.flatMap_append, bitCount_append, ih, List.flatMap_singleton,
      bitCount_low _ (Nat.min_le_right ..)]
    omega

theorem bitCount_presentBits (n : Nat) : bitCount (InfoPlan.presentBits n) = n := by
  rw [InfoPlan.presentBits, bitCount_words]
  omega

theorem length_presentBits (n : Nat) : (InfoPlan.presentBits n).length = (n + 31) / 32 * 4 := by
  simp [InfoPlan.presentBits, List.length_flatMap, List.map_const']

/-! ### Names -/

theorem nameAt_of_append (before after : Bytes) {name : Bytes} (h : 0 ∉ name) :
    nameAt (before ++ (Bytes.ofText name ++ after)) before.length = some (Text.lossy name) := by
  have hreads : Reads (skip before.length >>= fun _ => text) (before ++ Bytes.ofText name) name :=
    (reads_skip rfl).bind (reads_text h)
  rw [nameAt, ← List.append_assoc, hreads, Option.map_some]

theorem lookup_addNamed (named : List (String × UInt32)) (e : String × UInt32) (name : String) :
    (addNamed named e).lookup name = (named.lookup name).or ([e].lookup name) := by
  rw [addNamed]
  split
  · next htaken =>
    -- the name is taken, so whoever looks for it finds the stream that is there
    obtain ⟨other, hmem, hsame⟩ := List.any_eq_true.1 htaken
    cases hname : named.lookup name with
    | some stream => rfl
    | none =>
      have hother := List.lookup_eq_none_iff.1 hname other hmem
      rw [beq_iff_eq.1 hsame, bne, Bool.not_eq_true'] at hother
      rw [List.lookup_cons, hother]
      rfl
  · exact List.lookup_append

theorem lookup_foldl_addNamed (named es : List (String × UInt32)) (name : String) :
    (es.foldl addNamed named).lookup name = (named.lookup name).or (es.lookup name) := by
  induction es generalizing named with
  | nil => simp
  | cons e es ih =>
    rw [List.foldl_cons, ih, lookup_addNamed, Option.or_assoc, ← List.lookup_append, List.singleton_append]

end Info

namespace InfoPlan
open Info

/-- The names one behind another, each with its terminator. -/
def buffer (named : List (Bytes × UInt32)) : Bytes := named.flatMap fun e => Bytes.ofText e.1

/-- The slots of entries whose names stand from an offset on. -/
def slotsFrom (offset : Nat) (named : List (Bytes × UInt32)) : List UInt32 :=
  ((nameOffsets offset (named.map (·.1))).zip named).flatMap fun (offset, e) =>
    [UInt32.ofNat offset, e.2]

/-- The streams of which the table is read to consist. -/
def collected (named : List (Bytes × UInt32)) : List (String × UInt32) :=
  (named.map fun e => (Text.lossy e.1, e.2)).foldl addNamed []

variable {named : List (Bytes × UInt32)}

theorem slotsFrom_cons (offset : Nat) (e : Bytes × UInt32) (named : List (Bytes × UInt32)) :
    slotsFrom offset (e :: named)
      = UInt32.ofNat offset :: e.2 :: slotsFrom (offset + e.1.length + 1) named := rfl

theorem length_slotsFrom (offset : Nat) (named : List (Bytes × UInt32)) :
    (slotsFrom offset named).length = 2 * named.length := by
  induction named generalizing offset with
  | nil => rfl
  | cons e named ih =>
    rw [slotsFrom_cons, List.length_cons, List.length_cons, ih, List.length_cons]
    omega

theorem length_buffer_cons (e : Bytes × UInt32) (named : List (Bytes × UInt32)) :
    (buffer (e :: named)).length = e.1.length + 1 + (buffer named).length := by
  rw [buffer, List.flatMap_cons, List.length_append, Bytes.ofText, List.length_append]
  rfl

theorem length_le_buffer (named : List (Bytes × UInt32)) : named.length ≤ (buffer named).length := by
  induction named with
  | nil => exact Nat.le_refl 0
  | cons e named ih =>
    rw [length_buffer_cons, List.length_cons]
    omega

/-- The bytes of the slots, as words. -/
theorem slotBytes_eq (offset : Nat) (h : offset + (buffer named).length < 2 ^ 32) :
    (((nameOffsets offset (named.map (·.1))).zip named).flatMap fun (offset, e) =>
      Bytes.leBytes 4 offset ++ Bytes.ofU32 e.2) = (slotsFrom offset named).flatMap Bytes.ofU32 := by
  induction named generalizing offset with
  | nil => rfl
  | cons e named ih =>
    rw [length_buffer_cons] at h
    have hoffset : Bytes.ofU32 (UInt32.ofNat offset) = Bytes.leBytes 4 offset := by
      rw [Bytes.ofU32, UInt32.toNat_ofNat_of_lt' (by omega : offset < 2 ^ 32)]
    have hrest := ih (offset + e.1.length + 1) (by omega)
    rw [slotsFrom_cons, List.flatMap_cons, List.flatMap_cons, hoffset, ← hrest, ← List.append_assoc]
    rfl

/-- By induction on the entries, in front of which the buffer has other names. -/
theorem addSlots_slotsFrom (hnames : ∀ e ∈ named, 0 ∉ e.1) (before : Bytes)
    (hsize : before.length + (buffer named).length < 2 ^ 32) (found : List (String × UInt32)) :
    decodeNamed.addSlots (before ++ buffer named) found (slotsFrom before.length named)
      = some ((named.map fun e => (Text.lossy e.1, e.2)).foldl addNamed found) := by
  induction named generalizing before found with
  | nil => rfl
  | cons e named ih =>
    obtain ⟨hname, hnames⟩ := List.forall_mem_cons.1 hnames
    rw [length_buffer_cons] at hsize
    have hoffset : (UInt32.ofNat before.length).toNat = before.length :=
      UInt32.toNat_ofNat_of_lt' (by omega : before.length < 2 ^ 32)
    have hbuffer : before ++ buffer (e :: named) = (before ++ Bytes.ofText e.1) ++ buffer named := by
      rw [List.append_assoc]
      rfl
    have hlength : (before ++ Bytes.ofText e.1).length = before.length + e.1.length + 1 := by
      rw [List.length_append, Bytes.ofText, List.length_append, ← Nat.add_assoc]
      rfl
    have hrest := ih hnames (before ++ Bytes.ofText e.1) (by omega)
      (addNamed found (Text.lossy e.1, e.2))
    rw [hlength, ← hbuffer] at hrest
    rw [slotsFrom_cons, decodeNamed.addSlots, hoffset]
    show (nameAt (before ++ (Bytes.ofText e.1 ++ buffer named)) before.length).bind _ = _
    rw [nameAt_of_append _ _ hname, Option.bind_some]
    exact hrest

theorem lookup_collected (named : List (String × UInt32)) (name : String) :
    (collected (named.map fun e => (Text.utf8 e.1, e.2))).lookup name = named.lookup name := by
  have htexts : (named.map fun e => (Text.utf8 e.1, e.2)).map (fun e => (Text.lossy e.1, e.2))
      = named := by
    rw [List.map_map]
    exact (List.map_congr_left fun e _ => by simp [Text.lossy_utf8]).trans (List.map_id named)
  rw [collected, htexts, lookup_foldl_addNamed]
  rfl

/-! ### The table -/

/-- What stands in front of the slots. -/
def tableHead (named : List (Bytes × UInt32)) : Bytes :=
  Bytes.leBytes 4 (buffer named).length ++ (buffer named ++ (Bytes.leBytes 4 named.length
    ++ (Bytes.leBytes 4 (max named.length 1) ++ (Bytes.leBytes 4 ((named.length + 31) / 32)
      ++ (presentBits named.length ++ Bytes.leBytes 4 0)))))

theorem table_eq (hsize : (buffer named).length < 2 ^ 32) :
    table named = tableHead named ++ (slotsFrom 0 named).flatMap Bytes.ofU32 := by
  have hcount : named.length % 2 ^ 32 = named.length :=
    Nat.mod_eq_of_lt (Nat.lt_of_le_of_lt (length_le_buffer named) hsize)
  have hzero : 0 + (buffer named).length < 2 ^ 32 := by rwa [Nat.zero_add]
  rw [← slotBytes_eq 0 hzero]
  simp only [table, tableHead, buffer, hcount, List.append_assoc]

theorem reads_decodeTableHead (hsize : (buffer named).length < 2 ^ 32) :
    Reads decodeTableHead (tableHead named) (buffer named, named.length, named.length) := by
  have hcount : named.length < 2 ^ 32 := Nat.lt_of_le_of_lt (length_le_buffer named) hsize
  have hbuffer : (UInt32.ofNat (buffer named).length).toNat = (buffer named).length :=
    UInt32.toNat_ofNat_of_lt' hsize
  have hnames : (UInt32.ofNat named.length).toNat = named.length := UInt32.toNat_ofNat_of_lt' hcount
  have hwords : (UInt32.ofNat ((named.length + 31) / 32)).toNat = (named.length + 31) / 32 :=
    UInt32.toNat_ofNat_of_lt' (by omega : (named.length + 31) / 32 < 2 ^ 32)
  refine (reads_leBytes hsize).bind <| (reads_take hbuffer.symm).bind <| (reads_leBytes hcount).bind <|
    (reads_skip (Bytes.length_leBytes 4 _)).bind <| (reads_leBytes (by omega)).bind <|
    (reads_take ?_).bind <| (reads_leBytes (by decide)).bind_last <| (reads_skip (by rfl)).bind_last <|
    .of_eq (.pure _) ?_
  · rw [length_presentBits, hwords]
  · rw [hnames, bitCount_presentBits]

/-- The table is read as it has been written. -/
theorem decodeNamed_table (hnames : ∀ e ∈ named, 0 ∉ e.1) (hsize : (buffer named).length < 2 ^ 32) :
    decodeNamed (table named ++ Bytes.leBytes 4 0) = .ok (collected named) := by
  have hhead := reads_decodeTableHead hsize
    ((slotsFrom 0 named).flatMap Bytes.ofU32 ++ Bytes.leBytes 4 0)
  have hslots := reads_u32s (slotsFrom 0 named) (Bytes.leBytes 4 0)
  rw [length_slotsFrom] at hslots
  have hadd := addSlots_slotsFrom hnames [] (by simpa using hsize) []
  have hend : u32 (Bytes.leBytes 4 0) = some (UInt32.ofNat 0, []) := (reads_leBytes (by decide)).end_
  rw [table_eq hsize, List.append_assoc]
  simp only [decodeNamed, hhead, Fault.orMalformed, bind, Except.bind, pure, Except.pure, ne_eq,
    not_true_eq_false, if_false, hslots, hend]
  rw [List.nil_append, List.length_nil] at hadd
  rw [hadd]
  rfl

/-! ### The stream -/

theorem reads_decodeHeader (guid : Guid) (age : UInt32) :
    Reads Info.decodeHeader (Bytes.ofU32 Info.currentVersion ++ (Bytes.ofU32 signature
      ++ (Bytes.ofU32 age ++ guid.encode))) (Info.currentVersion, signature, age, some guid) :=
  (reads_u32 Info.currentVersion).bind <| (reads_u32 signature).bind <| (reads_u32 age).bind <|
    (guid.reads_decode.map some).bind_last <| .pure _

/-- What is read of the info stream. -/
theorem parse_plan (p : InfoPlan) (hnames : ∀ e ∈ p.named, 0 ∉ e.1)
    (hsize : (buffer p.named).length < 2 ^ 32) : Info.parse p.encode = .ok {
      version := Info.currentVersion, signature, age := p.age, guid? := some p.guid
      named := collected p.named } := by
  have hheader := reads_decodeHeader p.guid p.age (table p.named ++ Bytes.leBytes 4 0)
  simp only [List.append_assoc] at hheader
  simp only [Info.parse, encode, List.append_assoc, hheader, Fault.orMalformed, bind, Except.bind, pure,
    Except.pure, decodeNamed_table hnames hsize]

/-- The info stream in which streams are named by texts. -/
def ofTexts (guid : Guid) (age : UInt32) (named : List (String × UInt32)) : InfoPlan where
  guid := guid
  age := age
  named := named.map fun e => (Text.utf8 e.1, e.2)

theorem not_mem_utf8_of_not_mem {s : String} (h : '\x00' ∉ s.toList) : 0 ∉ Text.utf8 s := by
  intro hmem
  rcases Text.mem_utf8 hmem with ⟨c, hc, hzero⟩ | hlarge
  · have hnul : c = '\x00' := Char.toNat_inj.1 hzero.symm
    exact h (hnul ▸ hc)
  · exact absurd hlarge (by decide)

/-- However many streams are named, as long as the size of their names is a word: the identifier and
the age are read again, and a name leads to the first stream that has been given it, or to none. -/
theorem parse_ofTexts (guid : Guid) (age : UInt32) (named : List (String × UInt32))
    (hnames : ∀ e ∈ named, '\x00' ∉ e.1.toList)
    (hsize : (buffer (ofTexts guid age named).named).length < 2 ^ 32) :
    ∃ i, Info.parse (ofTexts guid age named).encode = .ok i ∧ i.guid = guid ∧ i.age = age
      ∧ ∀ name, i.find? name = (named.lookup name).map (·.toNat) := by
  have hbytes : ∀ e ∈ (ofTexts guid age named).named, 0 ∉ e.1 := by
    intro e he
    obtain ⟨e, hmem, rfl⟩ := List.mem_map.1 he
    exact not_mem_utf8_of_not_mem (hnames e hmem)
  refine ⟨_, parse_plan _ hbytes hsize, rfl, rfl, fun name => ?_⟩
  rw [Info.find?]
  exact congrArg (Option.map (·.toNat)) (lookup_collected named name)

/-- More names than one word has bits, of which two are given more than once and one is empty. -/
def repeatedNames : List (String × UInt32) :=
  List.replicate 33 ("", 1) ++ [("/names", 5), ("", 2), ("/names", 6)]

theorem parse_ofTexts_repeated : (∀ e ∈ repeatedNames, '\x00' ∉ e.1.toList)
    ∧ (buffer (ofTexts .nil 3 repeatedNames).named).length < 2 ^ 32
    ∧ ∃ i, Info.parse (ofTexts .nil 3 repeatedNames).encode = .ok i ∧ i.guid = .nil ∧ i.age = 3
      ∧ i.find? "/names" = some 5 ∧ i.find? "" = some 1 ∧ i.find? "/NAMES" = none := by
  have hnames : ∀ e ∈ repeatedNames, '\x00' ∉ e.1.toList := by decide +kernel
  have hsize : (buffer (ofTexts .nil 3 repeatedNames).named).length < 2 ^ 32 := by decide +kernel
  obtain ⟨i, hparse, hguid, hage, hfind⟩ := parse_ofTexts .nil 3 repeatedNames hnames hsize
  refine ⟨hnames, hsize, i, hparse, hguid, hage, ?_, ?_, ?_⟩
  · exact (hfind "/names").trans (by decide +kernel)
  · exact (hfind "").trans (by decide +kernel)
  · exact (hfind "/NAMES").trans (by decide +kernel)

/-! ### More names than a word counts -/

theorem reads_decodeTableHead_zeros : Reads decodeTableHead (Bytes.zeros 20) ([], 0, 0) := by
  have hparts : Bytes.zeros 20 = Bytes.leBytes 4 0 ++ ([] ++ (Bytes.leBytes 4 0 ++ (Bytes.zeros 4
      ++ (Bytes.leBytes 4 0 ++ ([] ++ Bytes.leBytes 4 0))))) := rfl
  have hword : Reads u32 (Bytes.leBytes 4 0) (UInt32.ofNat 0) := reads_leBytes (by decide)
  rw [hparts]
  refine hword.bind <| (reads_take ?_).bind <| hword.bind <| (reads_skip ?_).bind <| hword.bind <|
    (reads_take ?_).bind <| hword.bind_last <| (reads_skip ?_).bind_last <| .of_eq (.pure _) ?_
  all_goals rfl

/-- Where there are only zeros there is an empty table. -/
theorem decodeNamed_zeros (rest : Bytes) : decodeNamed (Bytes.zeros 24 ++ rest) = .ok [] := by
  have hzeros : Bytes.zeros 24 ++ rest = Bytes.zeros 20 ++ (Bytes.leBytes 4 0 ++ rest) := rfl
  have hslots : u32s (2 * 0) (Bytes.leBytes 4 0 ++ rest) = some ([], Bytes.leBytes 4 0 ++ rest) :=
    reads_u32s [] _
  have hend : u32 (Bytes.leBytes 4 0 ++ rest) = some (UInt32.ofNat 0, rest) :=
    reads_leBytes (by decide) rest
  simp only [hzeros, decodeNamed, reads_decodeTableHead_zeros _, Fault.orMalformed, bind, Except.bind, pure,
    Except.pure, ne_eq, not_true_eq_false, if_false, hslots, decodeNamed.addSlots, hend]

theorem buffer_empty (n : Nat) (stream : UInt32) :
    buffer (List.replicate n ([], stream)) = Bytes.zeros n := by
  induction n with
  | zero => rfl
  | succ n ih =>
    rw [List.replicate_succ, buffer, List.flatMap_cons, ← buffer, ih]
    rfl

/-- If the size of the buffer is written as zero, the zeros of empty names stand where the counts are
read. -/
theorem decodeNamed_empty {n : Nat} (hsize : Bytes.leBytes 4 n = Bytes.zeros 4) (hn : 20 ≤ n)
    (stream : UInt32) (rest : Bytes) :
    decodeNamed (table (List.replicate n ([], stream)) ++ rest) = .ok [] := by
  obtain ⟨m, rfl⟩ := Nat.exists_eq_add_of_le hn
  have hbuffer : (List.replicate (20 + m) (([] : Bytes), stream)).flatMap (fun e => Bytes.ofText e.1)
      = Bytes.zeros 20 ++ Bytes.zeros m := by
    rw [← buffer, buffer_empty, Bytes.zeros, Bytes.zeros, Bytes.zeros, List.replicate_append_replicate]
  have hlength : (Bytes.zeros 20 ++ Bytes.zeros m).length = 20 + m := by
    rw [List.length_append, Bytes.zeros, Bytes.zeros, List.length_replicate, List.length_replicate]
  have hzeros : Bytes.zeros 4 ++ Bytes.zeros 20 = Bytes.zeros 24 := rfl
  simp only [table, hbuffer, hlength, hsize, List.append_assoc]
  rw [← List.append_assoc, hzeros, decodeNamed_zeros]

/-- So none of the names is found. -/
theorem parse_empty {n : Nat} (hsize : Bytes.leBytes 4 n = Bytes.zeros 4) (hn : 20 ≤ n) (guid : Guid)
    (age stream : UInt32) : Info.parse (ofTexts guid age (List.replicate n ("", stream))).encode = .ok {
      version := Info.currentVersion, signature, age, guid? := some guid, named := [] } := by
  have hnamed : (ofTexts guid age (List.replicate n ("", stream))).named
      = List.replicate n ([], stream) := List.map_replicate
  have htable := decodeNamed_empty hsize hn stream (Bytes.leBytes 4 0)
  have hheader := reads_decodeHeader guid age
    (table (List.replicate n ([], stream)) ++ Bytes.leBytes 4 0)
  simp only [List.append_assoc] at hheader
  rw [Info.parse, encode, hnamed]
  simp only [ofTexts, List.append_assoc, hheader, Fault.orMalformed, bind, Except.bind, pure, Except.pure,
    htable]

theorem lookup_replicate {n : Nat} (hn : 20 ≤ n) (name : String) (stream : UInt32) :
    (List.replicate n (name, stream)).lookup name = some stream := by
  obtain ⟨m, rfl⟩ := Nat.exists_eq_add_of_le' hn
  rw [List.replicate_succ, List.lookup_cons, beq_self_eq_true]

/-- As many empty names as a word has values. -/
def overfullNames : List (String × UInt32) := List.replicate (2 ^ 32) ("", 1)

/-- With its terminators the buffer has 2³² bytes, and its size is cut off to zero. -/
theorem parse_ofTexts_overfull : (∀ e ∈ overfullNames, '\x00' ∉ e.1.toList)
    ∧ overfullNames.lookup "" = some 1
    ∧ ∃ i, Info.parse (ofTexts .nil 3 overfullNames).encode = .ok i ∧ i.find? "" = none := by
  refine ⟨?_, lookup_replicate (by decide) "" 1, _,
    parse_empty (by decide) (by decide) .nil 3 1, by rfl⟩
  intro e he
  rw [(List.mem_replicate.1 he).2]
  decide

end InfoPlan
end Pdb
