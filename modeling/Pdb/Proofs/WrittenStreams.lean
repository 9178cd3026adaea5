import Pdb.Proofs.NamedStreams

/-! # Reading the streams of a written database

Each stream of a `DatabasePlan` but those of records is read as a whole, and what is read is what the
plan has: the info stream, the names, the debug information with its substreams, and the tables that
the substreams hold.
-/

namespace Pdb
open Decoder

/-! ### The info stream -/

namespace InfoPlan

/-- The table with the stream of the names. -/
def namesOnly : List (Bytes × UInt32) :=
  [(Text.utf8 Database.namesStream, UInt32.ofNat DatabasePlan.namesStream)]

theorem collected_namesOnly :
    collected namesOnly = [(Database.namesStream, UInt32.ofNat DatabasePlan.namesStream)] := by
  rw [collected, namesOnly, List.map_singleton, Text.lossy_utf8]
  rfl

theorem parse_info (guid : Guid) (age : UInt32) :
    Info.parse (encode { guid, age, named := namesOnly }) = .ok {
      version := Info.currentVersion, signature, age, guid? := some guid
      named := [(Database.namesStream, UInt32.ofNat DatabasePlan.namesStream)] } := by
  have hnames : ∀ e ∈ namesOnly, 0 ∉ e.1 := by decide +kernel
  have hsize : (buffer namesOnly).length < 2 ^ 32 := by decide +kernel
  rw [parse_plan _ hnames hsize, collected_namesOnly]

end InfoPlan

/-! ### Names -/

namespace NameList
variable {l : NameList}

theorem length_names_le (l : NameList) : l.names.length < l.texts.length := by
  rw [texts, List.length_cons, Nat.lt_succ_iff]
  induction l.names with
  | nil => exact Nat.zero_le _
  | cons n ns ih =>
    rw [List.flatMap_cons, List.length_append, Bytes.ofText, List.length_append, List.length_cons,
      List.length_singleton]
    omega

theorem parse_names (h : l.texts.length < 2 ^ 32) :
    Names.parse l.encode = .ok { texts := l.texts, hashCount := 1, nameCount := l.names.length } := by
  have hcount := l.length_names_le
  have hsize : (UInt32.ofNat l.texts.length).toNat = l.texts.length := UInt32.toNat_ofNat_of_lt' h
  have hnames : (UInt32.ofNat l.names.length).toNat = l.names.length :=
    UInt32.toNat_ofNat_of_lt' (Nat.lt_trans hcount h)
  have hheader : Reads Names.decodeHeader (Bytes.leBytes 4 Names.signature
      ++ (Bytes.leBytes 4 Names.version ++ Bytes.leBytes 4 l.texts.length))
      (Names.signature, Names.version, l.texts.length) :=
    (reads_leBytes (by decide)).bind <| (reads_leBytes (by decide)).bind <|
      (reads_leBytes h).bind_last <| .of_eq (.pure _) (congrArg (Names.signature, Names.version, ·) hsize)
  have hbody : Reads (Names.decodeBody l.texts.length) (l.texts ++ (Bytes.leBytes 4 1
      ++ (Bytes.leBytes 4 0 ++ Bytes.leBytes 4 l.names.length))) ⟨l.texts, 1, l.names.length⟩ :=
    (reads_take rfl).bind <| (reads_leBytes (by decide)).bind <| (reads_skip (by rfl)).bind <|
      (reads_leBytes (Nat.lt_trans hcount h)).bind_last <| .of_eq (.pure _)
        (congrArg (Names.mk l.texts 1 ·) hnames)
  have hparse := hheader (l.texts ++ (Bytes.leBytes 4 1
    ++ (Bytes.leBytes 4 0 ++ Bytes.leBytes 4 l.names.length)))
  simp only [List.append_assoc] at hparse
  simp only [Names.parse, encode, List.append_assoc, hparse, hbody.end_, Fault.orMalformed, bind,
    Except.bind, pure, Except.pure, ne_eq, not_true_eq_false, if_false]

/-- The offset that a name has been given leads to it. -/
theorem get_of_append (before after : List Bytes) {name : Bytes} (hname : 0 ∉ name)
    (hashCount nameCount : Nat) :
    ({ texts := texts ⟨before ++ name :: after⟩, hashCount, nameCount } : Names).get
      (texts ⟨before⟩).length = .ok name := by
  have hsplit : texts ⟨before ++ name :: after⟩
      = texts ⟨before⟩ ++ (name ++ 0 :: after.flatMap Bytes.ofText) := by
    simp only [texts, List.flatMap_append, List.flatMap_cons, Bytes.ofText, List.append_assoc,
      List.cons_append, List.nil_append]
  have hle : (texts ⟨before⟩).length ≤ (texts ⟨before ++ name :: after⟩).length := by
    rw [hsplit, List.length_append]
    exact Nat.le_add_right ..
  rw [Names.get, if_pos hle, hsplit, List.drop_left, text_append hname]
  rfl

end NameList

/-! ### Debug information -/

/-- A substream of the length that the header has. -/
theorem DebugInfo.substream_eq (field : String) (bs : Bytes) (h : bs.length < 2 ^ 31) (r : Bytes) :
    substream field (Int32.ofNat bs.length) (bs ++ r) = .ok (bs, r) := by
  have hlength : (Int32.ofNat bs.length).toInt = bs.length := Int32.toInt_ofNat_of_lt h
  have hsign : ¬ Int32.ofNat bs.length < 0 := by
    rw [Int32.lt_iff_toInt_lt, hlength, Int32.toInt_zero]
    omega
  rw [substream, if_neg hsign, hlength, Int.toNat_natCast, take_append rfl]
  rfl

namespace DatabasePlan
variable (p : DatabasePlan)

def moduleBytes : Bytes := p.moduleEntries.flatMap ModuleEntry.encode

def contributionBytes : Bytes :=
  Bytes.leBytes 4 Contribution.plainVersion ++ p.contributions.flatMap Contribution.encode

def optionalBytes : Bytes := optionalStreams.flatMap StreamIndex.encode

def debugHeader : DebugInfoHeader where
  signature := -1
  version := 19990903
  age := 1
  globalIndex := .nil
  buildNumber := 0
  publicIndex := .nil
  toolVersion := 0
  globals := .ofOption (some globalsStream)
  toolBuild := 0
  modulesLength := Int32.ofNat p.moduleBytes.length
  contributionsLength := Int32.ofNat p.contributionBytes.length
  sectionMapLength := 0
  sourcesLength := 0
  typeServersLength := 0
  typeServer := 0
  optionalLength := Int32.ofNat optionalBytes.length
  editLength := 0
  flags := 0
  machine := 0x8664

/-- What is read of the debug information stream. -/
def debugInfo : DebugInfo where
  header? := some p.debugHeader
  modules := p.moduleBytes
  contributions := p.contributionBytes
  sectionMap := []
  sources := []
  typeServers := []
  edit := []
  optional := optionalBytes

theorem encodeDebugInfo_eq : p.encodeDebugInfo
    = p.debugHeader.encode ++ (p.moduleBytes ++ (p.contributionBytes ++ optionalBytes)) := by
  simp only [← List.append_assoc]
  rfl

variable {p}

theorem parse_encodeDebugInfo (h : p.encodeDebugInfo.length < 2 ^ 31) :
    DebugInfo.parse p.encodeDebugInfo = .ok p.debugInfo := by
  rw [encodeDebugInfo_eq] at h ⊢
  simp only [List.length_append] at h
  have hversion : 4 ≤ p.contributionBytes.length := by
    rw [contributionBytes, List.length_append, Bytes.length_leBytes]
    exact Nat.le_add_right ..
  have hempty : (p.debugHeader.encode ++ (p.moduleBytes ++ (p.contributionBytes ++ optionalBytes))).isEmpty
      = false := by
    rw [List.isEmpty_eq_false_iff, ← List.length_pos_iff]
    simp only [List.length_append]
    omega
  have hheader := p.debugHeader.reads_decode (p.moduleBytes ++ (p.contributionBytes ++ optionalBytes))
  have hmodules : DebugInfo.substream "mod_info_size" p.debugHeader.modulesLength
      (p.moduleBytes ++ (p.contributionBytes ++ optionalBytes)) = _ :=
    DebugInfo.substream_eq _ _ (by omega) _
  have hcontributions : DebugInfo.substream "section_contribution_size"
      p.debugHeader.contributionsLength (p.contributionBytes ++ optionalBytes) = _ :=
    DebugInfo.substream_eq _ _ (by omega) _
  have hnone (field : String) {length : Int32} (h : length = 0) :
      DebugInfo.substream field length optionalBytes = .ok ([], optionalBytes) :=
    h ▸ DebugInfo.substream_eq field [] (by decide) optionalBytes
  have hoptional : DebugInfo.substream "optional_dbg_header_size" p.debugHeader.optionalLength
      optionalBytes = .ok (optionalBytes, []) := by
    have hsubstream := DebugInfo.substream_eq "optional_dbg_header_size" optionalBytes (by decide) []
    rwa [List.append_nil] at hsubstream
  simp only [DebugInfo.parse, hempty, hheader, Fault.orMalformed, bind, Except.bind, pure, Except.pure,
    Bool.false_eq_true, if_false, hmodules, hcontributions,
    hnone "section_map_size" (show p.debugHeader.sectionMapLength = 0 from rfl),
    hnone "source_info_size" (show p.debugHeader.sourcesLength = 0 from rfl),
    hnone "type_server_map_size" (show p.debugHeader.typeServersLength = 0 from rfl),
    hnone "edit_and_continue_size" (show p.debugHeader.editLength = 0 from rfl), hoptional]
  rfl

/-! ### Tables -/

theorem globals?_debugInfo : p.debugInfo.globals? = some globalsStream :=
  StreamIndex.get?_ofOption (n := globalsStream) (by decide)

theorem parse_optionalBytes : OptionalStreams.parse optionalBytes = .ok optionalStreams := by
  have hmany := many_flatMap OptionalStreams.streamIndex_progress optionalStreams
    (fun i _ => i.reads_decode) rfl
  rw [OptionalStreams.parse, optionalBytes, hmany]
  rfl

theorem at?_optionalStreams :
    OptionalStreams.at? optionalStreams OptionalStreams.sectionHeaders = some sectionsStream :=
  StreamIndex.get?_ofOption (n := sectionsStream) (by decide)

theorem parseTable_contributionBytes : Contribution.parseTable p.contributionBytes = .ok p.contributions := by
  have hmany := many_flatMap Contribution.decode_progress p.contributions
    (fun c _ => c.reads_decode) rfl
  have hversion := reads_leBytes (n := Contribution.plainVersion) (by decide)
    (p.contributions.flatMap Contribution.encode)
  have hempty : (Bytes.leBytes 4 Contribution.plainVersion
      ++ p.contributions.flatMap Contribution.encode).isEmpty = false := rfl
  have hplain : (UInt32.ofNat Contribution.plainVersion).toNat = Contribution.plainVersion := rfl
  simp only [Contribution.parseTable, contributionBytes, hempty, Bool.false_eq_true, if_false, hversion,
    Fault.orMalformed, bind, Except.bind, pure, Except.pure, hplain, if_true, hmany, List.isEmpty_nil]

theorem parseTable_sections {sections : List Section} (h : ∀ s ∈ sections, s.rawName.length = 8) :
    Section.parseTable (sections.flatMap Section.encode) = .ok sections := by
  have hmany := many_flatMap Section.decode_progress sections
    (fun s hs => Section.reads_decode (h s hs)) rfl
  rw [Section.parseTable, hmany]
  rfl

/-! ### Modules -/

/-- What is read of a module. -/
def moduleDescriptor (i : Nat) (m : PlannedModule) : ModuleDescriptor where
  index := i
  name := m.name
  objectFile := m.name
  stream? := some (firstModuleStream + i)
  symbolBytes := m.symbols.length
  oldLineBytes := 0
  lineBytes := m.lines.length

/-- What is read of the linker's module. -/
def linkerDescriptor (i : Nat) : ModuleDescriptor where
  index := i
  name := ModuleEntry.linkerName
  objectFile := []
  stream? := none
  symbolBytes := 0
  oldLineBytes := 0
  lineBytes := 0

def moduleDescriptors (p : DatabasePlan) : List ModuleDescriptor :=
  p.modules.mapIdx moduleDescriptor ++ [linkerDescriptor p.modules.length]

/-- The entry of a module that has been added. -/
def plannedEntry (i : Nat) (m : PlannedModule) : ModuleEntry :=
  moduleEntry m.name m.name (some (firstModuleStream + i)) m.symbols.length m.lines.length

/-- The entry of the linker's module. -/
def linkerEntry : ModuleEntry := moduleEntry ModuleEntry.linkerName [] none 0 0

theorem moduleEntries_eq (p : DatabasePlan) :
    p.moduleEntries = p.modules.mapIdx plannedEntry ++ [linkerEntry] := by
  rw [List.mapIdx_eq_zipIdx_map]
  rfl

theorem length_moduleEntries (p : DatabasePlan) : p.moduleEntries.length = p.modules.length + 1 := by
  rw [moduleEntries_eq, List.length_append, List.length_mapIdx, List.length_singleton]

theorem mem_moduleEntries {m : ModuleEntry} (hnames : ∀ m ∈ p.modules, 0 ∉ m.name)
    (hm : m ∈ p.moduleEntries) : 0 ∉ m.name ∧ 0 ∉ m.objectFile := by
  rw [moduleEntries_eq] at hm
  rcases List.mem_append.1 hm with hm | hm
  · obtain ⟨i, hi, rfl⟩ := List.mem_mapIdx.1 hm
    have hname := hnames _ (List.getElem_mem hi)
    exact ⟨hname, hname⟩
  · obtain rfl := List.mem_singleton.1 hm
    exact ⟨by decide +kernel, List.not_mem_nil⟩

theorem ofEntry_plannedEntry {m : PlannedModule} {i : Nat} (hi : firstModuleStream + i < 2 ^ 16 - 1)
    (hsymbols : m.symbols.length < 2 ^ 32) (hlines : m.lines.length < 2 ^ 32) :
    ModuleDescriptor.ofEntry i (plannedEntry i m) = moduleDescriptor i m := by
  simp only [ModuleDescriptor.ofEntry, plannedEntry, moduleEntry, moduleDescriptor,
    StreamIndex.get?_ofOption hi, UInt32.toNat_ofNat_of_lt' hsymbols, UInt32.toNat_ofNat_of_lt' hlines]
  rfl

theorem listModules_debugInfo (hnames : ∀ m ∈ p.modules, 0 ∉ m.name)
    (hcount : p.modules.length < 2 ^ 15)
    (hlengths : ∀ m ∈ p.modules, m.symbols.length < 2 ^ 32 ∧ m.lines.length < 2 ^ 32) :
    Database.listModules p.debugInfo = .ok p.moduleDescriptors := by
  have hmany := many_flatMap ModuleEntry.decode_progress p.moduleEntries
    (fun m hm => ModuleEntry.reads_decode (mem_moduleEntries hnames hm).1 (mem_moduleEntries hnames hm).2)
    rfl
  have hlist : (ModuleEntry.listWithRest p.debugInfo.modules).1 = p.moduleEntries := congrArg (·.1) hmany
  have hlength := p.length_moduleEntries
  have hplanned : (p.modules.mapIdx plannedEntry).mapIdx ModuleDescriptor.ofEntry
      = p.modules.mapIdx moduleDescriptor := by
    rw [List.mapIdx_mapIdx, List.mapIdx_eq_mapIdx_iff]
    intro i hi
    obtain ⟨hsymbols, hlines⟩ := hlengths _ (List.getElem_mem hi)
    have hstream : firstModuleStream + i < 2 ^ 16 - 1 := by
      rw [firstModuleStream]
      omega
    exact ofEntry_plannedEntry hstream hsymbols hlines
  have hnumbered : p.moduleEntries.mapIdx ModuleDescriptor.ofEntry = p.moduleDescriptors := by
    rw [moduleEntries_eq, List.mapIdx_append, hplanned, List.length_mapIdx, List.mapIdx_singleton,
      Nat.zero_add]
    rfl
  rw [Database.listModules, hlist, if_neg (by omega), ← hnumbered, List.mapIdx_eq_zipIdx_map]
  rfl

end DatabasePlan
end Pdb
