import Pdb.Proofs.ImageRoundTrip
import Pdb.Proofs.SymbolListing
import Pdb.Proofs.WrittenStreams

/-! # A written database has what has been put into it

The streams of a database that has been written are served by its container (`Serves`), and from
there each part of the database is opened by itself. `Database.Holds` says that a database has what a
plan has. The directory of the container has to fit on the pages that its map can list, and so streams
are short and few: all lengths and all numbers of streams fit into their fields.
-/

namespace Pdb

namespace ImagePlan
variable {p : ImagePlan}

/-- What fits is small. -/
theorem Fits.length_le (hfits : p.Fits) (hsize : p.pageSize = .smallest) :
    p.streams.length < 2 ^ 14 ∧ ∀ s ∈ p.streams, s.bytes.length ≤ 2 ^ 23 := by
  have hbytes : p.pageSize.bytes = 512 := by rw [hsize]; rfl
  have hfew : 4 * p.pageSize.pagesHolding p.directoryBytes.length ≤ 512 := hbytes ▸ hfits
  have hdirectory := PagedStream.le_pagesHolding_mul p.pageSize p.directoryBytes.length
  rw [length_directoryBytes, hbytes] at hdirectory
  rw [length_directoryBytes] at hfew
  refine ⟨by omega, fun s hs => ?_⟩
  have hplaced := streamPages_placed (Nat.le_of_eq hbytes.symm)
  obtain ⟨i, hi, rfl⟩ := List.mem_iff_getElem.1 hs
  have hi' : i < p.streamPages.length := hplaced.length_eq ▸ hi
  have hpages : p.streamPages[i].length = p.pageSize.pagesHolding p.streams[i].bytes.length :=
    (hplaced.get hi hi').length_eq
  have hle : p.streamPages[i].length ≤ p.streamPages.flatten.length :=
    (List.sublist_flatten_of_mem (List.getElem_mem hi')).length_le
  have hholding := PagedStream.le_pagesHolding_mul p.pageSize p.streams[i].bytes.length
  rw [hbytes] at hholding
  omega

end ImagePlan

/-- A stream of a container with its bytes. -/
structure Container.Serves (c : Container) (n : Nat) (bs : Bytes) : Prop where
  isValid_eq : c.isValid n = true
  contents_eq : c.contents n = .ok bs
  exists_stream : ∃ s, c.openStream n = .ok s ∧ s.Holds bs

namespace DatabasePlan
variable {p : DatabasePlan}

theorem image_eq (p : DatabasePlan) :
    p.image.streams = { contents? := some [] } :: p.streams ∧ p.image.pageSize = .smallest :=
  ImagePlan.streams_foldl_add p.streams (.new PageSize.smallest)

theorem length_stream_le {i : Nat} {s : PlannedStream} (hfits : p.image.Fits)
    (hs : p.streams[i]? = some s) : i < 2 ^ 14 ∧ s.bytes.length ≤ 2 ^ 23 := by
  obtain ⟨hstreams, hsize⟩ := p.image_eq
  obtain ⟨hcount, hlength⟩ := hfits.length_le hsize
  rw [hstreams, List.length_cons] at hcount
  rw [hstreams] at hlength
  obtain ⟨hi, -⟩ := List.getElem?_eq_some_iff.1 hs
  exact ⟨by omega, hlength s (List.mem_cons_of_mem _ (List.mem_of_getElem? hs))⟩

/-- The stream `i + 1` of the container is the one that has been planned. -/
theorem serves {i : Nat} {bs : Bytes} {isScattered : Bool} (hfits : p.image.Fits)
    (hs : p.streams[i]? = some ⟨some bs, isScattered⟩) : p.image.container.Serves (i + 1) bs := by
  obtain ⟨hstreams, hsize⟩ := p.image_eq
  have hbytes : 512 ≤ p.image.pageSize.bytes := by rw [hsize]; decide
  have hshort : bs.length < PageSize.nilLength := by
    have hle := (length_stream_le hfits hs).2
    exact Nat.lt_of_le_of_lt hle (by decide)
  have hs' : p.image.streams[i + 1]? = some ⟨some bs, isScattered⟩ := by
    rwa [hstreams, List.getElem?_cons_succ]
  obtain ⟨stream, hopen, hin, hlength, hcontents⟩ :=
    ImagePlan.openStream_container hbytes hs' rfl hshort hfits
  exact ⟨ImagePlan.isValid_container_of_contents hbytes hs' rfl hshort,
    ImagePlan.contents_container hbytes hs' rfl hshort hfits,
    stream, hopen, hin, hlength ▸ hshort, hcontents⟩

theorem parse_image (hfits : p.image.Fits) : ∃ image,
    p.encode = some image ∧ Container.parse image.toArray = .ok p.image.container := by
  obtain ⟨hstreams, hsize⟩ := p.image_eq
  refine ⟨p.image.imageBytes, (ImagePlan.encode_eq p.image).trans (if_pos hfits), ?_⟩
  refine ImagePlan.parse_imageBytes (hsize ▸ Nat.le_refl _) (hsize ▸ by decide) hfits (fun s hs => ?_) ?_
  · exact Nat.lt_of_le_of_lt ((hfits.length_le hsize).2 s hs) (by decide)
  · rw [hstreams]
    exact List.cons_ne_nil _ _

/-! ### Opening the parts -/

/-- The streams that every database has. -/
def fixedStreams (p : DatabasePlan) : List PlannedStream :=
  [⟨some (InfoPlan.encode { guid := p.guid, age := p.age, named := InfoPlan.namesOnly }), false⟩,
    ⟨some p.types.encode, false⟩, ⟨some p.encodeDebugInfo, false⟩, ⟨some p.items.encode, true⟩,
    ⟨some p.names.encode, false⟩, ⟨some p.globals.encode, false⟩,
    ⟨some (p.sections.flatMap Section.encode), false⟩]

theorem length_fixedStreams (p : DatabasePlan) : p.fixedStreams.length = 7 := rfl

theorem streams_eq (p : DatabasePlan) : p.streams
    = p.fixedStreams ++ p.modules.map fun m => ⟨some (m.symbols ++ m.lines), false⟩ := rfl

section
variable (hfits : p.image.Fits)
include hfits

theorem serves_module {i : Nat} {m : PlannedModule} (hm : p.modules[i]? = some m) :
    p.image.container.Serves (firstModuleStream + i) (m.symbols ++ m.lines) := by
  have hs : p.streams[7 + i]? = some ⟨some (m.symbols ++ m.lines), false⟩ := by
    have hle : p.fixedStreams.length ≤ 7 + i := Nat.le_add_right ..
    rw [streams_eq, List.getElem?_append_right hle, length_fixedStreams, Nat.add_sub_cancel_left,
      List.getElem?_map, hm, Option.map_some]
  have hnumber : firstModuleStream + i = 7 + i + 1 := Nat.add_right_comm 7 1 i
  rw [hnumber]
  exact serves hfits hs

theorem contents_info : p.image.container.contents StreamIndex.info
    = .ok (InfoPlan.encode { guid := p.guid, age := p.age, named := InfoPlan.namesOnly }) :=
  (serves (i := 0) hfits rfl).contents_eq

theorem openDebugInfo_eq : Database.openDebugInfo p.image.container = .ok p.debugInfo := by
  have hserves : p.image.container.Serves StreamIndex.debugInfo p.encodeDebugInfo :=
    serves (i := 2) hfits rfl
  have hlength : p.encodeDebugInfo.length ≤ 2 ^ 23 :=
    (length_stream_le (i := 2) (s := ⟨some p.encodeDebugInfo, false⟩) hfits rfl).2
  have hparse := parse_encodeDebugInfo (Nat.lt_of_le_of_lt hlength (by decide))
  simp only [Database.openDebugInfo, hserves.isValid_eq, hserves.contents_eq, if_true, bind, Except.bind,
    hparse]

theorem openNames_eq (info : Info) (hinfo : info.find? Database.namesStream = some namesStream) :
    Database.openNames p.image.container info
      = .ok { texts := p.names.texts, hashCount := 1, nameCount := p.names.names.length } := by
  have hserves : p.image.container.Serves namesStream p.names.encode := serves (i := 4) hfits rfl
  have hlength : p.names.encode.length ≤ 2 ^ 23 :=
    (length_stream_le (i := 4) (s := ⟨some p.names.encode, false⟩) hfits rfl).2
  have htexts : p.names.texts.length ≤ p.names.encode.length := by
    simp only [NameList.encode, List.length_append]
    omega
  simp only [Database.openNames, hinfo, hserves.contents_eq, bind, Except.bind]
  exact NameList.parse_names (by omega)

theorem openGlobals_eq : ∃ s, Database.openGlobals p.image.container p.debugInfo = .ok ⟨some s⟩
    ∧ s.Holds p.globals.encode := by
  have hserves : p.image.container.Serves globalsStream p.globals.encode := serves (i := 5) hfits rfl
  obtain ⟨s, hopen, hholds⟩ := hserves.exists_stream
  refine ⟨s, ?_, hholds⟩
  simp only [Database.openGlobals, globals?_debugInfo, Container.openOptional, hserves.isValid_eq, hopen,
    if_true]
  rfl

theorem openSections_eq (hsections : ∀ s ∈ p.sections, s.rawName.length = 8) :
    Database.openSections p.image.container p.debugInfo = .ok p.sections := by
  have hserves : p.image.container.Serves sectionsStream (p.sections.flatMap Section.encode) :=
    serves (i := 6) hfits rfl
  have hoptional : OptionalStreams.parse p.debugInfo.optional = .ok optionalStreams := parse_optionalBytes
  simp only [Database.openSections, hoptional, at?_optionalStreams, bind, Except.bind, Option.filter,
    hserves.isValid_eq, if_true, hserves.contents_eq, parseTable_sections hsections]

end

theorem exists_openTypes {c : Container} {n : Nat} {t : TypeList} (hserves : c.Serves n t.encode)
    (hrs : ∀ r ∈ t.records, r.FitsFrame) (kind : TypeStreamKind) : ∃ unscanned types,
      Database.openTypes c kind n = .ok unscanned ∧ unscanned.scan = .ok types ∧ t.FoundIn types := by
  obtain ⟨s, hopen, hholds⟩ := hserves.exists_stream
  obtain ⟨types, hscan, hfound⟩ := TypeList.exists_scan hholds hrs kind
  refine ⟨_, types, ?_, hscan, hfound⟩
  simp only [Database.openTypes, Container.openOptional, hserves.isValid_eq, hopen, if_true]
  exact TypeList.parse_unscanned hholds kind

end DatabasePlan

/-! ### The whole database -/

/-- A database has what a plan has. -/
structure Database.Holds (d : Database) (p : DatabasePlan) : Prop where
  guid_eq : d.info.guid? = some p.guid
  age_eq : d.info.age = p.age
  type : ∀ i r, p.types.records[i]? = some r →
    d.types.record (.ofNat (TypeIndex.minBegin.toNat + i)) = .ok r
  item : ∀ i r, p.items.records[i]? = some r →
    d.items.record (.ofNat (TypeIndex.minBegin.toNat + i)) = .ok r
  name : ∀ before name after, p.names.names = before ++ name :: after →
    d.names.get (NameList.texts ⟨before⟩).length = .ok name
  global : ∀ s ∈ p.globals.symbols, d.globals.recordAt s.offset = .ok s.record
  sections : d.sections = p.sections
  contributions : Contribution.parseTable d.debugInfo.contributions = .ok p.contributions
  modules : d.modules = p.moduleDescriptors
  moduleStream : ∀ i m, p.modules[i]? = some m → ∃ s, d.moduleStream i = .ok (some s)
    ∧ s.symbolData = .ok (m.symbols.drop ModuleStream.signatureLength)
    ∧ s.stream.read 0 s.symbolBytes = .ok m.symbols ∧ s.lineData = .ok m.lines

namespace DatabasePlan
variable {p : DatabasePlan}

/-- What can be written: records are short, texts end where they end, and the container has not too
many pages. -/
structure Encodable (p : DatabasePlan) : Prop where
  types : ∀ r ∈ p.types.records, r.FitsFrame
  items : ∀ r ∈ p.items.records, r.FitsFrame
  globals : ∀ s ∈ p.globals.symbols, s.record.FitsFrame
  names : ∀ name ∈ p.names.names, 0 ∉ name
  modules : ∀ m ∈ p.modules, 0 ∉ m.name
  fits : p.image.Fits

instance (p : DatabasePlan) : Decidable p.Encodable :=
  decidable_of_iff
    ((∀ r ∈ p.types.records, r.FitsFrame) ∧ (∀ r ∈ p.items.records, r.FitsFrame)
      ∧ (∀ s ∈ p.globals.symbols, s.record.FitsFrame) ∧ (∀ name ∈ p.names.names, 0 ∉ name)
      ∧ (∀ m ∈ p.modules, 0 ∉ m.name) ∧ p.image.Fits)
    ⟨fun ⟨types, items, globals, names, modules, fits⟩ => ⟨types, items, globals, names, modules, fits⟩,
      fun h => ⟨h.types, h.items, h.globals, h.names, h.modules, h.fits⟩⟩

/-- The stream of a module is cut into its two parts. -/
theorem exists_moduleStream {c : Container} {i : Nat} {m : PlannedModule}
    (hserves : c.Serves (firstModuleStream + i) (m.symbols ++ m.lines)) :
    ∃ stream s, c.openStream (firstModuleStream + i) = .ok stream
      ∧ ModuleStream.new (moduleDescriptor i m) stream = .ok s
      ∧ s.symbolData = .ok (m.symbols.drop ModuleStream.signatureLength)
      ∧ s.stream.read 0 s.symbolBytes = .ok m.symbols ∧ s.lineData = .ok m.lines := by
  obtain ⟨stream, hopen, hholds⟩ := hserves.exists_stream
  have hlength : stream.length = m.symbols.length + m.lines.length := by
    rw [hholds.length_eq, List.length_append]
  have hfits : (moduleDescriptor i m).symbolBytes + (moduleDescriptor i m).oldLineBytes
      + (moduleDescriptor i m).lineBytes ≤ stream.length := Nat.le_of_eq hlength.symm
  refine ⟨stream, ⟨stream, m.symbols.length, 0, m.lines.length, hfits⟩, hopen, ?_, ?_, ?_, ?_⟩
  · rw [ModuleStream.new, dif_pos hfits]
    by_cases hsymbols : ModuleStream.signatureLength ≤ m.symbols.length
    · have hwithin : 0 + ModuleStream.signatureLength ≤ (m.symbols ++ m.lines).length := by
        rw [List.length_append]
        omega
      have hsignature := hholds.copy_eq hwithin
      simp only [moduleDescriptor, hsymbols, if_true, hsignature, Except.mapError, bind, Except.bind]
      rfl
    · simp only [moduleDescriptor, hsymbols, if_false, bind, Except.bind, pure, Except.pure]
  · by_cases hsymbols : m.symbols.length < ModuleStream.signatureLength
    · rw [ModuleStream.symbolData, if_pos hsymbols, List.drop_eq_nil_of_le (Nat.le_of_lt hsymbols)]
      rfl
    · have hsize : m.symbols.length - ModuleStream.signatureLength
          = (m.symbols.drop ModuleStream.signatureLength).length := List.length_drop.symm
      have hwithin : ModuleStream.signatureLength + (m.symbols.length - ModuleStream.signatureLength)
          ≤ (m.symbols ++ m.lines).length := by
        rw [List.length_append]
        omega
      have hread := hholds.read_eq hwithin
      rw [List.drop_append_of_le_length (Nat.le_of_not_lt hsymbols), List.take_left' hsize.symm] at hread
      rw [ModuleStream.symbolData, if_neg hsymbols, hread]
      rfl
  · exact hholds.read_front
  · have hbytes : stream.Holds (m.symbols ++ m.lines ++ []) := by rwa [List.append_nil]
    exact congrArg (Except.mapError Fault.stream) hbytes.read_mid

theorem moduleDescriptors_getElem? {i : Nat} {m : PlannedModule} (hm : p.modules[i]? = some m) :
    p.moduleDescriptors[i]? = some (moduleDescriptor i m) := by
  obtain ⟨hi, -⟩ := List.getElem?_eq_some_iff.1 hm
  have hlt : i < (p.modules.mapIdx moduleDescriptor).length := by rwa [List.length_mapIdx]
  rw [moduleDescriptors, List.getElem?_append_left hlt, List.getElem?_mapIdx, hm, Option.map_some]

theorem modules_small (hfits : p.image.Fits) : p.modules.length < 2 ^ 15
    ∧ ∀ m ∈ p.modules, m.symbols.length < 2 ^ 32 ∧ m.lines.length < 2 ^ 32 := by
  obtain ⟨hstreams, hsize⟩ := p.image_eq
  obtain ⟨hcount, hlength⟩ := hfits.length_le hsize
  rw [hstreams, List.length_cons, streams_eq, List.length_append, List.length_map] at hcount
  refine ⟨by omega, fun m hm => ?_⟩
  have hmem : (⟨some (m.symbols ++ m.lines), false⟩ : PlannedStream) ∈ p.image.streams := by
    rw [hstreams, streams_eq]
    exact List.mem_cons_of_mem _ (List.mem_append_right _ (List.mem_map_of_mem hm))
  have hle : (m.symbols ++ m.lines).length ≤ 2 ^ 23 := hlength _ hmem
  rw [List.length_append] at hle
  omega

/-- What is read of the info stream. -/
def info (p : DatabasePlan) : Info where
  version := Info.currentVersion
  signature := InfoPlan.signature
  age := p.age
  guid? := some p.guid
  named := [(Database.namesStream, UInt32.ofNat namesStream)]

/-- The database that is opened, with the three streams that it goes on reading. -/
def opened (p : DatabasePlan) (options : OpenOptions) (types items : TypeStream) (globals : PagedStream) :
    Database where
  container := p.image.container
  options := options
  info := p.info
  debugInfo := p.debugInfo
  types := types
  items := items
  names := { texts := p.names.texts, hashCount := 1, nameCount := p.names.names.length }
  globals := ⟨some globals⟩
  sections := p.sections
  modules := p.moduleDescriptors

theorem parse_opened (h : p.Encodable) (hsections : ∀ s ∈ p.sections, s.rawName.length = 8) {image : Bytes}
    (himage : Container.parse image.toArray = .ok p.image.container) (options : OpenOptions) :
    ∃ types items globals, Database.parse image.toArray options = .ok (p.opened options types items globals)
      ∧ p.types.FoundIn types ∧ p.items.FoundIn items ∧ globals.Holds p.globals.encode := by
  obtain ⟨hcount, hlengths⟩ := modules_small h.fits
  have htypes : p.image.container.Serves StreamIndex.types p.types.encode := serves (i := 1) h.fits rfl
  have hitems : p.image.container.Serves StreamIndex.items p.items.encode := serves (i := 3) h.fits rfl
  obtain ⟨_, types, hopenTypes, hscanTypes, hfoundTypes⟩ := exists_openTypes htypes h.types .types
  obtain ⟨_, items, hopenItems, hscanItems, hfoundItems⟩ := exists_openTypes hitems h.items .items
  obtain ⟨globals, hopenGlobals, hglobals⟩ := openGlobals_eq h.fits
  have hinfo : Info.parse _ = .ok p.info := InfoPlan.parse_info p.guid p.age
  have hnames := openNames_eq h.fits p.info (by rfl)
  have hmodules := listModules_debugInfo h.modules hcount hlengths
  refine ⟨types, items, globals, ?_, hfoundTypes, hfoundItems, hglobals⟩
  simp only [Database.parse, himage, contents_info h.fits, hinfo, openDebugInfo_eq h.fits, hopenTypes,
    hopenItems, hnames, hopenGlobals, openSections_eq h.fits hsections, hmodules, hscanTypes, hscanItems,
    Except.mapError, bind, Except.bind, pure, Except.pure]
  rfl

theorem holds_opened (h : p.Encodable) (hlisted : p.globals.Listed) (hheader : p.globals.header = [])
    (options : OpenOptions) {types items : TypeStream} {globals : PagedStream}
    (htypes : p.types.FoundIn types) (hitems : p.items.FoundIn items)
    (hglobals : globals.Holds p.globals.encode) :
    (p.opened options types items globals).Holds p where
  guid_eq := rfl
  age_eq := rfl
  type := htypes
  item := hitems
  name before name after hnames := by
    have hmem : name ∈ p.names.names := hnames ▸ List.mem_append_right _ List.mem_cons_self
    have hget := NameList.get_of_append before after (h.names name hmem) 1
      p.names.names.length
    rwa [← hnames] at hget
  global s hs := hlisted.recordAt_eq hheader hglobals hs (h.globals s hs)
  sections := rfl
  contributions := parseTable_contributionBytes
  modules := rfl
  moduleStream i m hm := by
    obtain ⟨stream, s, hopen, hnew, hparts⟩ := exists_moduleStream (serves_module h.fits hm)
    refine ⟨s, ?_, hparts⟩
    have hmodule : (p.opened options types items globals).modules[i]? = some (moduleDescriptor i m) :=
      moduleDescriptors_getElem? hm
    have hopen' : (p.opened options types items globals).container.openStream (firstModuleStream + i)
        = .ok stream := hopen
    have hnumber : (moduleDescriptor i m).stream? = some (firstModuleStream + i) := rfl
    simp only [Database.moduleStream, hmodule, hnumber, hopen', hnew, Except.mapError, bind, Except.bind]
    rfl

/-- A database that has been written from a plan is opened, and it has what the plan has. -/
theorem exists_holds (h : p.Encodable) (hlisted : p.globals.Listed) (hheader : p.globals.header = [])
    (hsections : ∀ s ∈ p.sections, s.rawName.length = 8) (options : OpenOptions) : ∃ image d,
      p.encode = some image ∧ Database.parse image.toArray options = .ok d ∧ d.Holds p := by
  obtain ⟨image, hencode, himage⟩ := parse_image h.fits
  obtain ⟨types, items, globals, hparse, htypes, hitems, hglobals⟩ :=
    parse_opened h hsections himage options
  exact ⟨image, _, hencode, hparse, holds_opened h hlisted hheader options htypes hitems hglobals⟩

end DatabasePlan
end Pdb
