import Pdb.PagedStream

/-! # The container

A container file holds numbered streams. Its first page begins with a header; the header leads to
the page map of the stream directory, the map to the pages of the directory, and the directory to
the pages of the streams. Stream 0 is the place of an older directory and is never read. -/

namespace Pdb

/-- Why a file is no container, or a stream of one cannot be opened. -/
inductive ContainerFault
  | smallContainer
  | portable
  | magic
  | tooSmall
  | activeMap
  | pageSizeShape (n : Nat)
  | pageSizeRange (n : Nat)
  | noPages
  | directorySize
  | directoryEmpty
  | directoryTooLarge
  | page (n : Nat)
  | claim (f : ClaimFault)
  | noStreams
  | streamCount
  | streamSize (stream size : Nat)
  | streamPage (stream page pageCount : Nat)
  | noSuchStream (stream : Nat)
  | nilStream (stream : Nat)
  | mapping (f : MappingFault)
  deriving DecidableEq, Repr

def ContainerFault.message : ContainerFault → String
  | .smallContainer =>
    "This PDB file uses the obsolete 'Small MSF' encoding, which is not supported."
  | .portable => "This file is a Portable PDB, which is not supported."
  | .magic => "PDB file does not have the correct header (magic is wrong)."
  | .tooSmall => "The PDB header is invalid. The file is too small."
  | .activeMap => "The PDB header is invalid. The active FPM is invalid."
  | .pageSizeShape n => s!"The PDB header is invalid. The page size ({n}) is not a power of 2."
  | .pageSizeRange n => s!"The PDB header is invalid. The page size ({n}) is out of range."
  | .noPages => "PDB specifies invalid value for num_pages (zero)."
  | .directorySize => "MSF Stream Directory has an invalid size; it is not a multiple of 4."
  | .directoryEmpty => "Stream directory is invalid (zero-length)"
  | .directoryTooLarge => "Stream dir size is invalid (exceeds design limits)"
  | .page n => s!"Page {n} is beyond the end of the file"
  | .claim f => f.message
  | .noStreams => "MSF file is invalid, because num_streams = 0."
  | .streamCount => "Stream directory is invalid (num_streams is not consistent with size)"
  | .streamSize stream size =>
    s!"Stream directory is invalid.  Stream {stream} has size {size}, which exceeds the size of the stream directory."
  | .streamPage stream n pageCount =>
    s!"Stream {stream} contains page {n}, which exceeds num_pages ({pageCount})"
  | .noSuchStream stream => s!"Stream index {stream} is out of range"
  | .nilStream stream => s!"Stream {stream} is a nil stream"
  | .mapping f => f.message

structure StreamEntry where
  length : Nat
  pages : List Nat
  deriving DecidableEq, Repr, Inhabited

/-- The stream has a place in the directory and nothing else. -/
def StreamEntry.isNil (e : StreamEntry) : Bool := e.length = PageSize.nilLength

structure Container where
  image : Array UInt8
  pageSize : PageSize
  /-- The number of the free page map in use, 1 or 2. -/
  activeMap : Nat
  pageCount : Nat
  streams : List StreamEntry

namespace Container

def magic : Bytes := Text.utf8 "Microsoft C/C++ MSF 7.00\r\n" ++ [0x1a, 0x44, 0x53, 0, 0, 0]

/-- The first bytes of a file in an older form. -/
def smallMagic : Bytes :=
  Text.utf8 "Microsoft C/C++ program database 2.00\r\n" ++ [0x1a, 0x4a, 0x47, 0, 0]

/-- What a portable file has at offset 16. -/
def portableMark : Bytes := Text.utf8 "PDB v1.0"

def headerLength : Nat := 52

/-- The bytes of the image between two offsets, or fewer at its end. -/
def piece (image : Array UInt8) (start size : Nat) : Bytes :=
  (image.extract start (start + size)).toList

def wordAt (image : Array UInt8) (offset : Nat) : Nat := Bytes.leNat (piece image offset 4)

/-- The words of a byte string; a rest of less than four bytes is left out. -/
def words (bs : Bytes) : List Nat :=
  ((Decoder.u32s (bs.length / 4) bs).map fun r => r.1.map UInt32.toNat).getD []

def pageBytes (image : Array UInt8) (size : PageSize) (page : Nat) : Except ContainerFault Bytes :=
  match PagedStream.slice? image (size.pageStart page) size.bytes with
  | some bs => return bs
  | none => throw (.page page)

/-- Claims pages of the directory, in order. -/
def claimAll (c : Claims) : List Nat → Except ContainerFault Claims
  | [] => return c
  | p :: ps => do claimAll (← (c.claimDirectoryPage p).mapError .claim) ps

/-- The pages of the directory, `wanted` in number, which are listed on the pages `map`. -/
def directoryPages (image : Array UInt8) (size : PageSize) :
    (c : Claims) → (map : List Nat) → (wanted : Nat) → Except ContainerFault (List Nat × Claims)
  | c, [], _ => return ([], c)
  | c, p :: ps, wanted => do
    let c ← (c.claimDirectoryPage p).mapError .claim
    let listed := (words (← pageBytes image size p)).take wanted
    let c ← claimAll c listed
    let (more, c) ← directoryPages image size c ps (wanted - listed.length)
    return (listed ++ more, c)

def directoryBytes (image : Array UInt8) (size : PageSize) (pages : List Nat) (length : Nat) :
    Except ContainerFault Bytes := do
  return ((← pages.mapM (pageBytes image size)).flatten).take length

/-- Claims the pages of a stream, in order. -/
def claimStream (pageCount stream : Nat) (c : Claims) : List Nat → Except ContainerFault Claims
  | [] => return c
  | p :: ps => do
    if pageCount ≤ p then throw (.streamPage stream p pageCount)
    claimStream pageCount stream (← (c.claimStreamPage stream p).mapError .claim) ps

/-- Deals out the page numbers of the directory to the streams from number `stream` on. The pages of
stream 0 are not looked at. -/
def dealPages (size : PageSize) (pageCount : Nat) :
    (stream : Nat) → (c : Claims) → (sizes pages : List Nat) →
      Except ContainerFault (List StreamEntry)
  | _, _, [], _ => return []
  | stream, c, length :: sizes, pages => do
    let n := size.pagesFor length
    if pages.length < n then throw (.streamSize stream length)
    let own := pages.take n
    let c ← if stream = 0 then pure c else claimStream pageCount stream c own
    let entry := if stream = 0 then { length := 0, pages := [] } else { length, pages := own }
    return entry :: (← dealPages size pageCount (stream + 1) c sizes (pages.drop n))

/-- The streams that the words of a directory list. -/
def streamEntries (size : PageSize) (pageCount : Nat) (c : Claims) :
    List Nat → Except ContainerFault (List StreamEntry)
  | [] => throw .noStreams
  | count :: directory => do
    if count = 0 then throw .noStreams
    if directory.length < count then throw .streamCount
    dealPages size pageCount 0 c (directory.take count) (directory.drop count)

def headerPageSize (n : Nat) : Except ContainerFault PageSize :=
  match PageSize.ofNat? n with
  | none => throw (.pageSizeShape n)
  | some s =>
    if s.exponent < PageSize.smallest.exponent ∨ PageSize.largest.exponent < s.exponent then
      throw (.pageSizeRange n)
    else return s

def parse (image : Array UInt8) : Except ContainerFault Container := do
  if piece image 0 smallMagic.length = smallMagic then throw .smallContainer
  if piece image 16 8 = portableMark then throw .portable
  if piece image 0 magic.length ≠ magic then throw .magic
  if image.size < headerLength then throw .tooSmall
  let activeMap := wordAt image 36
  let pageCount := wordAt image 40
  let directoryLength := wordAt image 44
  if activeMap ≠ 1 ∧ activeMap ≠ 2 then throw .activeMap
  let size ← headerPageSize (wordAt image 32)
  if pageCount = 0 then throw .noPages
  if directoryLength % 4 ≠ 0 then throw .directorySize
  if directoryLength = 0 then throw .directoryEmpty
  let pages := size.pagesFor directoryLength
  let mapPages := size.pagesFor (4 * pages)
  if min image.size size.bytes < headerLength + 4 * mapPages then throw .directoryTooLarge
  let map := words (piece image headerLength (4 * mapPages))
  let (pages, claims) ← directoryPages image size (.start size pageCount) map pages
  let directory ← directoryBytes image size pages directoryLength
  let streams ← streamEntries size pageCount claims (words directory)
  return { image, pageSize := size, activeMap, pageCount, streams }

/-! ### Streams -/

/-- The length of a stream; one that does not exist or is absent has none. -/
def streamLength (c : Container) (stream : Nat) : Nat :=
  match c.streams[stream]? with
  | some e => if e.isNil then 0 else e.length
  | none => 0

/-- The stream exists and is not absent. -/
def isValid (c : Container) (stream : Nat) : Bool :=
  match c.streams[stream]? with
  | some e => !e.isNil
  | none => false

/-- The directory's entry for a stream that can be read. -/
def entry (c : Container) (stream : Nat) : Except ContainerFault StreamEntry :=
  match c.streams[stream]? with
  | none => throw (.noSuchStream stream)
  | some e => if e.isNil then throw (.nilStream stream) else return e

def openStream (c : Container) (stream : Nat) : Except ContainerFault PagedStream := do
  let e ← c.entry stream
  (PagedStream.new c.image c.pageSize e.pages e.length).mapError .mapping

def openOptional (c : Container) (stream : Nat) : Except ContainerFault (Option PagedStream) :=
  if c.isValid stream then some <$> c.openStream stream else return none

end Container
end Pdb
