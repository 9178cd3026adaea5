import Pdb.Bytes
import Pdb.Page
import Pdb.Text

/-! # Paged streams

A stream is a sequence of bytes that lies on pages anywhere in a file image. A request for bytes on
consecutive pages is answered with a piece of the image; any other request is gathered, run by run.
A `Reader` keeps what it has gathered and counts the bytes it has copied. -/

namespace Pdb

/-- Why bytes of a stream cannot be read. -/
inductive StreamFault
  | tooShort (offset size length : Nat)
  | missingPage (page : Nat)
  deriving DecidableEq, Repr, Inhabited

def StreamFault.message : StreamFault → String
  | .tooShort offset size length =>
    s!"The stream is too small for the request (offset 0x{Text.hex 1 offset}, size 0x{Text.hex 1 size}, stream length 0x{Text.hex 1 length})"
  | .missingPage page => s!"Stream page {page} is beyond the end of the file"

/-- A stream of a file image: the pages it lies on, in order, and its length. -/
structure PagedStream where
  image : Array UInt8
  pageSize : PageSize
  pages : List Nat
  length : Nat
  pages_length : pages.length = pageSize.pagesFor length

/-- Why a page list and a length do not make a stream. -/
inductive MappingFault
  | absent
  | pageCount (length needed given : Nat)
  deriving DecidableEq, Repr

def MappingFault.message : MappingFault → String
  | .absent => "Cannot map a nil stream"
  | .pageCount length needed given =>
    s!"Stream has length {length}, which requires {needed} pages, but {given} pages were provided"

namespace PagedStream

def new (image : Array UInt8) (pageSize : PageSize) (pages : List Nat) (length : Nat) :
    Except MappingFault PagedStream :=
  if length = PageSize.nilLength then throw .absent
  else if h : pages.length = pageSize.pagesFor length then
    return { image, pageSize, pages, length, pages_length := h }
  else throw (.pageCount length (pageSize.pagesFor length) pages.length)

/-- The bytes of the image between two offsets, if the image is that long. -/
def slice? (image : Array UInt8) (start size : Nat) : Option Bytes :=
  if start + size ≤ image.size then some (image.extract start (start + size)).toList else none

/-- How many of the pages follow `page` without a gap. -/
def consecutive : Nat → List Nat → Nat
  | page, p :: ps => if p = page + 1 then 1 + consecutive p ps else 0
  | _, [] => 0

theorem consecutive_le (page : Nat) (ps : List Nat) : consecutive page ps ≤ ps.length := by
  induction ps generalizing page with
  | nil => simp [consecutive]
  | cons p ps ih =>
    rw [consecutive]
    split
    · have := ih p
      simp only [List.length_cons]
      omega
    · omega

/-! ### Runs -/

/-- The offset in the image of the byte at `pos`, and how many of the next `wanted` bytes of the
stream follow it there. -/
def run? (s : PagedStream) (pos wanted : Nat) : Option (Nat × Nat) :=
  let most := min (s.length - pos) wanted
  if most = 0 then none
  else match s.pages.drop (pos / s.pageSize.bytes) with
    | [] => none
    | page :: next =>
      let within := s.pageSize.offsetInPage pos
      some (s.pageSize.pageStart page + within,
        min most ((1 + consecutive page next) * s.pageSize.bytes - within))

theorem run?_bounds {s : PagedStream} {pos wanted at_ n : Nat}
    (h : s.run? pos wanted = some (at_, n)) :
    0 < n ∧ n ≤ wanted := by
  unfold run? at h
  simp only at h
  split at h
  · cases h
  · split at h
    · cases h
    · rename_i page next _
      simp only [Option.some.injEq, Prod.mk.injEq] at h
      obtain ⟨-, rfl⟩ := h
      have hw : s.pageSize.offsetInPage pos < s.pageSize.bytes := Nat.mod_lt _ s.pageSize.bytes_pos
      have hk : s.pageSize.bytes ≤ (1 + consecutive page next) * s.pageSize.bytes :=
        Nat.le_mul_of_pos_left _ (by omega)
      omega

/-- Copies `remaining` bytes from `pos` on, run by run, for a request at `offset`; also the number
of bytes that were copied, which a request that fails has not copied all. -/
def gather (s : PagedStream) (offset pos remaining : Nat) : Except StreamFault Bytes × Nat :=
  if remaining = 0 then (.ok [], 0)
  else match _h : s.run? pos remaining with
    | none => (.error (.tooShort offset remaining s.length), 0)
    | some (at_, n) =>
      match slice? s.image at_ n with
      | none => (.error (.missingPage (at_ / s.pageSize.bytes)), 0)
      | some bs =>
        let tail := gather s offset (pos + n) (remaining - n)
        (tail.1.map (bs ++ ·), n + tail.2)
termination_by remaining
decreasing_by
  have := run?_bounds ‹_›
  omega

/-- Whether a request lies in the stream. The end of a request is a word. -/
def checkBounds (s : PagedStream) (offset size : Nat) : Except StreamFault Unit :=
  if offset + size < 2 ^ 32 ∧ offset + size ≤ s.length then return ()
  else throw (.tooShort offset size s.length)

/-- The piece of the image with the requested bytes, if the pages of a request of at least one byte
are consecutive. -/
def direct? (s : PagedStream) (offset size : Nat) : Option (Except StreamFault Bytes) :=
  let first := offset / s.pageSize.bytes
  let last := (offset + size - 1) / s.pageSize.bytes
  match (s.pages.drop first).take (last - first + 1) with
  | [] => none
  | page :: next =>
    if consecutive page next = next.length then
      match slice? s.image (s.pageSize.pageStart page + s.pageSize.offsetInPage offset) size with
      | some bs => some (.ok bs)
      | none => some (.error (.missingPage page))
    else none

def read (s : PagedStream) (offset size : Nat) : Except StreamFault Bytes := do
  s.checkBounds offset size
  if size = 0 then return []
  match s.direct? offset size with
  | some answer => answer
  | none => (s.gather offset offset size).1

def readToEnd (s : PagedStream) (offset : Nat) : Except StreamFault Bytes :=
  if offset ≤ s.length then s.read offset (s.length - offset)
  else throw (.tooShort offset 0 s.length)

def copy (s : PagedStream) (offset size : Nat) : Except StreamFault Bytes := do
  s.checkBounds offset size
  (s.gather offset offset size).1

end PagedStream

/-! ### Readers -/

/-- A stream with the bytes that have been gathered from it, by offset and size, and the number of
bytes that have been copied out of the image. -/
structure Reader where
  stream : PagedStream
  gathered : List ((Nat × Nat) × Bytes)
  copied : Nat

namespace Reader

def new (stream : PagedStream) : Reader := ⟨stream, [], 0⟩

/-- Answers a request. One that is gathered is kept, and asked for again it is not copied again. -/
def read (r : Reader) (offset size : Nat) : Except StreamFault Bytes × Reader :=
  match r.stream.checkBounds offset size with
  | .error e => (.error e, r)
  | .ok () =>
    if size = 0 then (.ok [], r)
    else match r.stream.direct? offset size with
      | some answer => (answer, r)
      | none =>
        match r.gathered.lookup (offset, size) with
        | some bs => (.ok bs, r)
        | none =>
          let (answer, n) := r.stream.gather offset offset size
          let r := { r with copied := r.copied + n }
          match answer with
          | .error e => (.error e, r)
          | .ok bs => (.ok bs, { r with gathered := ((offset, size), bs) :: r.gathered })

def readToEnd (r : Reader) (offset : Nat) : Except StreamFault Bytes × Reader :=
  if offset ≤ r.stream.length then r.read offset (r.stream.length - offset)
  else (.error (.tooShort offset 0 r.stream.length), r)

/-- Copies bytes into a buffer of the caller's; they are not kept. A buffer whose size is no word is
refused with the greatest word for its size. -/
def copyInto (r : Reader) (offset size : Nat) : Except StreamFault Bytes × Reader :=
  if 2 ^ 32 ≤ size then (.error (.tooShort offset 0xffffffff r.stream.length), r)
  else match r.stream.checkBounds offset size with
    | .error e => (.error e, r)
    | .ok () =>
      let (answer, n) := r.stream.gather offset offset size
      (answer, { r with copied := r.copied + n })

def text (r : Reader) : String :=
  "BlockMappedStream \x7b len: " ++ s!"{r.stream.length}, num_pages: {r.stream.pages.length}, "
    ++ s!"bytes_copied: {r.copied} " ++ "\x7d"

end Reader
end Pdb
