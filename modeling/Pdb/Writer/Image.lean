import Pdb.Container

/-! # Writing containers

An `ImagePlan` lists the streams of a container that is to be written. Pages are dealt out in order
from page 3 on, past the pages of the free page maps: first to the streams, then to the directory,
and the last one to the map of the directory. A scattered stream has a gap behind each of its pages.
-/

namespace Pdb

/-- A stream that is to be written; an absent one has no contents. -/
structure PlannedStream where
  contents? : Option Bytes
  isScattered : Bool := false
  deriving DecidableEq, Repr

namespace PlannedStream

def absent : PlannedStream := { contents? := none }

def bytes (s : PlannedStream) : Bytes := s.contents?.getD []

/-- The length of the stream as the directory has it. -/
def length (s : PlannedStream) : Nat :=
  match s.contents? with
  | some bs => bs.length
  | none => PageSize.nilLength

end PlannedStream

/-- The streams of a container, by number. -/
structure ImagePlan where
  pageSize : PageSize
  streams : List PlannedStream
  deriving DecidableEq, Repr

namespace ImagePlan

/-- A container with the empty stream 0. -/
def new (pageSize : PageSize) : ImagePlan := ⟨pageSize, [{ contents? := some [] }]⟩

def add (p : ImagePlan) (s : PlannedStream) : ImagePlan := { p with streams := p.streams ++ [s] }

/-! ### Pages -/

/-- The first page from `page` on that is not special. -/
def nextFree (size : PageSize) (page : Nat) : Nat :=
  if size.isSpecial page then
    if size.isSpecial (page + 1) then page + 2 else page + 1
  else page

/-- Deals out `n` pages from `page` on. The second part of the result is where to go on. -/
def deal (size : PageSize) : (n page : Nat) → List Nat × Nat
  | 0, page => ([], page)
  | n + 1, page =>
    let free := nextFree size page
    let (more, next) := deal size n (free + 1)
    (free :: more, next)

/-- The first, the third, the fifth and so on. -/
def everyOther {α : Type} : List α → List α
  | [] => []
  | [a] => [a]
  | a :: _ :: r => a :: everyOther r

/-- The pages of a stream, from `page` on, and where to go on. -/
def place (size : PageSize) (s : PlannedStream) (page : Nat) : List Nat × Nat :=
  let n := size.pagesHolding s.bytes.length
  if s.isScattered then
    let (pages, next) := deal size (2 * n) page
    (everyOther pages, next)
  else deal size n page

/-- The pages of all streams, and where to go on. -/
def placeAll (size : PageSize) : (page : Nat) → List PlannedStream → List (List Nat) × Nat
  | page, [] => ([], page)
  | page, s :: ss =>
    let (pages, next) := place size s page
    let (more, next) := placeAll size next ss
    (pages :: more, next)

/-- Cuts bytes into `n` pieces of the size of a page. The last one may be shorter. -/
def pieces (size : PageSize) : (n : Nat) → Bytes → List Bytes
  | 0, _ => []
  | n + 1, bs => bs.take size.bytes :: pieces size n (bs.drop size.bytes)

/-- Bytes with the pages that they are put on. -/
def spread (size : PageSize) (pages : List Nat) (bs : Bytes) : List (Nat × Bytes) :=
  pages.zip (pieces size pages.length bs)

/-! ### The image -/

def words (ns : List Nat) : Bytes := ns.flatMap (Bytes.leBytes 4)

/-- The directory: the number of streams, their lengths and their pages. -/
def directory (streams : List PlannedStream) (pages : List (List Nat)) : Bytes :=
  words (streams.length :: streams.map PlannedStream.length ++ pages.flatten)

def header (size : PageSize) (pageCount directoryLength mapPage : Nat) : Bytes :=
  Container.magic ++ words [size.bytes, 1, pageCount, directoryLength, 0, mapPage]

/-- A page with its bytes, and with zeros behind them. -/
def page (size : PageSize) (used : List (Nat × Bytes)) (i : Nat) : Bytes :=
  let bs := (used.lookup i).getD []
  bs ++ Bytes.zeros (size.bytes - bs.length)

/-- The bytes of the container. There are none if the map of the directory does not fit on a page.
-/
def encode (p : ImagePlan) : Option Bytes :=
  let size := p.pageSize
  let (pages, next) := placeAll size 3 p.streams
  let directory := directory p.streams pages
  let (directoryPages, next) := deal size (size.pagesHolding directory.length) next
  let mapPage := nextFree size next
  if size.bytes < 4 * directoryPages.length then none
  else
    let used := (0, header size (mapPage + 1) directory.length mapPage)
      :: (mapPage, words directoryPages)
      :: spread size directoryPages directory
      ++ (pages.zip p.streams).flatMap fun (pages, s) => spread size pages s.bytes
    some ((List.range (mapPage + 1)).flatMap (page size used))

end ImagePlan
end Pdb
