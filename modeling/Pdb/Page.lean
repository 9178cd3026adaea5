import Pdb.Bytes

/-! # Pages

A container file is cut into pages, whose size is a power of two. Page 0 holds the header, and pages
1 and 2 of every interval hold the two free page maps; an interval has as many pages as a page has
bytes. `Claims` keeps account of the pages that are taken. -/

namespace Pdb

/-- The size of the pages of a file, `2 ^ exponent` bytes. -/
structure PageSize where
  exponent : Nat
  deriving DecidableEq, Repr, Inhabited

namespace PageSize

def bytes (s : PageSize) : Nat := 2 ^ s.exponent

theorem bytes_pos (s : PageSize) : 0 < s.bytes := Nat.two_pow_pos _

/-- The page size of `n` bytes, if `n` is a power of two. -/
def ofNat? (n : Nat) : Option PageSize :=
  if 2 ^ n.log2 = n then some ⟨n.log2⟩ else none

/-- The smallest and the largest page size of a container. -/
def smallest : PageSize := ⟨9⟩
def largest : PageSize := ⟨16⟩

/-- The length that marks a stream as absent. -/
def nilLength : Nat := 0xffffffff

/-- The number of pages that hold `len` bytes. -/
def pagesHolding (s : PageSize) (len : Nat) : Nat := (len + s.bytes - 1) / s.bytes

/-- The number of pages of a stream by its length. An absent stream has none. -/
def pagesFor (s : PageSize) (len : Nat) : Nat :=
  if len = nilLength then 0 else s.pagesHolding len

def pageStart (s : PageSize) (page : Nat) : Nat := page * s.bytes

def offsetInPage (s : PageSize) (offset : Nat) : Nat := offset % s.bytes

/-- A page of one of the free page maps. -/
def isFreeMapPage (s : PageSize) (page : Nat) : Bool :=
  page % s.bytes = 1 ∨ page % s.bytes = 2

/-- The header page and the pages of the free page maps. No stream should have one. -/
def isSpecial (s : PageSize) (page : Nat) : Bool := page = 0 ∨ s.isFreeMapPage page

end PageSize

/-! ### Claims -/

inductive ClaimFault
  | special (page : Nat)
  | outOfRange (page : Nat)
  | claimedTwice (page : Nat)
  | streamPageZero (stream : Nat)
  | streamPageOutOfRange (stream page : Nat)
  deriving DecidableEq, Repr

def ClaimFault.message : ClaimFault → String
  | .special p =>
    s!"Stream dir contains invalid page number: {p}. Page points to Page 0 or to an FPM page."
  | .outOfRange p => s!"Page {p} is invalid; it is out of range (exceeds num_pages)"
  | .claimedTwice p => s!"Page {p} is used more than once in the Stream Directory."
  | .streamPageZero s => s!"Stream {s} contains a pointer to Page 0, which is invalid."
  | .streamPageOutOfRange s p =>
    s!"Stream {s} contains page {p}, which is out of range (exceeds num_pages)"

/-- The pages of a file that are taken: the special ones, and those that have been claimed. -/
structure Claims where
  pageSize : PageSize
  pageCount : Nat
  claimed : List Nat
  deriving Repr

namespace Claims

/-- The claims on a file of `pageCount` pages before anything is read. -/
def start (pageSize : PageSize) (pageCount : Nat) : Claims := ⟨pageSize, pageCount, []⟩

def isBusy (c : Claims) (page : Nat) : Bool :=
  page < c.pageCount ∧ (c.pageSize.isSpecial page ∨ page ∈ c.claimed)

/-- Claims a page for the stream directory: the page must not be taken. -/
def claimDirectoryPage (c : Claims) (page : Nat) : Except ClaimFault Claims :=
  if c.pageSize.isSpecial page then throw (.special page)
  else if c.pageCount ≤ page then throw (.outOfRange page)
  else if c.isBusy page then throw (.claimedTwice page)
  else return { c with claimed := page :: c.claimed }

/-- Claims a page for a stream. Linkers put streams on pages of the free page maps and let streams
share pages, so a taken page is accepted. -/
def claimStreamPage (c : Claims) (stream page : Nat) : Except ClaimFault Claims :=
  if page = 0 then throw (.streamPageZero stream)
  else if c.pageCount ≤ page then throw (.streamPageOutOfRange stream page)
  else return { c with claimed := page :: c.claimed }

end Claims
end Pdb
