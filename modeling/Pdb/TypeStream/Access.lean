import Pdb.Nesting

/-! # What queries read from a type stream

Records are read when a query needs them. The offsets of the records are found at the first use, and
so is the table of display names; later queries use what is there. `Access` follows queries and
keeps the reader of the stream, which counts the bytes that it has copied. -/

namespace Pdb

/-- What a query looks at. -/
inductive Visit
  | record (ti : TypeIndex)
  | starts
  | names
  deriving DecidableEq, Repr

/-- The reader of a type stream, and what has been set up. -/
structure Access where
  reader : Reader
  scanned : Bool
  named : Bool

namespace Access

/-- The state after the header has been read. -/
def start (stream : PagedStream) : Access :=
  ⟨((Reader.new stream).read 0 TypeStreamHeader.length).2, false, false⟩

/-- Where a scan reads the length of a record. It stops at the first record that is not whole. -/
def scanOffsets (l : RecordList) : List Nat :=
  l.starts.toList
    ++ (if l.starts.size < l.limit ∧ l.behind + 4 ≤ l.stop then [l.behind] else [])

def scan (l : RecordList) (a : Access) : Access :=
  if a.scanned then a
  else
    let reader := (scanOffsets l).foldl (fun r offset => (r.copyInto offset 2).2) a.reader
    { a with reader, scanned := true }

def record (s : TypeStream) (l : RecordList) (a : Access) (ti : TypeIndex) : Access :=
  if s.isPrimitive ti then a
  else
    let a := scan l a
    match l.starts[ti.toNat - s.first.toNat]? with
    | none => a
    | some offset =>
      let (len, reader) := a.reader.copyInto offset 2
      match len with
      | .error _ => { a with reader }
      | .ok len => { a with reader := (reader.read offset (Bytes.leNat len + 2)).2 }

/-- Sets up the table of display names: all records up to the first one that cannot be read. -/
def names (s : TypeStream) (l : RecordList) (a : Access) : Access :=
  if a.named then a
  else
    let a := { a with named := true }
    match s.first? with
    | none => a
    | some _ =>
      let read := s.readable
      let failing :=
        if read.length < s.count then [TypeIndex.ofNat (s.first.toNat + read.length)] else []
      (read ++ failing).foldl (record s l) a

def visit (s : TypeStream) (l : RecordList) (a : Access) : Visit → Access
  | .record ti => record s l a ti
  | .starts => scan l a
  | .names => names s l a

def visits (s : TypeStream) (l : RecordList) (a : Access) (vs : List Visit) : Access :=
  vs.foldl (visit s l) a

end Access

namespace TypeStream

/-- What looking up a definition looks at. -/
def definitionVisits (s : TypeStream) (ti : TypeIndex) : List Visit :=
  .record ti :: match s.forwardRef? ti with
    | none => []
    | some (leaf, f, name) =>
      let others := (s.find name).filter (· ≠ ti)
      let missed := others.takeWhile fun c => !s.defines leaf f c
      .names :: (others.take (missed.length + 1)).map .record

/-- What reading a chain of member lists looks at. -/
def fieldVisits (s : TypeStream) (ti : TypeIndex) : List Visit :=
  if ti = .none then [] else (s.chainIndexes (s.size + 1) ti).map .record

/-- What looking for the integers of a type looks at. -/
def integralVisits (s : TypeStream) : (depth : Nat) → TypeIndex → List Visit
  | 0, _ => []
  | depth + 1, ti =>
    if ti.isSimple then []
    else .record ti :: match s.type? ti with
      | some (.modifier m) => integralVisits s depth m.modified
      | some (.enum e) => integralVisits s depth e.underlying
      | _ => []

/-- What one member adds to the search for nested records. -/
def nestedVisits (s : TypeStream) (parent : Bytes) (m : Member) : List Visit :=
  match m.nested? with
  | none => []
  | some (ti, _) =>
    if ti.isSimple then []
    else .record ti :: match s.nestedIn? parent m with
      | some (ti, t) => if t.isForwardRef then s.definitionVisits ti else []
      | none => []

/-- What the search for nested records looks at. -/
def nestingVisits (s : TypeStream) : List Visit :=
  if s.first?.isNone then []
  else .starts :: s.indexes.flatMap fun ti =>
    .record ti :: match s.nester? ti with
      | none => []
      | some (unique, list) => s.fieldVisits list ++ ((s.fields? list).getD []).flatMap (s.nestedVisits unique)

end TypeStream
end Pdb
