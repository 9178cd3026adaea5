import Pdb.Container
import Pdb.Leaf
import Pdb.TypeIndex

/-! # Faults

Why something in a program database cannot be read. `Fault.message` is the wording, and `Fault.kind`
tells apart what a caller may want to handle. -/

namespace Pdb

/-- The two streams of type records: the types proper, and the items that refer to them. -/
inductive TypeStreamKind
  | types | items
  deriving DecidableEq, Repr, Inhabited

def TypeStreamKind.name : TypeStreamKind → String
  | .types => "TPI"
  | .items => "IPI"

inductive Fault
  /-- A record or a table ends too early or has an impossible value. -/
  | malformed
  | stream (f : StreamFault)
  | container (f : ContainerFault)
  | namedStreamCount (names present : Nat)
  | namesSignature (n : Nat)
  | namesVersion (n : Nat)
  | nameOffset (offset : Nat)
  | substreamNegative (field : String)
  | substreamTooLong (field : String)
  | contributionSize (n : Nat)
  | contributionVersion (n : Nat)
  | optionalHeaderSize (n : Nat)
  | sectionHeaderSize (n : Nat)
  | typeHeader (kind : TypeStreamKind) (f : StreamFault)
  | typeRangeReversed (kind : TypeStreamKind)
  | typeRangeTooLow (first : TypeIndex)
  | typeHeaderSize (kind : TypeStreamKind)
  | typeRecordBytes (kind : TypeStreamKind)
  | typeRecordsTooLong (kind : TypeStreamKind)
  | primitiveType
  | noTypeStream (kind : TypeStreamKind) (type : TypeIndex)
  | typeOutOfBounds (type : TypeIndex)
  | typeUndecodable (type : TypeIndex)
  | typeMalformed (leaf : Leaf) (type : TypeIndex)
  | noGlobals (offset : Nat)
  | globalUndecodable (offset : Nat)
  | moduleSizes (module total length : Nat)
  | symbolOutOfRange (offset : Nat)
  | symbolUndecodable (offset : Nat)
  | checksumUndecodable
  | fileOutOfRange
  | noChecksums
  | tooManyModules
  | noSuchModule (module : Nat)
  /-- A sum of offsets does not fit into a word. This is a panic, and no error that a caller could
  handle. -/
  | overflow
  deriving DecidableEq, Repr

namespace Fault

def message : Fault → String
  | .malformed => "CodeView record is malformed"
  | .stream f => f.message
  | .container f => f.message
  | .namedStreamCount names present =>
    s!"The PDBI name table contains inconsistent values.  Name count is {names}, but present bitmap count is {present}."
  | .namesSignature n => s!"The `/names` stream has an invalid signature: 0x{Text.hex 8 n}."
  | .namesVersion n => s!"The `/names` stream is using an unsupported version: {n}."
  | .nameOffset offset => s!"String offset NameIndex({offset}) is invalid (out of range)"
  | .substreamNegative field =>
    s!"Substream {field} length in DBI header is invalid (is negative)"
  | .substreamTooLong field =>
    s!"Substream {field} length in DBI header is invalid. It extends beyond the end of the stream."
  | .contributionSize n =>
    s!"The Section Contributions stream has an invalid size. It is not a multiple of the section contribution record size.  Size: 0x{Text.hex 1 n}"
  | .contributionVersion n =>
    s!"The Section Contributions Substream has a version number that is not supported. Version: 0x{Text.hex 8 n}"
  | .optionalHeaderSize n =>
    s!"The OptionalDebugHeader has an invalid size. The size is required to be a multiple of 2. Size: {n}"
  | .sectionHeaderSize n =>
    s!"The section header stream has an invalid size. It is not a multiple of 40. Size: {n}"
  | .typeHeader kind f => s!"{kind.name} stream is too small for its header: {f.message}"
  | .typeRangeReversed kind =>
    s!"Type stream ({kind.name}) has invalid values in header.  The type_index_begin field is greater than the type_index_end field."
  | .typeRangeTooLow first =>
    s!"The Type Stream has an invalid value for type_index_begin ({first.text}). It is less than the minimum required value ({TypeIndex.minBegin.toNat})."
  | .typeHeaderSize kind =>
    s!"Type stream ({kind.name}) has invalid values in header.  The header_size field is smaller than the definition of the actual header."
  | .typeRecordBytes kind => s!"Type stream ({kind.name}) has an invalid type_record_bytes field."
  | .typeRecordsTooLong kind =>
    s!"Type stream ({kind.name}) has invalid values in header.  The header_size and type_record_bytes fields exceed the size of the stream."
  | .primitiveType => "The given TypeIndex is a primitive type index, not a type record."
  | .noTypeStream kind type => s!"The {kind.name} stream is empty; {type.text} does not exist"
  | .typeOutOfBounds type =>
    s!"The given TypeIndex {type.text} is out of bounds (exceeds maximum allowed TypeIndex)"
  | .typeUndecodable type => s!"Failed to decode type record {type.text}"
  | .typeMalformed leaf type =>
    s!"Failed to decode {leaf.name} record {type.text}: CodeView record is malformed"
  | .noGlobals offset =>
    s!"Invalid record offset into GSS: {offset}. The PDB has no global symbols."
  | .globalUndecodable offset =>
    s!"Invalid record offset into GSS: {offset}. Failed to decode symbol data at that offset."
  | .moduleSizes module total length =>
    s!"Module {module} has substream sizes that exceed the size of its stream ({total} > {length})"
  | .symbolOutOfRange offset => s!"Symbol offset {offset} is out of range for this module"
  | .symbolUndecodable offset => s!"Failed to decode the symbol record at offset {offset}"
  | .checksumUndecodable => "failed to decode FileChecksum record"
  | .fileOutOfRange => "file index is out of range of file checksums subsection"
  | .noChecksums =>
    "This C13 Line Data substream contains LINES subsections, but does not contain a FILE_CHECKSUMS subsection."
  | .tooManyModules => "The DBI stream has too many modules"
  | .noSuchModule module => s!"Module index {module} is out of range"
  | .overflow => "attempt to add with overflow"

/-- The kinds of faults that are told apart. -/
inductive Kind
  | malformed | tooShort | missingPage | other
  deriving DecidableEq, Repr

def kind : Fault → Kind
  | .malformed => .malformed
  | .typeMalformed _ _ => .malformed
  | .stream (.tooShort ..) => .tooShort
  | .stream (.missingPage _) => .missingPage
  | .typeHeader _ (.tooShort ..) => .tooShort
  | .typeHeader _ (.missingPage _) => .missingPage
  | _ => .other

/-- A value that a decoder did or did not find. -/
def orMalformed {α : Type} : Option α → Except Fault α
  | some x => return x
  | none => throw .malformed

end Fault
end Pdb
