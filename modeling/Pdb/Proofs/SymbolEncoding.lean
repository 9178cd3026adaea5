import Pdb.Proofs.NumericLeaf
import Pdb.Symbol

/-! # Symbols that have been written

Each layout of a symbol is read from what has been written for it, whatever stands behind it. A symbol
is `Symbol.Writable` with a kind if its layout is the one of the kind and its name has no NUL; then the
decoder of the kind reads it (`Writable.reads_decode`), and in a record its padding is ignored
(`Writable.symbol?_eq`).
-/

namespace Pdb
open Decoder

theorem SectionOffset.reads_decode (a : SectionOffset) : Reads decode a.encode a :=
  (reads_u32 a.offset).bind <| (reads_u16 a.segment).bind_last <| .pure a

theorem ToolVersion.reads_decode (v : ToolVersion) : Reads decode v.encode v := by
  simp only [encode, List.append_assoc]
  exact (reads_u16 v.major).bind <| (reads_u16 v.minor).bind <| (reads_u16 v.build).bind <|
    (reads_u16 v.qfe).bind_last <| .pure v

namespace Symbol

/-- A symbol that can be written with a kind. -/
inductive Writable : SymbolKind → Symbol → Prop
  | objectName {name} (signature) (hname : 0 ∉ name) :
    Writable .objectName (.objectName signature name)
  | compile {c} (hname : 0 ∉ c.name) : Writable .compile3 (.compile c)
  | proc {kind p} (hkind : kind.isProc) (hname : 0 ∉ p.name) : Writable kind (.proc p)
  | udt {name} (type) (hname : 0 ∉ name) : Writable .udt (.udt type name)
  | constant {value name} (type) (hvalue : value.WellFormed) (hname : 0 ∉ name) :
    Writable .constant (.constant type value name)
  | reference {kind name} (checksum offset module)
    (hkind : kind ∈ [.procRef, .localProcRef, .dataRef]) (hname : 0 ∉ name) :
    Writable kind (.reference checksum offset module name)
  | data {kind name} (type address) (hkind : kind ∈ [.localData32, .globalData32])
    (hname : 0 ∉ name) : Writable kind (.data type address name)
  | threadData {kind name} (type address) (hkind : kind ∈ [.localThread32, .globalThread32])
    (hname : 0 ∉ name) : Writable kind (.threadData type address name)
  | public_ {name} (flags address) (hname : 0 ∉ name) :
    Writable .public32 (.public_ flags address name)
  | buildInfo (item) : Writable .buildInfo (.buildInfo item)
  | end_ {kind} (hkind : kind ∈ [.end_, .procIdEnd]) : Writable kind .end_

variable {kind : SymbolKind} {symbol : Symbol} {name : Bytes}

theorem reads_decodeObjectName (signature : UInt32) (hname : 0 ∉ name) :
    Reads decodeObjectName (objectName signature name).encode (objectName signature name) :=
  (reads_u32 signature).bind <| (reads_text hname).bind_last <| .pure _

theorem reads_decodeCompile {c : CompileSymbol} (hname : 0 ∉ c.name) :
    Reads decodeCompile (compile c).encode (compile c) := by
  simp only [encode, List.append_assoc]
  exact (reads_u32 c.flags).bind <| (reads_u16 c.machine).bind <| c.frontend.reads_decode.bind <|
    c.version.reads_decode.bind <| (reads_text hname).bind_last <| .pure _

theorem reads_decodeProc {p : ProcSymbol} (hname : 0 ∉ p.name) :
    Reads decodeProc (proc p).encode (proc p) := by
  have hflags : Reads u8 [p.flags] p.flags := by
    intro r
    show some (UInt8.ofNat (p.flags.toNat + 256 * 0), r) = _
    rw [Nat.mul_zero, Nat.add_zero, UInt8.ofNat_toNat]
  simp only [encode, List.append_assoc]
  refine (reads_u32 p.parent).bind <| (reads_u32 p.end_).bind <| (reads_u32 p.next).bind <|
    (reads_u32 p.length).bind <| (reads_u32 p.debugStart).bind <| (reads_u32 p.debugEnd).bind ?_
  exact p.type.reads_decode.bind <| p.address.reads_decode.bind <| hflags.bind <|
    (reads_text hname).bind_last <| .pure _

theorem reads_decodeUdt (type : TypeIndex) (hname : 0 ∉ name) :
    Reads decodeUdt (udt type name).encode (udt type name) :=
  type.reads_decode.bind <| (reads_text hname).bind_last <| .pure _

theorem reads_decodeConstant (type : TypeIndex) {value : Numeric} (hvalue : value.WellFormed)
    (hname : 0 ∉ name) :
    Reads decodeConstant (constant type value name).encode (constant type value name) := by
  simp only [encode, List.append_assoc]
  exact type.reads_decode.bind <| (Numeric.reads_decode hvalue).bind <|
    (reads_text hname).bind_last <| .pure _

theorem reads_decodeReference (checksum offset : UInt32) (module : UInt16) (hname : 0 ∉ name) :
    Reads decodeReference (reference checksum offset module name).encode
      (reference checksum offset module name) := by
  simp only [encode, List.append_assoc]
  exact (reads_u32 checksum).bind <| (reads_u32 offset).bind <| (reads_u16 module).bind <|
    (reads_text hname).bind_last <| .pure _

/-- A variable, whether each thread has its own or not. -/
theorem reads_decodeVariable {make : TypeIndex → SectionOffset → Bytes → Symbol} (type : TypeIndex)
    (address : SectionOffset) (hname : 0 ∉ name)
    (hmake : (make type address name).encode = type.encode ++ address.encode ++ Bytes.ofText name) :
    Reads (decodeVariable make) (make type address name).encode (make type address name) := by
  rw [hmake, List.append_assoc]
  exact type.reads_decode.bind <| address.reads_decode.bind <| (reads_text hname).bind_last <| .pure _

theorem reads_decodePublic (flags : UInt32) (address : SectionOffset) (hname : 0 ∉ name) :
    Reads decodePublic (public_ flags address name).encode (public_ flags address name) := by
  simp only [encode, List.append_assoc]
  exact (reads_u32 flags).bind <| address.reads_decode.bind <| (reads_text hname).bind_last <| .pure _

theorem decode_of_isProc (h : kind.isProc) : decode kind = decodeProc := by
  unfold SymbolKind.isProc at h
  split at h <;> first | rfl | exact absurd h Bool.false_ne_true

namespace Writable

theorem reads_decode (h : Writable kind symbol) : Reads (decode kind) symbol.encode symbol := by
  cases h with
  | objectName signature hname => exact reads_decodeObjectName signature hname
  | compile hname => exact reads_decodeCompile hname
  | proc hkind hname =>
    rw [decode_of_isProc hkind]
    exact reads_decodeProc hname
  | udt type hname => exact reads_decodeUdt type hname
  | constant type hvalue hname => exact reads_decodeConstant type hvalue hname
  | reference checksum offset module hkind hname =>
    simp only [List.mem_cons, List.not_mem_nil, or_false] at hkind
    rcases hkind with rfl | rfl | rfl <;> exact reads_decodeReference checksum offset module hname
  | data type address hkind hname =>
    simp only [List.mem_cons, List.not_mem_nil, or_false] at hkind
    rcases hkind with rfl | rfl <;> exact reads_decodeVariable type address hname rfl
  | threadData type address hkind hname =>
    simp only [List.mem_cons, List.not_mem_nil, or_false] at hkind
    rcases hkind with rfl | rfl <;> exact reads_decodeVariable type address hname rfl
  | public_ flags address hname => exact reads_decodePublic flags address hname
  | buildInfo item => exact (reads_u32 item).map Symbol.buildInfo
  | end_ hkind =>
    simp only [List.mem_cons, List.not_mem_nil, or_false] at hkind
    rcases hkind with rfl | rfl <;> exact .pure Symbol.end_

/-- A symbol is read whatever its payload ends with. -/
theorem symbol?_eq {r : RawRecord} (h : Writable r.symbolKind symbol) {padding : Bytes}
    (hdata : r.data = symbol.encode ++ padding) : r.symbol? = some symbol := by
  rw [RawRecord.symbol?, parse?, hdata, h.reads_decode, Option.map_some]

end Writable
end Symbol
end Pdb
