import Pdb.Nesting
import Pdb.StreamIndex
import Pdb.TypeStream

/-! # Writing type streams

A `TypeList` has the records of a type stream that is to be written. Each new record gets the next
type index. Payloads are padded to a multiple of four. -/

namespace Pdb

/-- Padding behind `n` bytes up to a multiple of four. Each byte of it tells how many are left. -/
def countdownPadding (n : Nat) : Bytes :=
  (List.range (Bytes.padTo4 n)).reverse.map fun i => UInt8.ofNat (0xf1 + i)

/-- The bytes of a member list, with padding behind each member. -/
def Member.encodeList (ms : List Member) : Bytes :=
  ms.flatMap fun m => m.encode ++ countdownPadding m.encode.length

structure TypeList where
  records : List RawRecord := []
  /-- The member lists with nested types. -/
  nesting : List TypeIndex := []
  deriving Repr

namespace TypeList

def next (t : TypeList) : TypeIndex := .ofNat (TypeIndex.minBegin.toNat + t.records.length)

def addPayload (t : TypeList) (kind : Leaf) (payload : Bytes) : TypeIndex × TypeList :=
  let record := ⟨kind.code, payload ++ countdownPadding payload.length⟩
  (t.next, { t with records := t.records ++ [record] })

def add (t : TypeList) (kind : Leaf) (r : TypeRecord) : TypeIndex × TypeList :=
  t.addPayload kind r.encode

def addFields (t : TypeList) (ms : List Member) : TypeIndex × TypeList :=
  let (ti, t) := t.add .fieldList (.fieldList (Member.encodeList ms))
  (ti, if ms.any (·.nested?.isSome) then { t with nesting := ti :: t.nesting } else t)

/-- The properties of a tag record: whether its members have nested types, whether it is a forward
reference, and whether it has a unique name. -/
def properties (t : TypeList) (fields : TypeIndex) (isForward : Bool) (unique? : Option Bytes) :
    Properties :=
  ⟨UInt16.ofNat ((decide (fields ∈ t.nesting)).toNat * 2 ^ 4 + isForward.toNat * 2 ^ 7
    + unique?.isSome.toNat * 2 ^ 9)⟩

/-- Adds a class, a structure or an interface. -/
def addClass (t : TypeList) (kind : Leaf) (name : Bytes) (unique? : Option Bytes)
    (fields : TypeIndex) (size : Nat) (isForward : Bool) : TypeIndex × TypeList :=
  t.add kind <| .class_ {
    count := 0, properties := t.properties fields isForward unique?, fieldList := fields
    derived := .none, vtableShape := .none, length := .ofNat size, name, uniqueName := unique? }

def addUnion (t : TypeList) (name : Bytes) (unique? : Option Bytes) (fields : TypeIndex)
    (size : Nat) (isForward : Bool) : TypeIndex × TypeList :=
  t.add .union <| .union {
    count := 0, properties := t.properties fields isForward unique?, fieldList := fields
    length := .ofNat size, name, uniqueName := unique? }

def addEnum (t : TypeList) (name : Bytes) (unique? : Option Bytes) (underlying fields : TypeIndex)
    (isForward : Bool) : TypeIndex × TypeList :=
  t.add .enum <| .enum {
    count := 0, properties := t.properties fields isForward unique?, underlying, fieldList := fields
    name, uniqueName := unique? }

/-- Adds a pointer with the given attributes. -/
def addPointer (t : TypeList) (pointee : TypeIndex) (attributes : UInt32) (variant : Bytes) :
    TypeIndex × TypeList :=
  t.add .pointer (.pointer { pointee, attributes, variant })

/-- The attributes of a 64-bit pointer with a mode and a size. -/
def pointerAttributes (mode size : UInt32) : UInt32 :=
  (0x0c : UInt32) ||| mode <<< (5 : UInt32) ||| size <<< (13 : UInt32)

/-- Adds a pointer to a data member or to a function of a class. -/
def addMemberPointer (t : TypeList) (pointee class_ : TypeIndex) (isData : Bool) :
    TypeIndex × TypeList :=
  t.addPointer pointee (pointerAttributes (if isData then 2 else 3) 8) (class_.encode ++ [0, 0])

def addModifier (t : TypeList) (type : TypeIndex) (isConst isVolatile : Bool) :
    TypeIndex × TypeList :=
  t.add .modifier <| .modifier {
    modified := type, attributes := UInt16.ofNat (isConst.toNat + 2 * isVolatile.toNat) }

/-- Adds an array; its size is in bytes. -/
def addArray (t : TypeList) (element : TypeIndex) (size : Nat) : TypeIndex × TypeList :=
  t.add .array (.array { element, index := .uint64, length := .ofNat size, name := [] })

/-- Adds an argument list and a function type with it. -/
def addProcedure (t : TypeList) (result : TypeIndex) (call : UInt8) (args : List TypeIndex) :
    TypeIndex × TypeList :=
  let (list, t) := t.add .argList (.argList args)
  t.add .procedure <| .procedure {
    result, call, reserved := 0, paramCount := UInt16.ofNat args.length, args := list }

/-- Adds an argument list and the type of a member function with it. -/
def addMemberFunction (t : TypeList) (result class_ this : TypeIndex) (call : UInt8)
    (args : List TypeIndex) : TypeIndex × TypeList :=
  let (list, t) := t.add .argList (.argList args)
  t.add .memberFunction <| .memberFunction {
    result, class_, this, call, reserved := 0, paramCount := UInt16.ofNat args.length, args := list
    thisAdjust := 0 }

/-- A function of an overload set; one that introduces a virtual function is at the start of the
vtable. -/
def method (attr : MemberAttributes) (type : TypeIndex) : MethodEntry :=
  { attr, type, vtableOffset := if attr.hasVtableOffset then some 0 else none }

def addMethods (t : TypeList) (ms : List MethodEntry) : TypeIndex × TypeList :=
  t.add .methodList (.methodList (ms.flatMap MethodEntry.encode))

/-- The header of a type stream behind the extent of the records. There are no hash tables. -/
def hashHeader : Bytes :=
  StreamIndex.nil.encode ++ StreamIndex.nil.encode ++ Bytes.ofU32 4 ++ Bytes.zeros 28

def recordBytes (t : TypeList) : Bytes := t.records.flatMap RawRecord.encode

def encode (t : TypeList) : Bytes :=
  let header : TypeStreamHeader := {
    version := TypeStreamHeader.currentVersion
    headerBytes := UInt32.ofNat TypeStreamHeader.length
    first := .minBegin, last := t.next, recordBytes := UInt32.ofNat t.recordBytes.length }
  header.encode ++ hashHeader ++ t.recordBytes

end TypeList
end Pdb
