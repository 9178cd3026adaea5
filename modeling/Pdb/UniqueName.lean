import Pdb.Text

/-! # Unique names of classes, unions and enumerations

The unique name of a tag record is its decorated name: a mark, a letter for the kind of tag, and the
parts of the qualified name from the inside out. The parts are told by a demangler, which is given the
linker name that the type descriptor of such a tag has. `UniqueName.parse?` asks for them; names whose
scopes are functions or operators are refused. `nests` tells from unique names whether one record is
defined inside another. -/

namespace Pdb

/-! ### Demanglers -/

/-- A name in a symbol. -/
inductive DemangledName
  | plain (text : Bytes)
  /-- A namespace without a name. -/
  | anonymous
  /-- A template, written out with its arguments. -/
  | template (text : Bytes)
  /-- An operator, or the name of a symbol. -/
  | other
  deriving DecidableEq, Repr, Inhabited

/-- A name with its scopes, innermost first. -/
structure DemangledSymbol where
  name : DemangledName
  scopes : List DemangledName
  deriving DecidableEq, Repr, Inhabited

inductive DemangledType
  | union (symbol : DemangledSymbol)
  | struct (symbol : DemangledSymbol)
  | class_ (symbol : DemangledSymbol)
  | enum (symbol : DemangledSymbol)
  | other
  deriving DecidableEq, Repr, Inhabited

/-- What a linker name stands for. -/
structure Demangled where
  isTypeDescriptor : Bool
  scopes : List DemangledName
  /-- The type in the name, if the name is that of a type descriptor. -/
  described? : Option DemangledType
  deriving DecidableEq, Repr

/-- Takes linker names apart. -/
structure Demangler where
  demangle? : Bytes → Option Demangled

/-! ### Unique names -/

inductive TagSpelling
  | class_ | struct | union | interface | enum
  deriving DecidableEq, Repr, Inhabited

def TagSpelling.name : TagSpelling → String
  | .class_ => "Class"
  | .struct => "Struct"
  | .union => "Union"
  | .interface => "Interface"
  | .enum => "Enum"

def TagSpelling.letter : TagSpelling → UInt8
  | .union => 0x54
  | .struct => 0x55
  | .class_ => 0x56
  | .interface => 0x59
  | .enum => 0x57

def TagSpelling.ofLetter? (c : UInt8) : Option TagSpelling :=
  if c = 0x54 then some .union
  else if c = 0x55 then some .struct
  else if c = 0x56 then some .class_
  else if c = 0x59 then some .interface
  else if c = 0x57 then some .enum
  else none

structure NamePart where
  text : Bytes
  /-- The part has template arguments. -/
  isTemplate : Bool
  deriving DecidableEq, Repr, Inhabited

/-- A unique name, taken apart. Scopes are in order, outermost first. -/
structure UniqueName where
  tag : TagSpelling
  scopes : List NamePart
  identifier : NamePart
  deriving DecidableEq, Repr, Inhabited

namespace UniqueName

def parts (u : UniqueName) : List NamePart := u.scopes ++ [u.identifier]

/-- Parts with their separators. -/
def joinParts (parts : List Bytes) : Bytes := [0x3a, 0x3a].intercalate parts

def qualified (u : UniqueName) : Bytes := joinParts (u.parts.map (·.text))

def anyScopeIsTemplate (u : UniqueName) : Bool := u.scopes.any (·.isTemplate)

/-- The part that a name stands for, if it is plain, a template or a namespace without a name. -/
def partOf : DemangledName → Option NamePart
  | .plain text => some ⟨text, false⟩
  | .anonymous => some ⟨Text.utf8 "`anonymous namespace'", false⟩
  | .template text => some ⟨text, true⟩
  | .other => none

/-- Names longer than this are not made; a compiler has a digest in place of them. -/
def maxLength : Nat := 4096

/-- How many templates and pointers a name may have. -/
def maxNesting : Nat := 128

/-- The number of marks of templates and of pointers in a text. Identifiers with the same letters
are counted, too. -/
def nestingEstimate : Bytes → Nat
  | [] => 0
  | c :: r =>
    let here :=
      if c = 0x3f then r.head? = some 0x24
      else if c ∈ [0x50, 0x51, 0x52, 0x53, 0x41, 0x42] then
        (r.dropWhile (· ∈ [0x45, 0x49, 0x46])).head?.any fun d => 0x41 ≤ d ∧ d ≤ 0x44
      else false
    (if here then 1 else 0) + nestingEstimate r

/-- The linker name of the type descriptor of a tag. Demanglers do not know the letter of interfaces. -/
def descriptorName (tag : TagSpelling) (rest : Bytes) : Bytes :=
  let letter := if tag = .interface then TagSpelling.struct.letter else tag.letter
  Text.utf8 "??_R0?A" ++ letter :: (rest ++ Text.utf8 "@8")

/-- The symbol of the tag that a type descriptor describes, if it is of the given kind. -/
def described? (tag : TagSpelling) (d : Demangled) : Option DemangledSymbol := do
  guard (d.isTypeDescriptor ∧ d.scopes = [])
  match ← d.described?, tag with
  | .union symbol, .union => return symbol
  | .struct symbol, .struct => return symbol
  | .struct symbol, .interface => return symbol
  | .class_ symbol, .class_ => return symbol
  | .enum symbol, .enum => return symbol
  | _, _ => none

def parse? (demangler : Demangler) (bs : Bytes) : Option UniqueName := do
  guard (bs.length ≤ maxLength ∧ nestingEstimate bs ≤ maxNesting)
  guard (bs.take 3 = Text.utf8 ".?A")
  let letter ← bs[3]?
  let tag ← TagSpelling.ofLetter? letter
  let rest := bs.drop 4
  let _ ← Text.strict? rest
  let symbol ← described? tag (← demangler.demangle? (descriptorName tag rest))
  let scopes ← symbol.scopes.reverse.mapM partOf
  return { tag, scopes, identifier := ← partOf symbol.name }

/-- Whether a member with the given name that leads to `child` is the definition of `child` inside
`parent`, and not another name for it: the parent's unique name with the child's letter and with the
member's name in front is then the child's unique name. -/
def nests (parent child name : Bytes) : Bool :=
  match parent.drop 3, child.drop 3 with
  | _ :: scopes, letter :: _ => parent.take 3 ++ letter :: name ++ 0x40 :: scopes = child
  | _, _ => false

end UniqueName
end Pdb
