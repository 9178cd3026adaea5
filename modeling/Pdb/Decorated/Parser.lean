import Pdb.Decorated
import Pdb.Decoder
import Pdb.Text

/-! # Reading decorated names

A parser by recursive descent. Names and types that have occurred may be referred to by a digit; the
two tables of them are part of the parser's state, and each template has tables of its own. The fuel
bounds the depth of the recursion; every few steps down consume a character, so fuel in proportion
to the length of the text is never used up. -/

namespace Pdb.Decorated

/-- What is left of the text, and what has occurred in it. -/
structure State where
  rest : Bytes
  names : List Name
  types : List Ty

abbrev Parser (α : Type) := StateT State Option α

namespace Parser

def fail {α : Type} : Parser α := fun _ => none

/-- The first character, which stays where it is. -/
def peek? : Parser (Option UInt8) := do return (← get).rest.head?

/-- Passes over a text if it comes next. -/
def accept (s : String) : Parser Bool := do
  let st ← get
  let bs := Text.utf8 s
  if st.rest.take bs.length = bs then
    set { st with rest := st.rest.drop bs.length }
    return true
  else return false

def expect (s : String) : Parser Unit := do
  if !(← accept s) then fail

def next : Parser UInt8 := do
  let st ← get
  match st.rest with
  | [] => fail
  | c :: r => set { st with rest := r }; return c

/-- The next character if `f` has a value for it. -/
def next? {α : Type} (f : UInt8 → Option α) : Parser (Option α) := do
  let st ← get
  match st.rest with
  | [] => return none
  | c :: r =>
    match f c with
    | none => return none
    | some x => set { st with rest := r }; return some x

/-- The text up to a terminator, which is passed over. -/
def textUpToAt : Parser Bytes := do
  let st ← get
  match st.rest.dropWhile (· != 0x40) with
  | [] => fail
  | _ :: r => set { st with rest := r }; return st.rest.takeWhile (· != 0x40)

def digit (c : UInt8) : Option Nat :=
  if 0x30 ≤ c ∧ c ≤ 0x39 then some (c.toNat - 0x30) else none

/-- Adds an entry to a table of at most ten. -/
def remember {α : Type} [DecidableEq α] (table : List α) (x : α) : List α :=
  if table.length < 10 ∧ x ∉ table then table ++ [x] else table

def rememberName (n : Name) : Parser Unit :=
  modify fun st => { st with names := remember st.names n }

def rememberType (t : Ty) : Parser Unit :=
  modify fun st => { st with types := remember st.types t }

def nameAt (d : Nat) : Parser Name := do
  match (← get).names[d]? with
  | some n => return n
  | none => fail

def typeAt (d : Nat) : Parser Ty := do
  match (← get).types[d]? with
  | some t => return t
  | none => fail

/-! ### Letters -/

/-- The digits of a number in hexadecimal, as the letters from `A` to `P`. -/
def numberDigits : Nat → UInt32 → Parser UInt32
  | 0, _ => fail
  | fuel + 1, acc => do
    let c ← next
    if c = 0x40 then return acc
    else if 0x41 ≤ c ∧ c ≤ 0x50 then numberDigits fuel (acc * 16 + (c - 0x41).toUInt32)
    else fail

def number : Parser Int := do
  let negative ← accept "?"
  let n ← match ← next? digit with
    | some d => pure (UInt32.ofNat (d + 1))
    | none => numberDigits ((← get).rest.length + 1) 0
  return (if negative then -n.toInt32 else n.toInt32).toInt

def qualifierLetter (c : UInt8) : Option Qualifiers :=
  if c = 0x41 ∨ c = 0x51 then some {}
  else if c = 0x42 ∨ c = 0x52 then some { isConst := true }
  else if c = 0x43 ∨ c = 0x53 then some { isVolatile := true }
  else if c = 0x44 ∨ c = 0x54 then some { isConst := true, isVolatile := true }
  else none

/-- The letters of a storage class: those of a qualifier, and four for far pointers. -/
def storageLetter (c : UInt8) : Option Qualifiers :=
  if 0x45 ≤ c ∧ c ≤ 0x48 then (qualifierLetter (c - 4)).map fun q => { q with isFar := true }
  else qualifierLetter c

def qualifier : Parser Qualifiers := do return (← next? qualifierLetter).getD {}
def storage : Parser Qualifiers := do return (← next? storageLetter).getD {}

/-- What may stand in front of the result of a function. -/
def resultStorage : Parser Qualifiers := do
  if ← accept "?" then storage else return {}

/-- What may stand in front of the result of a member function. -/
def memberResultStorage : Parser Qualifiers := do
  if ← accept "?" then
    match ← next? fun c => if c ≤ 0x44 then qualifierLetter c else none with
    | some q => return q
    | none => fail
  else return {}

def functionQualifiers : Parser FunctionQualifiers := do
  let is64 ← accept "E"
  let isRestrict ← accept "I"
  let isUnaligned ← accept "F"
  let isLeft ← accept "G"
  let isRight ← if isLeft then pure false else accept "H"
  let q ← qualifier
  return { object := { q with is64 }, isRestrict, isUnaligned, isLeft, isRight }

def convention : Parser Convention := do
  match ← next with
  | 0x41 | 0x42 => return .cdecl
  | 0x43 => return .pascal
  | 0x45 => return .thiscall
  | 0x47 => return .stdcall
  | 0x49 => return .fastcall
  | _ => fail

/-- The eight classes of functions of one access in the order of their letters. Of static and of
virtual private functions, the second letter says nothing that the first one does not. -/
def functionClassesOf (access : Access) : List FunctionClass :=
  let isFar := access != .private_
  [{ access },
    { access, isFar := true },
    { access, isStatic := true },
    { access, isStatic := true, isFar },
    { access, isVirtual := true },
    { access, isVirtual := true, isFar },
    { access, isVirtual := true, isThunk := true },
    { access, isVirtual := true, isThunk := true, isFar := true }]

/-- The classes of functions by their letters, from `A` on. -/
def functionClasses : List FunctionClass :=
  functionClassesOf .private_ ++ functionClassesOf .protected_ ++ functionClassesOf .public_
    ++ [{ access := .global }, { access := .global, isFar := true }]

/-- The class of a function. The number by which a thunk adjusts is not part of it. -/
def functionClass : Parser FunctionClass := do
  match ← next? fun c => if 0x41 ≤ c then functionClasses[(c - 0x41).toNat]? else none with
  | some class_ =>
    if class_.isThunk then
      let _ ← number
    return class_
  | none => fail

/-- The classes of variables by their digits. -/
def variableClass? (c : UInt8) : Option VariableClass :=
  match c with
  | 0x30 => some .private_
  | 0x31 => some .protected_
  | 0x32 => some .public_
  | 0x33 => some .global
  | 0x34 => some .local_
  | _ => none

/-- The signs of the operators by their letters, from `2` on. -/
def operators : List (UInt8 × String) :=
  ("23456789ABCDEFGHIJKLMNOPQRSTUVWXYZ".toList.map fun c => UInt8.ofNat c.toNat).zip
    [" new", " delete", "=", ">>", "<<", "!", "==", "!=", "[]", "cast", "->", "*", "++", "--", "-",
      "+", "&", "->*", "/", "%", "<", "<=", ">", ">=", ",", "()", "~", "^", "|", "&&", "||", "*=",
      "+=", "-="]

/-- The operators whose letter has a bar in front, from `0` on. -/
def barOperators : List String :=
  ["operator/=", "operator%=", "operator>>=", "operator<<=", "operator&=", "operator|=",
    "operator^=", "`vftable'", "`vbtable'", "`vcall'"]

def operator : Parser Name := do
  match ← next with
  | 0x30 => return .constructor
  | 0x31 => return .destructor
  | 0x5f =>
    match ← next? digit with
    | some d => return .operator (barOperators.getD d "")
    | none => fail
  | c =>
    match operators.lookup c with
    | some s => return .operator ("operator" ++ s)
    | none => fail

/-- The primitive types by their letters. -/
def primitives : List (UInt8 × String) :=
  ("XDCEFGHIJKMNO".toList.map fun c => UInt8.ofNat c.toNat).zip
    ["void", "char", "signed char", "unsigned char", "short", "unsigned short", "int",
      "unsigned int", "long", "unsigned long", "float", "double", "long double"]

/-- The primitive types whose letter has a bar in front. -/
def barPrimitives : List (UInt8 × String) :=
  ("NJKLMWQSU".toList.map fun c => UInt8.ofNat c.toNat).zip
    ["bool", "int64_t", "uint64_t", "int128_t", "uint128_t", "wchar_t", "char8_t", "char16_t",
      "char32_t"]

def isHexDigit (c : UInt8) : Bool :=
  (0x30 ≤ c ∧ c ≤ 0x39) ∨ (0x41 ≤ c ∧ c ≤ 0x46) ∨ (0x61 ≤ c ∧ c ≤ 0x66)

/-- A namespace without a name. -/
def anonymous : Parser Name := do
  if ← accept "0x" then
    let st ← get
    let id := st.rest.takeWhile isHexDigit
    set { st with rest := st.rest.drop id.length }
    expect "@"
    rememberName (.anonymous (some id))
    return .anonymous (some id)
  else
    expect "@"
    return .anonymous none

/-- Runs a parser with empty tables, and brings back the tables after it. -/
def withFreshTables {α : Type} (p : Parser α) : Parser α := do
  let outer ← get
  set { outer with names := [], types := [] }
  let x ← p
  modify fun st => { st with names := outer.names, types := outer.types }
  return x

/-! ### Names and types -/

mutual

/-- A name without scopes. Template names are remembered on demand. -/
def unqualified (keep : Bool) : Nat → Parser Name
  | 0 => fail
  | fuel + 1 => do
    match ← next? digit with
    | some d => nameAt d
    | none =>
      if ← accept "?$" then
        let n ← template fuel
        if keep then rememberName n
        return n
      else if ← accept "?" then operator
      else
        let n := Name.plain (← textUpToAt)
        rememberName n
        return n

/-- A template with its arguments, behind its mark. -/
def template : Nat → Parser Name
  | 0 => fail
  | fuel + 1 => withFreshTables do
    let n ← unqualified true fuel
    let args ← arguments fuel
    return .template n (.ofList args)

/-- The scopes of a name, and the mark behind them. -/
def scope : Nat → Parser Scope
  | 0 => fail
  | fuel + 1 => do
    if ← accept "@" then return .nil
    let n ← scopePart fuel
    let outer ← scope fuel
    return .cons n outer

def scopePart : Nat → Parser Name
  | 0 => fail
  | fuel + 1 => do
    match ← next? digit with
    | some d => nameAt d
    | none =>
      if ← accept "?" then
        if (← peek?) = some 0x3f then
          symbol fuel
        else if ← accept "$" then
          let n ← template fuel
          rememberName n
          return n
        else if ← accept "A" then anonymous
        else if ← accept "Q" then
          let n := Name.interface (← textUpToAt)
          expect "@"
          rememberName n
          return n
        else return .discriminator (← number)
      else
        let n := Name.plain (← textUpToAt)
        rememberName n
        return n

def name (keep : Bool) : Nat → Parser (Name × Scope)
  | 0 => fail
  | fuel + 1 => do
    let n ← unqualified keep fuel
    let s ← scope fuel
    return (n, s)

def symbol : Nat → Parser Name
  | 0 => fail
  | fuel + 1 => do
    expect "?"
    if ← accept "?@" then
      let id := (← get).rest.take 32
      if id.length = 32 ∧ id.all isHexDigit then
        modify fun st => { st with rest := st.rest.drop 32 }
        expect "@"
        return .nested (.digest id) .nil .unknown
      else fail
    else if ← accept "$" then
      return .nested (← template fuel) .nil .unknown
    else
      let (n, s) ← name false fuel
      return .nested n s (← symbolForm fuel)

/-- What stands behind the name of a symbol. -/
def symbolForm : Nat → Parser SymbolForm
  | 0 => fail
  | fuel + 1 => do
    if (← peek?).isNone then return .unknown
    else if let some class_ ← next? variableClass? then
      let t ← type {} fuel
      return .variable class_ t (← storage)
    else if ← accept "6" then
      let q ← qualifier
      return .virtualFunctions q (← scope fuel)
    else if ← accept "7" then
      let q ← qualifier
      return .virtualBases q (← scope fuel)
    else if ← accept "8" then return .typeDescriptor
    else if ← accept "9" then return .unknown
    else if ← accept "Y" then
      let c ← convention
      let r ← memberResultStorage
      let result ← type r fuel
      let args ← functionArguments fuel
      return .function c (.ofList args) result
    else
      let class_ ← functionClass
      let q ← if class_.isStatic then pure {} else functionQualifiers
      let c ← convention
      let r ← memberResultStorage
      let result ← resultType r fuel
      let args ← functionArguments fuel
      return .memberFunction class_ q c (.ofList args) result

/-- The result of a member function; a constructor has none. -/
def resultType (q : Qualifiers) : Nat → Parser Ty
  | 0 => fail
  | fuel + 1 => do
    if ← accept "@" then return .missing else type q fuel

def types : Nat → Parser (List Ty)
  | 0 => fail
  | fuel + 1 => do
    let c ← peek?
    if c = none ∨ c = some 0x40 ∨ c = some 0x5a then return []
    else
      let t ← match ← next? digit with
        | some d => typeAt d
        | none =>
          let before := (← get).rest.length
          let t ← type {} fuel
          if (← get).rest.length + 1 < before then rememberType t
          pure t
      return t :: (← types fuel)

def arguments : Nat → Parser (List Ty)
  | 0 => fail
  | fuel + 1 => do
    let ts ← types fuel
    if ← accept "Z" then return ts ++ [.variadic]
    if (← peek?).isNone then return ts
    expect "@"
    return ts

def functionArguments : Nat → Parser (List Ty)
  | 0 => fail
  | fuel + 1 => do
    let ts ← if ← accept "X" then pure [.primitive "void" {}] else arguments fuel
    expect "Z"
    return ts

def function (qualified : Bool) : Nat → Parser Ty
  | 0 => fail
  | fuel + 1 => do
    let q ← if qualified then functionQualifiers else pure {}
    let c ← convention
    let r ← resultStorage
    let result ← type r fuel
    let args ← functionArguments fuel
    return .function q c (.ofList args) result

/-- A pointer to a member function, with a qualifier or a function class. -/
def memberFunction (withClass : Bool) : Nat → Parser Ty
  | 0 => fail
  | fuel + 1 => do
    let (n, s) ← name false fuel
    let is64 ← accept "E"
    let (class_, q) ←
      if withClass then pure (some (← functionClass), {}) else pure (none, ← qualifier)
    let c ← convention
    let r ← memberResultStorage
    let result ← resultType r fuel
    let args ← functionArguments fuel
    return .memberFunction n s class_ { q with is64 } c (.ofList args) result

def pointee : Nat → Parser Ty
  | 0 => fail
  | fuel + 1 => do
    let is64 ← accept "E"
    let q ← storage
    type { q with is64 } fuel

/-- The lengths of an array of some dimensions, and its elements. -/
def dimensions : (left : Nat) → Nat → Parser (Ty × Qualifiers)
  | _, 0 => fail
  | 0, fuel + 1 => do
    let q ←
      if ← accept "$$C" then
        match ← next with
        | 0x41 => pure {}
        | 0x42 => pure { isConst := true }
        | 0x43 | 0x44 => pure { isConst := true, isVolatile := true }
        | _ => fail
      else pure {}
    return (← type {} fuel, q)
  | left + 1, fuel + 1 => do
    let length ← number
    let (element, q) ← dimensions left fuel
    return (.array length element q, q)

def array : Nat → Parser Ty
  | 0 => fail
  | fuel + 1 => do
    let n ← number
    if n ≤ 0 then fail
    return (← dimensions n.toNat fuel).1

def tag (form : TagForm) (q : Qualifiers) : Nat → Parser Ty
  | 0 => fail
  | fuel + 1 => do
    let (n, s) ← name (form != .alias_) fuel
    return .tag form n s q

/-- A type; the qualifiers are what has been read in front of it. -/
def type (q : Qualifiers) : Nat → Parser Ty
  | 0 => fail
  | fuel + 1 => do
    if ← accept "W4" then tag .enum q fuel
    else if ← accept "A6" then return .pointer .left (← function false fuel) q
    else if ← accept "P6" then return .pointer .pointer (← function false fuel) q
    else if ← accept "P8" then memberFunction false fuel
    else if ← accept "$" then dollarType q fuel
    else plainType q fuel

def dollarType (q : Qualifiers) : Nat → Parser Ty
  | 0 => fail
  | fuel + 1 => do
    if ← accept "0" then return .constant (← number)
    else if ← accept "D" then return .parameter (← number)
    else if ← accept "$BY" then array fuel
    else if ← accept "$Q" then return .pointer .right (← pointee fuel) q
    else if ← accept "S" then return .emptyPack
    else if ← accept "$V" then return .emptyPack
    else if ← accept "$Z" then return .emptyPack
    else if ← accept "$$V" then return .emptyPack
    else if ← accept "$T" then return .nullptr
    else if ← accept "$A6" then function false fuel
    else if ← accept "$A8@@" then function true fuel
    else if ← accept "$Y" then tag .alias_ q fuel
    else if ← accept "$C" then plainType (← qualifier) fuel
    else if ← accept "1?" then memberFunction true fuel
    else if ← accept "H?" then memberFunction true fuel
    else if ← accept "I?" then memberFunction true fuel
    else if ← accept "J?" then memberFunction true fuel
    else plainType q fuel

def plainType (q : Qualifiers) : Nat → Parser Ty
  | 0 => fail
  | fuel + 1 => do
    if ← accept "?" then return .parameter (-(← number))
    match ← next? digit with
    | some d => typeAt d
    | none =>
      match ← next with
      | 0x54 => tag .union q fuel
      | 0x55 => tag .struct q fuel
      | 0x56 => tag .class_ q fuel
      | 0x41 => return .pointer .left (← pointee fuel) q
      | 0x42 => return .pointer .left (← pointee fuel) { isVolatile := true }
      | 0x50 => return .pointer .pointer (← pointee fuel) q
      | 0x51 => return .pointer .pointer (← pointee fuel) { isConst := true }
      | 0x52 => return .pointer .pointer (← pointee fuel) { isVolatile := true }
      | 0x53 => return .pointer .pointer (← pointee fuel) { isConst := true, isVolatile := true }
      | 0x59 => array fuel
      | 0x5f =>
        match ← next? (barPrimitives.lookup ·) with
        | some s => return .primitive s q
        | none => fail
      | c =>
        match primitives.lookup c with
        | some s => return .primitive s q
        | none => fail

end
end Parser
end Pdb.Decorated
