import Pdb.Decorated
import Pdb.Text

/-! # Decorated names as text

A type is written in two parts, one in front of what it is the type of and one behind it: a function
has its result in front and its parameters behind. Blanks depend on the last character that has been
written, so all goes to one buffer. -/

namespace Pdb.Decorated

/-- What has been written, last character first. -/
abbrev Buffer := Bytes

namespace Buffer

def write (b : Buffer) (text : Bytes) : Buffer := text.reverse ++ b
def writeText (b : Buffer) (s : String) : Buffer := b.write (Text.utf8 s)

def isLetter (c : UInt8) : Bool := (0x41 ≤ c ∧ c ≤ 0x5a) ∨ (0x61 ≤ c ∧ c ≤ 0x7a)

/-- A blank, where a name needs one in front. -/
def nameSpace : Buffer → Buffer
  | [] => []
  | c :: b => if isLetter c ∨ c = 0x26 ∨ c = 0x3e ∨ c = 0x29 then 0x20 :: c :: b else c :: b

/-- A blank, where a word or a sign needs one in front. -/
def space : Buffer → Buffer
  | [] => []
  | c :: b => if c = 0x2a then 0x20 :: c :: b else nameSpace (c :: b)

def convention (b : Buffer) (c : Convention) : Buffer :=
  let b := match b with
    | 0x20 :: _ => b
    | 0x28 :: _ => b
    | _ => 0x20 :: b
  b.writeText c.text

/-- Words with a blank in front of each that needs one. -/
def words (b : Buffer) (ws : List String) : Buffer := ws.foldl (fun b w => b.space.writeText w) b

end Buffer

def Qualifiers.words (q : Qualifiers) : List String :=
  (if q.isConst then ["const"] else []) ++ (if q.isVolatile then ["volatile"] else [])

def FunctionQualifiers.words (q : FunctionQualifiers) : List String :=
  q.object.words ++ (if q.isRestrict then ["__restrict"] else [])
    ++ (if q.isLeft then ["&"] else []) ++ (if q.isRight then ["&&"] else [])

/-- How a name is written: as a part of another name, and as the last part of a qualified name,
given how the innermost scope is written, if there is one. -/
structure NameForm where
  part : Buffer → Buffer
  last : Option (Buffer → Buffer) → Buffer → Buffer

/-- A name that is written alike everywhere. -/
def NameForm.uniform (f : Buffer → Buffer) : NameForm := ⟨f, fun _ => f⟩

/-- How scopes are written: all of them, outermost first, with a separator behind each, and the
innermost one alone. -/
structure ScopeForm where
  all : Buffer → Buffer
  innermost : Option (Buffer → Buffer)

def qualified (n : NameForm) (s : ScopeForm) (b : Buffer) : Buffer :=
  n.last s.innermost (s.all b.nameSpace)

/-- The name of a class, as that of its constructor. -/
def className (innermost : Option (Buffer → Buffer)) (b : Buffer) : Buffer :=
  match innermost with
  | some f => f b
  | none => b.writeText "[invalid]"

/-- How a type is written: in front and behind, and in front of the sign of a pointer to it, where a
function or an array opens a bracket that the pointer closes. -/
structure TypeForm where
  pre : Buffer → Buffer
  post : Buffer → Buffer
  target : Buffer → Buffer
  opens : Bool

/-- A type whose pointers need no bracket. -/
def TypeForm.closed (pre : Buffer → Buffer) (post : Buffer → Buffer) : TypeForm :=
  ⟨pre, post, pre, false⟩

def TypeForm.word (s : String) : TypeForm := .closed (·.writeText s) id

def commas : List (Buffer → Buffer) → Buffer → Buffer
  | [], b => b
  | f :: fs, b => fs.foldl (fun b f => f (b.writeText ",")) (f b)

def parameters (args : List (Buffer → Buffer)) (b : Buffer) : Buffer :=
  (commas args (b.writeText "(")).writeText ")"

/-- Template arguments; two closing brackets are kept apart. -/
def templateArguments (args : List (Buffer → Buffer)) (b : Buffer) : Buffer :=
  match commas args (b.writeText "<") with
  | 0x3e :: b => Buffer.writeText (0x3e :: b) " >"
  | b => b.writeText ">"

mutual

def Name.form : Name → NameForm
  | .plain text => .uniform (·.write text)
  | .interface text => .uniform fun b => ((b.writeText "[").write text).writeText "]"
  | .template name .nil => .uniform fun b => (name.form.part b).writeText "<>"
  | .template name args => .uniform fun b => templateArguments args.form (name.form.part b)
  | .anonymous _ => .uniform (·.writeText "`anonymous namespace'")
  | .discriminator n => .uniform (·.writeText ("`" ++ toString n ++ "'"))
  | .nested name scope _ =>
    let inner := qualified name.form scope.form
    ⟨fun b => (inner (b.writeText "`")).writeText "'", fun _ => inner⟩
  | .digest text => .uniform fun b => ((b.writeText "??@").write text).writeText "@"
  | .operator text => .uniform (·.space.writeText text)
  | .constructor => ⟨(·.space.writeText "ctor"), className⟩
  | .destructor =>
    ⟨(·.space.writeText "dtor"), fun innermost b => className innermost (b.writeText "~")⟩

def Scope.form : Scope → ScopeForm
  | .nil => ⟨id, none⟩
  | .cons name outer =>
    ⟨fun b => (name.form.part (outer.form.all b)).writeText "::", some name.form.part⟩

def Ty.form : Ty → TypeForm
  | .missing => .word ""
  | .variadic => .word "..."
  | .emptyPack => .word ""
  | .nullptr => .word "std::nullptr_t"
  | .constant n => .word (toString n)
  | .parameter n => .word ("`template-parameter" ++ toString n ++ "'")
  | .primitive text q => .closed (fun b => (b.writeText text).words q.words) id
  | .tag _ name scope q =>
    .closed (fun b => (qualified name.form scope.form b).words q.words) id
  | .pointer form target q =>
    let t := target.form
    .closed (fun b => ((t.target b).space.writeText form.text).words q.words)
      (if form = .right then id else fun b => t.post (if t.opens then b.writeText ")" else b))
  | .array length element q =>
    let t := element.form
    let pre b := (t.pre b).words q.words
    ⟨pre, fun b => t.post (b.writeText s!"[{length}]"), fun b => (pre b).space.writeText "(", true⟩
  | .function q convention args result =>
    let t := result.form
    ⟨fun b => (t.pre b).convention convention,
      fun b => t.post ((parameters args.form b).words q.words),
      fun b => ((t.pre b).space.writeText "(").convention convention, true⟩
  | .memberFunction name scope _ q convention args result =>
    let t := result.form
    .closed
      (fun b => (qualified name.form scope.form
        (((t.pre b).space.writeText "(").convention convention)).writeText "::*")
      (fun b => (t.post (parameters args.form (b.writeText ")"))).words
        (if q.isConst then ["const"] else []))

def Types.form : Types → List (Buffer → Buffer)
  | .nil => []
  | .cons .emptyPack ts => ts.form
  | .cons t ts => (fun b => t.form.post (t.form.pre b)) :: ts.form

end

/-- The text of a name that stands alone. -/
def Name.render (n : Name) : Bytes := (qualified n.form ⟨id, none⟩ []).reverse

end Pdb.Decorated
