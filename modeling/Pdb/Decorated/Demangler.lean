import Pdb.Decorated.Parser
import Pdb.Decorated.Render
import Pdb.UniqueName

/-! # A demangler for type descriptors

`Decorated.demangler` reads the linker names of the type descriptors of classes, unions and
enumerations. It knows no other linker names, since it is asked for no others. -/

namespace Pdb.Decorated

def Name.demangled : Name → DemangledName
  | .plain text => .plain text
  | .anonymous _ => .anonymous
  | .template name args => .template (Name.template name args).render
  | _ => .other

/-- The type that is read behind its letter, from a name. The letter of an enumeration has a digit
behind it. -/
def tagOf? : Bytes → Option ((DemangledSymbol → DemangledType) × Bytes)
  | 0x54 :: text => some (.union, text)
  | 0x55 :: text => some (.struct, text)
  | 0x56 :: text => some (.class_, text)
  | 0x57 :: 0x34 :: text => some (.enum, text)
  | _ => none

/-- Nothing but the end of the linker name stands behind the name of the tag. -/
def demangle? (bs : Bytes) : Option Demangled := do
  guard (bs.take 7 = Text.utf8 "??_R0?A")
  let (type, text) ← tagOf? (bs.drop 7)
  let ((name, scope), after) ← Parser.name true (16 * text.length + 64) ⟨text, [], []⟩
  guard (after.rest.take 2 = Text.utf8 "@8")
  return {
    isTypeDescriptor := true, scopes := []
    described? := some (type ⟨name.demangled, scope.toList.map Name.demangled⟩) }

def demangler : Demangler := ⟨demangle?⟩

end Pdb.Decorated
