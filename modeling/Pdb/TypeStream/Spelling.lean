import Pdb.TypeStream

/-! # Spelling of types

The spelling of a type as in a source text, for types that have no name of their own. -/

namespace Pdb.TypeStream

/-- How deep types are spelled out. -/
def maxSpellingDepth : Nat := 32

/-- What is spelled for a type that cannot be read. -/
def unknownSpelling : String := "<unknown>"

/-- The spelling of a type, at most `depth` types deep. -/
def spellingAt (s : TypeStream) : (depth : Nat) → TypeIndex → String
  | 0, _ => "<...>"
  | depth + 1, ti =>
    if ti.isSimple then
      match ti.simpleType? with
      | some (.basic _ _ spelling) => spelling
      | some (.pointer pointee _) => spellingAt s depth pointee ++ "*"
      | some .nullPtr => "std::nullptr_t"
      | none => unknownSpelling
    else match s.type? ti with
      | some (.class_ r) => Text.lossy r.name
      | some (.union r) => Text.lossy r.name
      | some (.enum r) => Text.lossy r.name
      | some (.modifier m) =>
        (if m.isConst then "const " else "") ++ (if m.isVolatile then "volatile " else "")
          ++ spellingAt s depth m.modified
      | some (.pointer p) =>
        let pointee := spellingAt s depth p.pointee
        match p.mode? with
        | some .lvalueReference => pointee ++ "&"
        | some .rvalueReference => pointee ++ "&&"
        | some .pointerToDataMember | some .pointerToMemberFunction =>
          match p.containingClass? with
          | some (some class_) => pointee ++ " " ++ spellingAt s depth class_ ++ "::*"
          | _ => pointee ++ "::*"
        | _ => pointee ++ "*"
      | some (.array a) => spellingAt s depth a.element ++ "[]"
      | some (.procedure p) =>
        let args := match s.type? p.args with
          | some (.argList args) =>
            args.map fun a => if a = .none then "..." else spellingAt s depth a
          | _ => []
        spellingAt s depth p.result ++ " (" ++ Text.join ", " args ++ ")"
      | _ => unknownSpelling

def spelling (s : TypeStream) (ti : TypeIndex) : String := s.spellingAt (maxSpellingDepth + 1) ti

end Pdb.TypeStream
