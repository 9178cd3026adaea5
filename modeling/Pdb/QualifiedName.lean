/-! # Qualified names

The display name of a type is qualified: its scopes stand in front of it, with `::` between them. A
scope may have template arguments, which are qualified names themselves. Main statements: joining
the parts of a name gives the name back, and a name has at least one part. -/

namespace Pdb.QualifiedName

/-- Puts a character in front of the first part. -/
def push (c : Char) : List (List Char) → List (List Char)
  | [] => [[c]]
  | p :: ps => (c :: p) :: ps

/-- What a character adds to the depth of template arguments. -/
def deepens (c : Char) : Int := if c = '<' then 1 else if c = '>' then -1 else 0

/-- The parts of a name that starts at a depth of template arguments. Only a separator at depth 0
splits. -/
def partsFrom : (depth : Int) → List Char → List (List Char)
  | _, [] => [[]]
  | depth, ':' :: ':' :: r =>
    if depth = 0 then [] :: partsFrom depth r else push ':' (partsFrom depth (':' :: r))
  | depth, c :: r => push c (partsFrom (depth + deepens c) r)

/-- The parts of a name, outermost first. -/
def parts (name : List Char) : List (List Char) := partsFrom 0 name

def identifier (name : List Char) : List Char := (parts name).getLastD name

def scopes (name : List Char) : List (List Char) := (parts name).dropLast

/-- Parts with their separators. -/
def join (parts : List (List Char)) : List Char := [':', ':'].intercalate parts

/-! ### Laws -/

theorem push_ne_nil (c : Char) (ps : List (List Char)) : push c ps ≠ [] := by
  cases ps <;> simp [push]

theorem foldr_push (p q : List Char) (ps : List (List Char)) :
    p.foldr push (q :: ps) = (p ++ q) :: ps := by
  induction p with
  | nil => rfl
  | cons c p ih => rw [List.foldr_cons, ih, push, List.cons_append]

theorem partsFrom_ne_nil (depth : Int) (name : List Char) : partsFrom depth name ≠ [] := by
  fun_cases partsFrom depth name <;> simp [push_ne_nil]

theorem join_push (c : Char) {ps : List (List Char)} (h : ps ≠ []) :
    join (push c ps) = c :: join ps := by
  match ps, h with
  | [p], _ => simp [push, join, List.intercalate]
  | p :: q :: r, _ => simp [push, join, List.intercalate]

theorem join_nil_cons {ps : List (List Char)} (h : ps ≠ []) :
    join ([] :: ps) = ':' :: ':' :: join ps := by
  match ps, h with
  | p :: r, _ => simp [join, List.intercalate]

theorem join_partsFrom (depth : Int) (name : List Char) : join (partsFrom depth name) = name := by
  fun_induction partsFrom depth name with
  | case1 => simp [join, List.intercalate]
  | case2 r ih => rw [join_nil_cons (partsFrom_ne_nil _ _), ih]
  | case3 depth r _ ih => rw [join_push _ (partsFrom_ne_nil _ _), ih]
  | case4 depth c r _ ih => rw [join_push _ (partsFrom_ne_nil _ _), ih]

end Pdb.QualifiedName
