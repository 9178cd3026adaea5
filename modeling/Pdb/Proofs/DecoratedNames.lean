import Mathlib.Control.Basic
import Mathlib.Data.Option.Basic
import Pdb.Decorated.Demangler
import Pdb.Proofs.Utf8

/-! # Reading plain names

A decorated name without templates, operators and back-references is its parts from the inside out,
each behind the one it is declared in and with a mark behind it. Main statement: `demangle?_marked`, a
demangler takes such a name apart into these parts. -/

namespace Pdb.UniqueName

/-- Names with a mark behind each. -/
def marked (ns : List Bytes) : Bytes := ns.flatMap (· ++ [0x40])

theorem marked_cons_append (n : Bytes) (ns : List Bytes) (r : Bytes) :
    marked (n :: ns) ++ r = n ++ 0x40 :: (marked ns ++ r) := by
  simp [marked]

theorem length_le_marked (ns : List Bytes) : ns.length ≤ (marked ns).length := by
  induction ns with
  | nil => exact Nat.zero_le _
  | cons n ns ih =>
    have := congrArg List.length (marked_cons_append n ns [])
    simp only [List.length_append, List.length_cons, List.length_nil] at this ⊢
    omega

end Pdb.UniqueName

namespace Pdb.Decorated.Parser
open UniqueName

variable {α β : Type} {n r : Bytes} {names : List Name} {types : List Ty} {keep : Bool} {f : Nat}
  {st st' : State}

/-- A text that is read as a plain name. -/
structure IsPlain (n : Bytes) : Prop where
  start : ∃ c cs, n = c :: cs ∧ digit c = none ∧ c ≠ 0x3f
  inner : 0x40 ∉ n

/-! ### Steps -/

theorem bind_of_eq {p : Parser α} {k : α → Parser β} {a : α} (h : p st = some (a, st')) :
    (p >>= k) st = k a st' := by
  show (p st).bind (fun x => k x.1 x.2) = _
  rw [h]
  rfl

theorem next?_of_none {g : UInt8 → Option α} {c : UInt8} {cs : Bytes} (hrest : st.rest = c :: cs)
    (h : g c = none) : next? g st = some (none, st) := by
  rw [next?, bind_of_eq (p := get) rfl]
  simp only [hrest, h]
  rfl

theorem accept_of_ne {s : String} {c d : UInt8} {cs : Bytes} (hrest : st.rest = c :: cs)
    (hs : (Text.utf8 s).head? = some d) (h : c ≠ d) : accept s st = some (false, st) := by
  show (if st.rest.take (Text.utf8 s).length = Text.utf8 s then _ else (pure false : Parser Bool)) st = _
  rw [if_neg]
  · rfl
  · intro heq
    rw [hrest] at heq
    rw [← heq] at hs
    cases hl : (Text.utf8 s).length with
    | zero => simp [hl] at hs
    | succ k => exact h (by simpa [hl] using hs)

theorem accept_of_append (s : String) (rest : Bytes) (names : List Name) (types : List Ty) :
    accept s ⟨Text.utf8 s ++ rest, names, types⟩ = some (true, ⟨rest, names, types⟩) := by
  show (if _ then (do set { rest := _, names := _, types := _ : State }; return true)
    else (pure false : Parser Bool)) _ = _
  rw [if_pos List.take_left]
  simp only [List.drop_left]
  rfl

theorem textUpToAt_eq (h : 0x40 ∉ n) (r : Bytes) (names : List Name) (types : List Ty) :
    textUpToAt ⟨n ++ 0x40 :: r, names, types⟩ = some (n, ⟨r, names, types⟩) := by
  have hall : ∀ c ∈ n, (c != 0x40) = true := fun c hc => bne_iff_ne.2 fun heq => h (heq ▸ hc)
  have hdrop : (n ++ 0x40 :: r).dropWhile (· != 0x40) = 0x40 :: r := by
    rw [List.dropWhile_append_of_pos hall]
    rfl
  have htake : (n ++ 0x40 :: r).takeWhile (· != 0x40) = n := by
    rw [List.takeWhile_append_of_pos hall]
    simp
  rw [textUpToAt, bind_of_eq (p := get) rfl]
  dsimp only
  rw [hdrop, htake]
  rfl

/-! ### Plain names -/

theorem unqualified_eq (h : IsPlain n) :
    unqualified keep (f + 1) ⟨n ++ 0x40 :: r, names, types⟩
      = some (.plain n, ⟨r, remember names (.plain n), types⟩) := by
  have htext := textUpToAt_eq h.inner r names types
  obtain ⟨c, cs, rfl, hdigit, hmark⟩ := h.start
  rw [unqualified, bind_of_eq (next?_of_none rfl hdigit)]
  dsimp only
  rw [bind_of_eq (accept_of_ne rfl rfl hmark), if_neg Bool.false_ne_true,
    bind_of_eq (accept_of_ne rfl rfl hmark), if_neg Bool.false_ne_true, bind_of_eq htext]
  rfl

theorem scopePart_eq (h : IsPlain n) (r : Bytes) (names : List Name) (types : List Ty) :
    scopePart (f + 1) ⟨n ++ 0x40 :: r, names, types⟩
      = some (.plain n, ⟨r, remember names (.plain n), types⟩) := by
  have htext := textUpToAt_eq h.inner r names types
  obtain ⟨c, cs, rfl, hdigit, hmark⟩ := h.start
  rw [scopePart, bind_of_eq (next?_of_none rfl hdigit)]
  dsimp only
  rw [bind_of_eq (accept_of_ne rfl rfl hmark), if_neg Bool.false_ne_true, bind_of_eq htext]
  rfl

/-- By induction on the scopes, of which each is remembered. -/
theorem scope_eq {ns : List Bytes} (h : ∀ n ∈ ns, IsPlain n) (hf : ns.length < f) (r : Bytes)
    (names : List Name) (types : List Ty) :
    ∃ names', scope f ⟨marked ns ++ 0x40 :: r, names, types⟩
      = some (.ofList (ns.map .plain), ⟨r, names', types⟩) := by
  induction ns generalizing f names with
  | nil =>
    obtain ⟨f, rfl⟩ := Nat.exists_eq_succ_of_ne_zero (Nat.ne_of_gt hf)
    have hat := accept_of_append "@" r names types
    exact ⟨names, by rw [scope]; exact bind_of_eq hat⟩
  | cons n ns ih =>
    rw [List.length_cons] at hf
    obtain ⟨f, rfl⟩ : ∃ g, f = g + 2 := ⟨f - 2, by omega⟩
    obtain ⟨hn, hns⟩ := List.forall_mem_cons.1 h
    have hpart := scopePart_eq (f := f) hn (marked ns ++ 0x40 :: r) names types
    obtain ⟨names', hrest⟩ := ih hns (Nat.lt_of_succ_lt_succ hf) (remember names (.plain n))
    obtain ⟨c, cs, rfl, _, _⟩ := hn.start
    have hat : c ≠ 0x40 := fun heq => hn.inner (heq ▸ List.mem_cons_self)
    refine ⟨names', ?_⟩
    rw [marked_cons_append, scope, bind_of_eq (accept_of_ne rfl rfl hat), if_neg Bool.false_ne_true,
      bind_of_eq hpart, bind_of_eq hrest]
    rfl

theorem name_eq (keep : Bool) {ns : List Bytes} (h : ∀ m ∈ n :: ns, IsPlain m) (hf : ns.length + 1 < f)
    (r : Bytes) (names : List Name) (types : List Ty) :
    ∃ names', name keep f ⟨marked (n :: ns) ++ 0x40 :: r, names, types⟩
      = some ((.plain n, .ofList (ns.map .plain)), ⟨r, names', types⟩) := by
  obtain ⟨f, rfl⟩ : ∃ g, f = g + 2 := ⟨f - 2, by omega⟩
  obtain ⟨hn, hns⟩ := List.forall_mem_cons.1 h
  obtain ⟨names', hscope⟩ := scope_eq (f := f + 1) hns (Nat.lt_of_succ_lt_succ hf) r
    (remember names (.plain n)) types
  refine ⟨names', ?_⟩
  rw [name, marked_cons_append, bind_of_eq (unqualified_eq hn), bind_of_eq hscope]
  rfl

end Pdb.Decorated.Parser

/-! ### Descriptors -/

namespace Pdb.Decorated
open UniqueName Pdb.Decorated.Parser

theorem toList_ofList (ns : List Name) : (Scope.ofList ns).toList = ns := by
  induction ns with
  | nil => rfl
  | cons n ns ih => exact congrArg (n :: ·) ih

/-- The name of a tag is behind its letter, and behind the name is the end of the linker name. -/
theorem demangle?_marked {bs n : Bytes} {ns : List Bytes} {type : DemangledSymbol → DemangledType}
    (h : ∀ m ∈ n :: ns, IsPlain m)
    (htag : tagOf? bs = some (type, marked (n :: ns) ++ 0x40 :: Text.utf8 "@8")) :
    demangle? (Text.utf8 "??_R0?A" ++ bs) = some {
      isTypeDescriptor := true, scopes := []
      described? := some (type ⟨.plain n, ns.map .plain⟩) } := by
  have hlength := length_le_marked (n :: ns)
  obtain ⟨names', hparse⟩ := name_eq true
    (f := 16 * (marked (n :: ns) ++ 0x40 :: Text.utf8 "@8").length + 64) h
    (by simp only [List.length_append, List.length_cons] at hlength ⊢; omega) (Text.utf8 "@8") [] []
  have hmark : (Text.utf8 "??_R0?A" ++ bs).take 7 = Text.utf8 "??_R0?A" := rfl
  have hdrop : (Text.utf8 "??_R0?A" ++ bs).drop 7 = bs := rfl
  have hscopes : (Scope.ofList (ns.map .plain)).toList.map Name.demangled = ns.map .plain := by
    rw [toList_ofList, List.map_map]
    rfl
  simp only [demangle?, hmark, hdrop, htag, guard_true, Option.pure_def, Option.bind_eq_bind,
    Option.bind_some, hparse, hscopes]
  rfl

end Pdb.Decorated
