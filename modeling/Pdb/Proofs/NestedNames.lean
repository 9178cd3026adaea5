import Pdb.Proofs.Nesting
import Pdb.Proofs.PlainNames

/-! # Nested records by their unique names

`UniqueName.nests` puts a letter and a name in front of what stands behind the letter of the outer
unique name. Between identifiers there are marks, so two such texts are the same only if their names
are (`marked_inj`), and a listed record is told from another name for a record defined elsewhere.

Behind the letter of an enumeration there is a digit, which `nests` leaves out. Hence a nested
enumeration is recognised only where it is listed under a name with that digit in front, which is no
identifier, and the table of nested records has no entry for it (`nesting?_of_identifiers`).
-/

namespace Pdb

theorem Text.utf8_injective : Function.Injective Text.utf8 :=
  Function.LeftInverse.injective Text.lossy_utf8

/-! ### Texts with marks -/

namespace UniqueName
variable {ms ns : List Bytes}

theorem append_mark_inj {a b x y : Bytes} (ha : 0x40 ∉ a) (hb : 0x40 ∉ b)
    (h : a ++ 0x40 :: x = b ++ 0x40 :: y) : a = b ∧ x = y := by
  -- what stands in front of its first mark is told from a text
  have hfront {c z : Bytes} (hc : 0x40 ∉ c) : (c ++ 0x40 :: z).takeWhile (· != 0x40) = c := by
    have hinner : ∀ d ∈ c, (d != 0x40) = true := fun d hd => bne_iff_ne.2 fun heq => hc (heq ▸ hd)
    rw [List.takeWhile_append_of_pos hinner]
    simp
  obtain rfl : a = b := by rw [← hfront (z := x) ha, h, hfront hb]
  exact ⟨rfl, (List.cons.inj (List.append_cancel_left h)).2⟩

theorem marked_inj (hm : ∀ n ∈ ms, 0x40 ∉ n) (hn : ∀ n ∈ ns, 0x40 ∉ n)
    (h : marked ms = marked ns) : ms = ns := by
  induction ms generalizing ns with
  | nil =>
    cases ns with
    | nil => rfl
    | cons n ns => simp [marked] at h
  | cons m ms ih =>
    cases ns with
    | nil => simp [marked] at h
    | cons n ns =>
      obtain ⟨hm, hms⟩ := List.forall_mem_cons.1 hm
      obtain ⟨hn, hns⟩ := List.forall_mem_cons.1 hn
      -- behind the first name of each list is the first mark
      have hends := congrArg (· ++ [0x40]) h
      simp only [marked_cons_append] at hends
      obtain ⟨rfl, hrest⟩ := append_mark_inj hm hn hends
      rw [ih hms hns (List.append_cancel_right hrest)]

end UniqueName

theorem not_mem_utf8_of_isIdentifier {n : String} (h : isIdentifier n) : 0x40 ∉ Text.utf8 n :=
  (isPlain_utf8 h).inner

/-! ### Unique names -/

namespace UniqueName
variable {parent child : TagSpelling} {scopes scopes' : List String} {m n : String}

theorem scopesEnd_concat (scopes : List String) (n : String) :
    scopesEnd (scopes ++ [n]) = Text.utf8 n ++ 0x40 :: scopesEnd scopes := by
  rw [scopesEnd, List.reverse_concat, List.map_cons, marked_cons_append]
  rfl

theorem scopesEnd_inj (h : ∀ n ∈ scopes, isIdentifier n) (h' : ∀ n ∈ scopes', isIdentifier n) :
    scopesEnd scopes = scopesEnd scopes' ↔ scopes = scopes' := by
  have hplain {ns : List String} (hns : ∀ n ∈ ns, isIdentifier n) :
      ∀ b ∈ ns.reverse.map Text.utf8, 0x40 ∉ b :=
    List.forall_mem_map.2 fun n hn => not_mem_utf8_of_isIdentifier (hns n (List.mem_reverse.1 hn))
  refine ⟨fun heq => ?_, congrArg scopesEnd⟩
  have hmarked := marked_inj (hplain h) (hplain h') (List.append_cancel_right heq)
  exact List.reverse_injective (Text.utf8_injective.list_map hmarked)

/-- The outer unique name is cut in three, and only its letter does not matter. -/
theorem nests_iff {outer name rest : Bytes} {letter : UInt8} :
    nests outer (Text.utf8 ".?A" ++ letter :: rest) name
      ↔ ∃ c scopes, outer = Text.utf8 ".?A" ++ c :: scopes ∧ name ++ 0x40 :: scopes = rest := by
  have hdrop (c : UInt8) (r : Bytes) : (Text.utf8 ".?A" ++ c :: r).drop 3 = c :: r := rfl
  have htake (c : UInt8) (r : Bytes) : (Text.utf8 ".?A" ++ c :: r).take 3 = Text.utf8 ".?A" := rfl
  rw [nests, hdrop]
  constructor
  · intro h
    split at h
    · next c scopes letter' _ hparent hchild =>
      obtain ⟨rfl, rfl⟩ := List.cons.inj hchild
      have hlength : (outer.take 3).length = (Text.utf8 ".?A").length := by
        have := congrArg List.length hparent
        rw [List.length_drop, List.length_cons] at this
        rw [List.length_take]
        exact Nat.min_eq_left (by omega)
      have heq := of_decide_eq_true h
      rw [List.append_assoc] at heq
      obtain ⟨hmark, hrest⟩ := List.append_inj heq hlength
      refine ⟨c, scopes, ?_, (List.cons.inj hrest).2⟩
      rw [← hmark, ← hparent, List.take_append_drop]
    · exact absurd h Bool.false_ne_true
  · rintro ⟨c, scopes, rfl, rfl⟩
    rw [hdrop, htake]
    simp

/-- A name that an enumeration is recognised by has its digit in front, whatever it is nested in. -/
theorem digit_of_nests {outer name : Bytes} (h : nests outer (encode .enum scopes) name) :
    ∃ r, name = 0x34 :: r := by
  rw [encode_eq, nests_iff] at h
  obtain ⟨_, _, -, heq⟩ := h
  cases name with
  | nil => exact absurd (List.cons.inj heq).1 (by decide)
  | cons b r => exact ⟨r, congrArg (· :: r) (List.cons.inj heq).1⟩

theorem ne_digit_cons {r : Bytes} (h : isIdentifier n) : Text.utf8 n ≠ 0x34 :: r := by
  intro heq
  obtain ⟨c, cs, hstart, hdigit, -⟩ := (isPlain_utf8 h).start
  obtain ⟨rfl, -⟩ := List.cons.inj (hstart.symm.trans heq)
  exact absurd hdigit (by decide)

/-- Between identifiers nothing but the kind of the inner tag can make a difference. -/
theorem nests_encode (hparent : parent ≠ .enum) (hscopes : ∀ k ∈ scopes, isIdentifier k)
    (hscopes' : ∀ k ∈ scopes', isIdentifier k) (hn : isIdentifier n) (hm : isIdentifier m) :
    nests (encode parent scopes) (encode child (scopes' ++ [n])) (Text.utf8 m)
      ↔ child ≠ .enum ∧ scopes' = scopes ∧ m = n := by
  by_cases hchild : child = .enum
  · subst hchild
    refine ⟨fun h => ?_, fun h => absurd rfl h.1⟩
    obtain ⟨r, hr⟩ := digit_of_nests h
    exact absurd hr (ne_digit_cons hm)
  · have houter : encode parent scopes = Text.utf8 ".?A" ++ parent.letter :: scopesEnd scopes := by
      rw [encode_eq, digits, if_neg hparent, List.nil_append]
    rw [encode_eq child, digits, if_neg hchild, List.nil_append, scopesEnd_concat, nests_iff]
    constructor
    · rintro ⟨c, rest, heq, h⟩
      obtain ⟨-, rfl⟩ := List.cons.inj (List.append_cancel_left (houter.symm.trans heq))
      obtain ⟨hname, hrest⟩ :=
        append_mark_inj (not_mem_utf8_of_isIdentifier hm) (not_mem_utf8_of_isIdentifier hn) h
      exact ⟨hchild, ((scopesEnd_inj hscopes hscopes').1 hrest).symm, Text.utf8_injective hname⟩
    · rintro ⟨-, rfl, rfl⟩
      exact ⟨parent.letter, _, houter, rfl⟩

end UniqueName

namespace TypeStream
open UniqueName
variable {s : TypeStream} {n n' : Nesting} {c c' p : TypeIndex} {scopes : List String}

/-! ### Listings by name -/

/-- How the record at `c` is listed in the one at `p` by its name, where both have unique names made
of identifiers. -/
structure NamedListing (s : TypeStream) (c p : TypeIndex) where
  parent : TagSpelling
  parent_ne : parent ≠ .enum
  child : TagSpelling
  scopes : List String
  isIdentifier_scopes : ∀ k ∈ scopes, isIdentifier k
  name : String
  isIdentifier_name : isIdentifier name
  list : TypeIndex
  outer_eq : s.nester? p = some (encode parent scopes, list)
  member : Member
  along : s.Along list member
  member_eq : member.nested? = some (c, Text.utf8 name)
  isRecord : c.isSimple = false
  inner : TypeRecord
  inner_eq : s.type? c = some inner
  inner_isTag : inner.isTag
  innerName_eq : inner.uniqueName? = some (encode child (scopes ++ [name]))

theorem NamedListing.nestedIn (l : s.NamedListing c p) (hchild : l.child ≠ .enum)
    (hc : c' = c ∨ l.inner.isForwardRef ∧ c' = s.definition c) : s.NestedIn c' p := by
  have hnests := (nests_encode l.parent_ne l.isIdentifier_scopes l.isIdentifier_scopes
    l.isIdentifier_name l.isIdentifier_name).2 ⟨hchild, rfl, rfl⟩
  have hin : s.nestedIn? (encode l.parent l.scopes) l.member = some (c, l.inner) :=
    nestedIn?_eq_some.2 ⟨Text.utf8 l.name, _, l.member_eq, l.isRecord, l.inner_eq, l.inner_isTag,
      l.innerName_eq, hnests⟩
  obtain ⟨l', hinner⟩ := exists_listing l.outer_eq l.along hin
  exact ⟨c, l', hinner ▸ hc⟩

/-! ### What the table says of them -/

theorem find?_of_nestedIn (h : s.nesting? = some n) (hc : s.NestedIn c p) :
    ∃ before after, s.indexes = before ++ p :: after
      ∧ (n.find? c = some p ∨ ∃ q ∈ after, n.find? c = some q ∧ s.NestedIn c q) := by
  obtain ⟨before, after, hsplit⟩ := List.append_of_mem hc.mem_indexes
  refine ⟨before, after, hsplit, ?_⟩
  rw [nesting?, hsplit, List.foldlM_append] at h
  obtain ⟨n₁, -, h⟩ := Option.bind_eq_some_iff.1 h
  rw [List.foldlM_cons] at h
  obtain ⟨n₂, hp, hafter⟩ := Option.bind_eq_some_iff.1 h
  rcases find?_foldlM_enterAll? hafter c with ⟨-, hsame⟩ | ⟨q, hq, hcq, hlast⟩
  · exact .inl (hsame.trans ((find?_enterAll? hp c).1 hc))
  · exact .inr ⟨q, hq, hlast, hcq⟩

/-- An enumeration is nested in a record only if that record lists it under a name with its digit in
front. -/
theorem NestedIn.exists_digit (h : s.NestedIn c p) (hc : s.uniqueName? c = some (encode .enum scopes)) :
    ∃ (c' : TypeIndex) (l : s.Listing c' p) (r : Bytes),
      (c = c' ∨ l.inner.isForwardRef ∧ c = s.definition c') ∧ l.name = 0x34 :: r := by
  obtain ⟨c', l, hlisted⟩ := h
  have hnests := l.nests
  rw [← Option.some.inj (hc.symm.trans (l.uniqueName?_eq hlisted))] at hnests
  obtain ⟨r, hr⟩ := digit_of_nests hnests
  exact ⟨c', l, r, hlisted, hr⟩

end TypeStream

/-- What a table of nested records says of records with names made of identifiers. -/
structure Nesting.Recognises (n : Nesting) (s : TypeStream) : Prop where
  record {c p c' : TypeIndex} (l : s.NamedListing c p) : l.child ≠ .enum →
    c' = c ∨ l.inner.isForwardRef ∧ c' = s.definition c →
    ∃ before after, s.indexes = before ++ p :: after
      ∧ (n.find? c' = some p ∨ ∃ q ∈ after, n.find? c' = some q ∧ s.NestedIn c' q)
  enum {c p : TypeIndex} {scopes : List String} :
    s.uniqueName? c = some (UniqueName.encode .enum scopes) → n.find? c = some p →
    ∃ (c' : TypeIndex) (l : s.Listing c' p) (r : Bytes),
      (c = c' ∨ l.inner.isForwardRef ∧ c = s.definition c') ∧ l.name = 0x34 :: r

namespace UniqueName

/-- A nested tag is told by its unique name if it is no enumeration. Where chains of members end there
is a table of nested records, in which a record that is listed by its name is in the record that lists
it, or in a later one that lists it as well. An enumeration is in no record that lists it by an
identifier. -/
theorem nests_recognised (s : TypeStream) (parent child : TagSpelling)
    (scopes scopes' : List String) (n m : String) (hparent : parent ≠ .enum)
    (h : ∀ k ∈ n :: m :: (scopes ++ scopes'), isIdentifier k) :
    (nests (encode parent scopes) (encode child (scopes' ++ [n])) (Text.utf8 m)
      ↔ child ≠ .enum ∧ scopes' = scopes ∧ m = n)
    ∧ (s.ChainsEnd → ∃ table, s.nesting? = some table)
    ∧ ∀ table, s.nesting? = some table → table.Recognises s := by
  refine ⟨?_, fun hends => ?_, fun table htable => ?_⟩
  · obtain ⟨hn, hrest⟩ := List.forall_mem_cons.1 h
    obtain ⟨hm, hrest⟩ := List.forall_mem_cons.1 hrest
    obtain ⟨hscopes, hscopes'⟩ := List.forall_mem_append.1 hrest
    exact nests_encode hparent hscopes hscopes' hn hm
  · exact Option.isSome_iff_exists.1 (TypeStream.isSome_nesting?_iff.2 fun _ _ _ list _ => hends list)
  · exact {
      record l hchild hc := TypeStream.find?_of_nestedIn htable (l.nestedIn hchild hc)
      enum hu hp := (TypeStream.nestedIn_of_nesting? htable hp).exists_digit hu }

/-- A stream with a structure at `0x1001`, enumerations at `0x1002` and `0x1003`, and at `0x1005` the
class that lists them, the second enumeration with its digit. -/
def nestedKinds : TypeStream :=
  let (empty, t) := TypeList.addFields {} []
  let (inner, t) := t.addClass .structure_ (Text.utf8 "S::T") (some (encode .struct ["S", "T"])) empty 1
    false
  let (enum, t) := t.addEnum (Text.utf8 "S::E") (some (encode .enum ["S", "E"])) ⟨0x74⟩ empty false
  let (enum', t) := t.addEnum (Text.utf8 "S::F") (some (encode .enum ["S", "F"])) ⟨0x74⟩ empty false
  let (list, t) := t.addFields [.nested inner (Text.utf8 "T"), .nested enum (Text.utf8 "E"),
    .nested enum' (Text.utf8 "4F")]
  let (_, t) := t.addClass .class_ (Text.utf8 "S") (some (encode .class_ ["S"])) list 1 false
  match TypeStream.parse .types (.ofBytes t.encode) with
  | .ok s => s
  | .error _ => .empty .types

/-- No list of members goes on, and no record but the class has anything nested in it. -/
theorem indexes_nestedKinds : ∀ ti ∈ nestedKinds.indexes, nestedKinds.nextList? ti = none
    ∧ (ti = ⟨0x1005⟩ ∨ nestedKinds.nester? ti = none) := by
  decide +kernel

theorem records_nestedKinds :
    nestedKinds.nester? ⟨0x1005⟩ = some (encode .class_ ["S"], ⟨0x1004⟩)
      ∧ nestedKinds.memberList? ⟨0x1004⟩ = some [.nested ⟨0x1001⟩ (Text.utf8 "T"),
        .nested ⟨0x1002⟩ (Text.utf8 "E"), .nested ⟨0x1003⟩ (Text.utf8 "4F")]
      ∧ ((nestedKinds.type? ⟨0x1001⟩).any fun t =>
        t.isTag && t.uniqueName? = some (encode .struct (["S"] ++ ["T"])))
      ∧ nestedKinds.uniqueName? ⟨0x1002⟩ = some (encode .enum (["S"] ++ ["E"]))
      ∧ nestedKinds.uniqueName? ⟨0x1003⟩ = some (encode .enum (["S"] ++ ["F"])) := by
  decide +kernel

theorem find?_nestedKinds :
    nestedKinds.nesting?.map (fun table => (table.find? ⟨0x1001⟩, table.find? ⟨0x1002⟩,
      table.find? ⟨0x1003⟩)) = some (some ⟨0x1005⟩, none, some ⟨0x1005⟩) := by
  rw [TypeStream.nesting?_of_nextList?_eq_none fun ti hti => (indexes_nestedKinds ti hti).1]
  decide +kernel

theorem nests_recognised_nestedKinds : ∃ table, nestedKinds.nesting? = some table
    ∧ table.find? ⟨0x1001⟩ = some ⟨0x1005⟩
    ∧ nests (encode .class_ ["S"]) (encode .struct (["S"] ++ ["T"])) (Text.utf8 "T")
    ∧ table.find? ⟨0x1003⟩ = some ⟨0x1005⟩
    ∧ ∃ (c : TypeIndex) (l : nestedKinds.Listing c ⟨0x1005⟩) (r : Bytes), l.name = 0x34 :: r := by
  obtain ⟨hnames, hsome, hall⟩ := nests_recognised nestedKinds .class_ .struct ["S"] ["S"] "T" "T"
    (by decide) (by decide)
  obtain ⟨table, htable⟩ := hsome
    (TypeStream.chainsEnd_of_nextList?_eq_none fun ti hti => (indexes_nestedKinds ti hti).1)
  obtain ⟨hrecord, henum⟩ := hall table htable
  obtain ⟨hclass, hlist, hinner, -, hsecond⟩ := records_nestedKinds
  refine ⟨table, htable, ?_, ?_, ?_⟩
  · obtain ⟨inner, hinner, hproperties⟩ := (Option.any_eq_true _ _).1 hinner
    obtain ⟨htag, hname⟩ := Bool.and_eq_true_iff.1 hproperties
    let l : nestedKinds.NamedListing ⟨0x1001⟩ ⟨0x1005⟩ := {
      parent := .class_, parent_ne := by decide, child := .struct, scopes := ["S"]
      isIdentifier_scopes := by decide, name := "T", isIdentifier_name := by decide
      list := ⟨0x1004⟩, outer_eq := hclass, member := .nested ⟨0x1001⟩ (Text.utf8 "T")
      along := .here hlist List.mem_cons_self, member_eq := rfl, isRecord := by decide
      inner, inner_eq := hinner, inner_isTag := htag, innerName_eq := of_decide_eq_true hname }
    obtain ⟨_, _, -, hentry | ⟨q, -, hentry, hq⟩⟩ :=
      hrecord l (show TagSpelling.struct ≠ .enum by decide) (.inl rfl)
    · exact hentry
    · obtain rfl | hnone := (indexes_nestedKinds q hq.mem_indexes).2
      · exact hentry
      · exact absurd hq (TypeStream.not_nestedIn_of_nester? hnone)
  · exact hnames.2 ⟨by decide, rfl, rfl⟩
  · have hentries := find?_nestedKinds
    rw [htable] at hentries
    have hentry := congrArg (·.2.2) (Option.some.inj hentries)
    obtain ⟨c, l, r, -, hr⟩ := henum hsecond hentry
    exact ⟨hentry, c, l, r, hr⟩

/-- The first enumeration is listed by its name, and the table has no entry for it. -/
theorem nested_enum_lost :
    nests (encode .class_ ["S"]) (encode .enum (["S"] ++ ["E"])) (Text.utf8 "E") = false
    ∧ nestedKinds.nester? ⟨0x1005⟩ = some (encode .class_ ["S"], ⟨0x1004⟩)
    ∧ nestedKinds.uniqueName? ⟨0x1002⟩ = some (encode .enum (["S"] ++ ["E"]))
    ∧ nestedKinds.Along ⟨0x1004⟩ (.nested ⟨0x1002⟩ (Text.utf8 "E"))
    ∧ ∃ table, nestedKinds.nesting? = some table ∧ table.find? ⟨0x1001⟩ = some ⟨0x1005⟩
      ∧ table.find? ⟨0x1002⟩ = none := by
  obtain ⟨hclass, hlist, -, hfirst, -⟩ := records_nestedKinds
  obtain ⟨table, htable, hentries⟩ := Option.map_eq_some_iff.1 find?_nestedKinds
  obtain ⟨hinner, hentry⟩ := Prod.mk.inj hentries
  have hmember : .nested ⟨0x1002⟩ (Text.utf8 "E") ∈ [Member.nested ⟨0x1001⟩ (Text.utf8 "T"),
      .nested ⟨0x1002⟩ (Text.utf8 "E"), .nested ⟨0x1003⟩ (Text.utf8 "4F")] :=
    List.mem_cons_of_mem _ List.mem_cons_self
  exact ⟨by decide, hclass, hfirst, .here hlist hmember, table, htable, hinner,
    (Prod.mk.inj hentry).1⟩

end UniqueName
end Pdb
