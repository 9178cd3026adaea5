import Pdb.Proofs.FieldWalk
import Pdb.Proofs.RecordWalk
import Pdb.Proofs.SymbolFile
import Pdb.Proofs.VtableOffset
import Pdb.Writer.Types

/-! # Looking up tags by name

The indexes of a stream ascend, so a search by name is told by what it finds (`mem_find_iff`), and the
first match is the one with the least index (`Ascending.find?_eq_some_iff`). The table of names ends at
the first record that cannot be read, which hides the tags behind it, and a name that is no well-formed
text is not looked up. Main statements: `find_visible`, `definition_eq_iff`.
-/

namespace Pdb

theorem TypeIndex.eq_of_toNat_eq {a b : TypeIndex} (h : a.toNat = b.toNat) : a = b :=
  congrArg TypeIndex.mk (UInt32.toNat_inj.1 h)

/-- Each index is greater than those in front of it. -/
def Ascending : List TypeIndex → Prop := List.Pairwise fun a b => a.toNat < b.toNat

namespace Ascending
variable {l : List TypeIndex} {p : TypeIndex → Bool} {ti c : TypeIndex}

theorem filter (h : Ascending l) (p : TypeIndex → Bool) : Ascending (l.filter p) :=
  List.Pairwise.filter p h

theorem takeWhile (h : Ascending l) (p : TypeIndex → Bool) : Ascending (l.takeWhile p) :=
  List.Pairwise.sublist (List.takeWhile_sublist p) h

theorem mem_takeWhile_iff (h : Ascending l) :
    ti ∈ l.takeWhile p ↔ ti ∈ l ∧ ∀ tj ∈ l, tj.toNat ≤ ti.toNat → p tj := by
  induction l with
  | nil => simp
  | cons a l ih =>
    obtain ⟨ha, hl⟩ := List.pairwise_cons.1 h
    rw [List.takeWhile_cons]
    split_ifs with hp
    · rw [List.mem_cons, ih hl, List.mem_cons]
      constructor
      · rintro (rfl | ⟨hmem, hall⟩)
        · refine ⟨.inl rfl, List.forall_mem_cons.2 ⟨fun _ => hp, fun tj htj hle => ?_⟩⟩
          exact absurd (ha tj htj) (Nat.not_lt.2 hle)
        · exact ⟨.inr hmem, List.forall_mem_cons.2 ⟨fun _ => hp, hall⟩⟩
      · rintro ⟨rfl | hmem, hall⟩
        · exact .inl rfl
        · exact .inr ⟨hmem, (List.forall_mem_cons.1 hall).2⟩
    · refine iff_of_false List.not_mem_nil ?_
      rintro ⟨hmem, hall⟩
      refine hp (hall a List.mem_cons_self ?_)
      rcases List.mem_cons.1 hmem with rfl | hmem
      · exact Nat.le_refl _
      · exact (ha ti hmem).le

theorem find?_eq_some_iff (h : Ascending l) :
    l.find? p = some c ↔ c ∈ l ∧ p c ∧ ∀ d ∈ l, p d → c.toNat ≤ d.toNat := by
  induction l with
  | nil => simp
  | cons a l ih =>
    obtain ⟨ha, hl⟩ := List.pairwise_cons.1 h
    cases hp : p a with
    | true =>
      rw [List.find?_cons_of_pos hp, Option.some.injEq]
      constructor
      · rintro rfl
        refine ⟨List.mem_cons_self, hp, List.forall_mem_cons.2 ⟨fun _ => Nat.le_refl _, ?_⟩⟩
        exact fun d hd _ => (ha d hd).le
      · rintro ⟨hmem, -, hleast⟩
        rcases List.mem_cons.1 hmem with rfl | hmem
        · rfl
        · exact absurd (ha c hmem) (Nat.not_lt.2 (hleast a List.mem_cons_self hp))
    | false =>
      have hne : ¬ p a = true := Bool.eq_false_iff.1 hp
      rw [List.find?_cons_of_neg hne, ih hl, List.mem_cons, List.forall_mem_cons]
      constructor
      · rintro ⟨hmem, hc, hleast⟩
        exact ⟨.inr hmem, hc, fun ha => absurd ha hne, hleast⟩
      · rintro ⟨rfl | hmem, hc, -, hleast⟩
        · exact absurd hc hne
        · exact ⟨hmem, hc, hleast⟩

end Ascending

/-! ### Names of records -/

namespace TypeRecord
open Decoder
variable {t t' : TypeRecord}

/-- Only records of tags have a display name. -/
theorem yields_decode {kind : Leaf} (h : kind.isUserDefined = false) :
    Yields (decode kind) fun t => t.tagName? = none := by
  unfold decode
  -- five kinds are read in steps of their own, and a kind of a tag is none of these
  split
  case h_13 | h_15 | h_16 | h_17 | h_18 =>
    repeat refine .bind_any fun _ => ?_
    exact .pure rfl
  case h_19 => exact .pure rfl
  all_goals first
    | exact .map fun _ _ _ _ => rfl
    | exact absurd h (by decide)

/-- The record `t` is a forward reference, and `t'` defines what it refers to. -/
structure DefinedBy (t t' : TypeRecord) : Prop where
  isForwardRef : t.isForwardRef
  isDefinition : t'.isForwardRef = false
  tagName?_eq : t'.tagName? = t.tagName?
  uniqueName?_eq (u : Bytes) : t.uniqueName? = some u → t'.uniqueName? = some u

end TypeRecord

theorem RawRecord.isUserDefined_of_tagName? {r : RawRecord} {t : TypeRecord} {name : Bytes}
    (ht : r.type? = some t) (h : t.tagName? = some name) : r.leaf.isUserDefined := by
  by_contra hkind
  obtain ⟨⟨t', rest⟩, hdecode, rfl⟩ := Option.map_eq_some_iff.1 ht
  have hnone := TypeRecord.yields_decode (Bool.eq_false_iff.2 hkind) _ _ _ hdecode
  exact nomatch hnone.symm.trans h

/-! ### The table of names -/

namespace TypeStream
variable {s : TypeStream} {kind : TypeStreamKind} {stream : PagedStream} {ti tj c d : TypeIndex}
  {name : Bytes} {t f : TypeRecord} {leaf : Leaf}

theorem type?_eq_some_iff : s.type? ti = some t ↔ ∃ r, s.record ti = .ok r ∧ r.type? = some t := by
  rw [type?_eq, Option.bind_eq_some_iff]
  constructor
  · rintro ⟨r, hr, ht⟩
    exact ⟨r, ok_of_toOption hr, ht⟩
  · rintro ⟨r, hr, ht⟩
    exact ⟨r, by rw [hr]; rfl, ht⟩

theorem displayName?_eq_some_iff : s.displayName? ti = some name
    ↔ ∃ t, s.type? ti = some t ∧ t.tagName? = some name := by
  simp only [type?_eq_some_iff]
  rw [displayName?]
  constructor
  · intro h
    obtain ⟨r, hr, h⟩ := Option.bind_eq_some_iff.1 h
    split_ifs at h
    obtain ⟨t, ht, hname⟩ := Option.bind_eq_some_iff.1 h
    exact ⟨t, ⟨r, ok_of_toOption hr, ht⟩, hname⟩
  · rintro ⟨t, ⟨r, hr, ht⟩, hname⟩
    rw [hr]
    show (if r.leaf.isUserDefined then _ else _) = _
    rw [if_pos (RawRecord.isUserDefined_of_tagName? ht hname), ht]
    exact hname

theorem mem_indexes_iff (h : parse kind stream = .ok s) : ti ∈ s.indexes
    ↔ s.first.toNat ≤ ti.toNat ∧ ti.toNat < s.first.toNat + s.size := by
  have hword := first_add_size_le h
  have hlast : s.last.toNat < 2 ^ 32 := s.last.val.toNat_lt
  rw [indexes, List.mem_map]
  constructor
  · rintro ⟨i, hi, rfl⟩
    rw [List.mem_range] at hi
    rw [TypeIndex.toNat_ofNat (by omega)]
    omega
  · rintro ⟨hle, hlt⟩
    refine ⟨ti.toNat - s.first.toNat, List.mem_range.2 (by omega), ?_⟩
    rw [Nat.add_sub_cancel' hle, TypeIndex.ofNat, TypeIndex.toNat, UInt32.ofNat_toNat]

theorem ascending_indexes (h : parse kind stream = .ok s) : Ascending s.indexes := by
  have hword := first_add_size_le h
  have hlast : s.last.toNat < 2 ^ 32 := s.last.val.toNat_lt
  rw [Ascending, indexes, List.pairwise_map]
  refine List.Pairwise.imp_of_mem (fun {i j} hi hj hlt => ?_) List.pairwise_lt_range
  rw [List.mem_range] at hi hj
  rw [TypeIndex.toNat_ofNat (by omega), TypeIndex.toNat_ofNat (by omega)]
  omega

/-- All records in front of an index can be read. -/
def Visible (s : TypeStream) (ti : TypeIndex) : Prop :=
  ∀ tj, s.first.toNat ≤ tj.toNat → tj.toNat < ti.toNat → (s.record tj).isOk

theorem mem_readable_iff (h : parse kind stream = .ok s) :
    ti ∈ s.readable ↔ (s.record ti).isOk ∧ s.Visible ti := by
  rw [readable, (ascending_indexes h).mem_takeWhile_iff]
  constructor
  · rintro ⟨hmem, hall⟩
    refine ⟨hall ti hmem (Nat.le_refl _), fun tj hle hlt => hall tj ?_ hlt.le⟩
    rw [mem_indexes_iff h] at hmem ⊢
    omega
  · rintro ⟨hok, hvisible⟩
    have hmem : ti ∈ s.indexes := by
      cases hr : s.record ti with
      | error e => rw [hr] at hok; exact nomatch hok
      | ok r => exact mem_indexes (by rw [hr]; rfl)
    refine ⟨hmem, fun tj htj hle => ?_⟩
    rcases Nat.lt_or_eq_of_le hle with hlt | heq
    · exact hvisible tj ((mem_indexes_iff h).1 htj).1 hlt
    · obtain rfl := TypeIndex.eq_of_toNat_eq heq
      exact hok

theorem ascending_find (h : parse kind stream = .ok s) (name : Bytes) : Ascending (s.find name) :=
  ((ascending_indexes h).takeWhile _).filter _

theorem mem_find_iff (h : parse kind stream = .ok s) : ti ∈ s.find name
    ↔ (∃ t, s.type? ti = some t ∧ t.tagName? = some name) ∧ s.Visible ti := by
  rw [find, List.mem_filter, mem_readable_iff h, decide_eq_true_iff, displayName?_eq_some_iff]
  constructor
  · rintro ⟨⟨-, hvisible⟩, hnamed⟩
    exact ⟨hnamed, hvisible⟩
  · rintro ⟨⟨t, ht, hname⟩, hvisible⟩
    obtain ⟨r, hr, -⟩ := type?_eq_some_iff.1 ht
    exact ⟨⟨by rw [hr]; rfl, hvisible⟩, t, ht, hname⟩

/-- A search by name finds the tags with that name in ascending order, up to the first record that
cannot be read. -/
theorem find_visible (h : parse kind stream = .ok s) (name : Bytes) : Ascending (s.find name)
    ∧ ∀ ti, ti ∈ s.find name
      ↔ (∃ t, s.type? ti = some t ∧ t.tagName? = some name) ∧ s.Visible ti :=
  ⟨ascending_find h name, fun _ => mem_find_iff h⟩

/-- A forward reference, a record on a page that the image does not have, and the definition. -/
def lostPage : PagedStream :=
  let (_, reference) := TypeList.addUnion {} (Text.utf8 "S") none .none 0 true
  let (_, definition) := TypeList.addUnion {} (Text.utf8 "S") none .none 1 false
  let header : TypeStreamHeader := ⟨TypeStreamHeader.currentVersion, 56, ⟨0x1000⟩, ⟨0x1003⟩, 984⟩
  let first := header.encode ++ List.replicate 36 0 ++ reference.recordBytes
    ++ [0xb6, 0x03, 0x06, 0x15] ++ List.replicate 436 0
  ⟨⟨first ++ definition.recordBytes ++ List.replicate 496 0⟩, ⟨9⟩, [0, 2, 1], 1040, by decide⟩

theorem find_visible_lostPage : ∃ s, parse .types lostPage = .ok s
    ∧ Ascending (s.find (Text.utf8 "S")) ∧ ⟨0x1000⟩ ∈ s.find (Text.utf8 "S") := by
  have hparse : (parse .types lostPage).toOption.map (fun s => (s.first,
      (s.type? ⟨0x1000⟩).bind TypeRecord.tagName?)) = some (⟨0x1000⟩, some (Text.utf8 "S")) := by
    decide +kernel
  obtain ⟨s, hs, hrecord⟩ := Option.map_eq_some_iff.1 hparse
  obtain ⟨hfirst, hname⟩ := Prod.mk.inj hrecord
  obtain ⟨hascending, hmem⟩ := find_visible (ok_of_toOption hs) (Text.utf8 "S")
  refine ⟨s, ok_of_toOption hs, hascending, (hmem _).2 ⟨Option.bind_eq_some_iff.1 hname, ?_⟩⟩
  rw [Visible, hfirst]
  exact fun tj hle hlt => absurd hle (Nat.not_le.2 hlt)

/-- The definition can be read and has the name, but is behind the record that cannot be read. -/
theorem definition_hidden : ∃ s, parse .types lostPage = .ok s
    ∧ (s.record ⟨0x1001⟩).isOk = false ∧ (s.type? ⟨0x1002⟩).bind TypeRecord.tagName? = some (Text.utf8 "S")
    ∧ s.find (Text.utf8 "S") = [⟨0x1000⟩] := by
  have hparse : (parse .types lostPage).toOption.map (fun s => ((s.record ⟨0x1001⟩).isOk,
      (s.type? ⟨0x1002⟩).bind TypeRecord.tagName?, s.find (Text.utf8 "S")))
      = some (false, some (Text.utf8 "S"), [⟨0x1000⟩]) := by
    decide +kernel
  obtain ⟨s, hs, hanswers⟩ := Option.map_eq_some_iff.1 hparse
  obtain ⟨hlost, hrest⟩ := Prod.mk.inj hanswers
  exact ⟨s, ok_of_toOption hs, hlost, Prod.mk.inj hrest⟩

/-! ### Definitions of forward references -/

/-- The record at `c` defines what the forward reference at `ti` refers to. -/
def DefinedAt (s : TypeStream) (ti c : TypeIndex) : Prop :=
  ∃ t t', s.type? ti = some t ∧ s.type? c = some t' ∧ s.leaf? c = s.leaf? ti ∧ t.DefinedBy t'

theorem DefinedAt.ne (h : s.DefinedAt ti c) : c ≠ ti := by
  rintro rfl
  obtain ⟨t, t', ht, ht', -, hby⟩ := h
  obtain rfl := Option.some.inj (ht.symm.trans ht')
  exact Bool.false_ne_true (hby.isDefinition.symm.trans hby.isForwardRef)

/-- The first definition of what the forward reference at `ti` refers to is at `c`, where it is found
by name. -/
structure Resolves (s : TypeStream) (ti c : TypeIndex) : Prop where
  definedAt : s.DefinedAt ti c
  least {d : TypeIndex} : s.DefinedAt ti d → c.toNat ≤ d.toNat
  visible : s.Visible c
  isText : ∃ t name, s.type? ti = some t ∧ t.tagName? = some name ∧ (Text.strict? name).isSome

theorem Resolves.unique (h : s.Resolves ti c) (h' : s.Resolves ti d) : c = d :=
  TypeIndex.eq_of_toNat_eq <| Nat.le_antisymm (h.least h'.definedAt) (h'.least h.definedAt)

theorem Visible.of_le (h : s.Visible c) (hle : d.toNat ≤ c.toNat) : s.Visible d :=
  fun tj hfirst hlt => h tj hfirst (hlt.trans_le hle)

theorem forwardRef?_eq_some_iff : s.forwardRef? ti = some (leaf, f, name)
    ↔ s.type? ti = some f ∧ s.leaf? ti = some leaf ∧ f.isForwardRef ∧ f.tagName? = some name
      ∧ (Text.strict? name).isSome := by
  rw [forwardRef?, type?_eq, leaf?]
  constructor
  · intro h
    obtain ⟨r, hr, h⟩ := Option.bind_eq_some_iff.1 h
    obtain ⟨t, ht, h⟩ := Option.bind_eq_some_iff.1 h
    obtain ⟨_, hforward, h⟩ := Option.bind_eq_some_iff.1 h
    obtain ⟨name', hname, h⟩ := Option.bind_eq_some_iff.1 h
    obtain ⟨text, htext, h⟩ := Option.bind_eq_some_iff.1 h
    cases h
    rw [Option.guard_eq_some'] at hforward
    exact ⟨by rw [hr]; exact ht, by rw [hr]; rfl, hforward, hname, by rw [htext]; rfl⟩
  · rintro ⟨ht, hleaf, hforward, hname, htext⟩
    obtain ⟨r, hr, ht⟩ := Option.bind_eq_some_iff.1 ht
    obtain ⟨text, htext⟩ := Option.isSome_iff_exists.1 htext
    rw [hr] at hleaf
    obtain rfl := Option.some.inj hleaf
    simp [hr, ht, hforward, hname, htext]

theorem defines_iff : s.defines leaf f c ↔ ∃ t, s.type? c = some t ∧ s.leaf? c = some leaf
    ∧ t.isForwardRef = false ∧ matches_ f t := by
  rw [defines, type?_eq, leaf?]
  cases s.record c with
  | error e =>
    constructor
    · rintro ⟨⟩
    · rintro ⟨_, ⟨⟩, _⟩
  | ok r =>
    simp only [Except.toOption, Option.bind_some, Option.map_some, Option.some.injEq, Bool.and_eq_true,
      decide_eq_true_iff]
    cases r.type? with
    | none => simp
    | some t => simp

theorem matches_iff (h : t.tagName? = f.tagName?) :
    matches_ f t ↔ ∀ u, f.uniqueName? = some u → t.uniqueName? = some u := by
  rw [matches_]
  cases f.uniqueName? with
  | none => simp [h]
  | some u => simp

/-- Among what is found by the name of the forward reference, the definitions are told by what they
are. -/
theorem mem_find_defines_iff (h : parse kind stream = .ok s) (hf : s.forwardRef? ti = some (leaf, f, name)) :
    c ∈ s.find name ∧ (c ≠ ti && s.defines leaf f c) ↔ s.DefinedAt ti c ∧ s.Visible c := by
  obtain ⟨ht, hleaf, hforward, hname, -⟩ := forwardRef?_eq_some_iff.1 hf
  rw [mem_find_iff h, Bool.and_eq_true, decide_eq_true_iff, defines_iff]
  constructor
  · rintro ⟨⟨⟨t, hc, hcname⟩, hvisible⟩, -, t', hc', hcleaf, hdefinition, hmatches⟩
    obtain rfl := Option.some.inj (hc.symm.trans hc')
    have htag : t.tagName? = f.tagName? := hcname.trans hname.symm
    refine ⟨⟨f, t, ht, hc, hcleaf.trans hleaf.symm, ?_⟩, hvisible⟩
    exact ⟨hforward, hdefinition, htag, (matches_iff htag).1 hmatches⟩
  · rintro ⟨⟨f', t, ht', hc, hcleaf, hby⟩, hvisible⟩
    obtain rfl := Option.some.inj (ht.symm.trans ht')
    have hne : c ≠ ti := DefinedAt.ne ⟨f, t, ht, hc, hcleaf, hby⟩
    exact ⟨⟨⟨t, hc, hby.tagName?_eq.trans hname⟩, hvisible⟩, hne, t, hc, hcleaf.trans hleaf,
      hby.isDefinition, (matches_iff hby.tagName?_eq).2 hby.uniqueName?_eq⟩

theorem definition_cases (h : parse kind stream = .ok s) (ti : TypeIndex) :
    (∃ c, s.Resolves ti c ∧ s.definition ti = c)
      ∨ (∀ c, ¬ s.Resolves ti c) ∧ s.definition ti = ti := by
  cases hf : s.forwardRef? ti with
  | none =>
    refine .inr ⟨fun c hc => ?_, by rw [definition, hf]⟩
    obtain ⟨f, _, ht, -, -, hby⟩ := hc.definedAt
    obtain ⟨f', name, ht', hname, htext⟩ := hc.isText
    obtain rfl := Option.some.inj (ht.symm.trans ht')
    obtain ⟨r, hr, -⟩ := type?_eq_some_iff.1 ht
    have hleaf : s.leaf? ti = some r.leaf := by rw [leaf?, hr]; rfl
    cases hf.symm.trans (forwardRef?_eq_some_iff.2 ⟨ht, hleaf, hby.isForwardRef, hname, htext⟩)
  | some found =>
    obtain ⟨leaf, f, name⟩ := found
    obtain ⟨ht, -, -, hname, htext⟩ := forwardRef?_eq_some_iff.1 hf
    have hdefinition : s.definition ti
        = ((s.find name).find? fun c => c ≠ ti && s.defines leaf f c).getD ti := by
      rw [definition, hf]
    cases hfirst : (s.find name).find? fun c => c ≠ ti && s.defines leaf f c with
    | none =>
      refine .inr ⟨fun c hc => ?_, by rw [hdefinition, hfirst, Option.getD_none]⟩
      obtain ⟨hmem, hdefines⟩ := (mem_find_defines_iff h hf).2 ⟨hc.definedAt, hc.visible⟩
      exact List.find?_eq_none.1 hfirst c hmem hdefines
    | some c =>
      refine .inl ⟨c, ?_, by rw [hdefinition, hfirst, Option.getD_some]⟩
      obtain ⟨hmem, hdefines, hleast⟩ := (ascending_find h name).find?_eq_some_iff.1 hfirst
      obtain ⟨hdefined, hvisible⟩ := (mem_find_defines_iff h hf).1 ⟨hmem, hdefines⟩
      refine ⟨hdefined, fun {d} hd => ?_, hvisible, f, name, ht, hname, htext⟩
      -- a definition in front of `c` would be visible, too
      by_contra hlt
      obtain ⟨hdmem, hddefines⟩ :=
        (mem_find_defines_iff h hf).2 ⟨hd, hvisible.of_le (Nat.le_of_not_le hlt)⟩
      exact hlt (hleast d hdmem hddefines)

/-- A forward reference leads to the first record that is of the same kind, is no forward reference
and has the same display name and, if it has one itself, the same unique name. It leads to itself if
there is none, but also if a record in front of the first one cannot be read or if the name is no text,
and so does all that is no forward reference. -/
theorem definition_eq_iff (h : parse kind stream = .ok s) (ti c : TypeIndex) :
    s.definition ti = c ↔ s.Resolves ti c ∨ c = ti ∧ ∀ d, ¬ s.Resolves ti d := by
  rcases definition_cases h ti with ⟨c', hc', hdefinition⟩ | ⟨hnone, hdefinition⟩
  · rw [hdefinition]
    constructor
    · rintro rfl
      exact .inl hc'
    · rintro (hc | ⟨-, hnone⟩)
      · exact hc'.unique hc
      · exact absurd hc' (hnone c')
  · rw [hdefinition]
    constructor
    · rintro rfl
      exact .inr ⟨rfl, hnone⟩
    · rintro (hc | ⟨rfl, -⟩)
      · exact absurd hc (hnone c)
      · rfl

/-- A forward reference with a unique name, and definitions with its display name. The second one has
its unique name, too. -/
def namesakes : TypeList :=
  let name := Text.utf8 "S"
  let (_, t) := TypeList.addClass {} .structure_ name (some (Text.utf8 ".?AUS@@")) .none 0 true
  let (_, t) := t.addClass .structure_ name (some (Text.utf8 ".?AUS@N@@")) .none 1 false
  let (_, t) := t.addClass .structure_ name (some (Text.utf8 ".?AUS@@")) .none 2 false
  (t.addClass .structure_ name (some (Text.utf8 ".?AUS@@")) .none 3 false).2

theorem definition_eq_iff_namesakes : ∃ s, parse .types (.ofBytes namesakes.encode) = .ok s
    ∧ s.Resolves ⟨0x1000⟩ ⟨0x1002⟩ := by
  have hparse : (parse .types (.ofBytes namesakes.encode)).toOption.map (·.definition ⟨0x1000⟩)
      = some ⟨0x1002⟩ := by
    decide +kernel
  obtain ⟨s, hs, hdefinition⟩ := Option.map_eq_some_iff.1 hparse
  refine ⟨s, ok_of_toOption hs, ?_⟩
  rcases (definition_eq_iff (ok_of_toOption hs) _ _).1 hdefinition with hresolves | ⟨heq, -⟩
  · exact hresolves
  · exact absurd heq (by decide)

/-- A union whose name is a byte that is no text. -/
def textlessUnion (isForward : Bool) : TypeRecord := .union {
  count := 0, properties := ⟨UInt16.ofNat (isForward.toNat * 2 ^ 7)⟩, fieldList := .none
  length := .ofNat (!isForward).toNat, name := [0xff], uniqueName := none }

def textless : TypeList :=
  ((TypeList.add {} .union (textlessUnion true)).2.add .union (textlessUnion false)).2

/-- The forward reference leads nowhere, and the definition is behind it. -/
theorem definition_textless : ∃ s, parse .types (.ofBytes textless.encode) = .ok s
    ∧ s.DefinedAt ⟨0x1000⟩ ⟨0x1001⟩ ∧ s.definition ⟨0x1000⟩ = ⟨0x1000⟩
    ∧ ¬ s.DefinedAt ⟨0x1000⟩ ⟨0x1000⟩ := by
  have hparse : (parse .types (.ofBytes textless.encode)).toOption.map (fun s =>
      (s.type? ⟨0x1000⟩, s.type? ⟨0x1001⟩, s.leaf? ⟨0x1000⟩, s.leaf? ⟨0x1001⟩, s.definition ⟨0x1000⟩))
      = some (some (textlessUnion true), some (textlessUnion false), some .union, some .union, ⟨0x1000⟩) := by
    decide +kernel
  obtain ⟨s, hs, hanswers⟩ := Option.map_eq_some_iff.1 hparse
  simp only [Prod.mk.injEq] at hanswers
  obtain ⟨href, hdef, hleaf, hleaf', hleads⟩ := hanswers
  have hby : TypeRecord.DefinedBy (textlessUnion true) (textlessUnion false) :=
    ⟨by decide, by decide, rfl, nofun⟩
  exact ⟨s, ok_of_toOption hs, ⟨_, _, href, hdef, hleaf'.trans hleaf.symm, hby⟩, hleads, fun h => h.ne rfl⟩

end TypeStream
end Pdb
