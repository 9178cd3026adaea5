import Pdb.Proofs.DecoratedNames
import Pdb.Proofs.Enclosing
import Pdb.Proofs.Placement

/-! # Names made of identifiers

The parts of a name that is made of identifiers can be told from its display name as well as from
its unique name, and both ways lead to the same namespaces. A unique name beyond the limits of
`UniqueName.parse?` is not read at all; the display name then takes its place.
-/

namespace Pdb

/-! ### Display names -/

namespace QualifiedName

/-- A character that neither separates nor changes the depth. -/
def isInner (c : Char) : Bool := c ∉ [':', '<', '>']

theorem partsFrom_cons {c : Char} {r : List Char} (h : isInner c) :
    partsFrom 0 (c :: r) = push c (partsFrom 0 r) := by
  have hne : c ≠ ':' ∧ c ≠ '<' ∧ c ≠ '>' := by simpa [isInner] using h
  rw [partsFrom.eq_3 _ _ _ fun r' heq _ => hne.1 heq, deepens, if_neg hne.2.1, if_neg hne.2.2]
  rfl

theorem partsFrom_append {p r : List Char} (h : ∀ c ∈ p, isInner c) :
    partsFrom 0 (p ++ r) = p.foldr push (partsFrom 0 r) := by
  induction p with
  | nil => rfl
  | cons c p ih =>
    obtain ⟨hc, hp⟩ := List.forall_mem_cons.1 h
    rw [List.cons_append, partsFrom_cons hc, ih hp, List.foldr_cons]

/-- Joined parts are found again. -/
theorem parts_join {p : List Char} {ps : List (List Char)}
    (h : ∀ q ∈ p :: ps, ∀ c ∈ q, isInner c) : parts (join (p :: ps)) = p :: ps := by
  induction ps generalizing p with
  | nil =>
    have := partsFrom_append (r := []) (h p List.mem_cons_self)
    rw [List.append_nil, partsFrom, foldr_push, List.append_nil] at this
    rwa [join, List.intercalate_singleton]
  | cons q ps ih =>
    obtain ⟨hp, hps⟩ := List.forall_mem_cons.1 h
    have hjoin : join (p :: q :: ps) = p ++ ':' :: ':' :: join (q :: ps) := by
      rw [join, List.intercalate_cons_cons]
      simp [join]
    have hrest : partsFrom 0 (join (q :: ps)) = q :: ps := ih hps
    rw [parts, hjoin, partsFrom_append hp, partsFrom, if_pos rfl, hrest, foldr_push, List.append_nil]

end QualifiedName

/-! ### Plain names -/

def isIdentifierChar (c : Char) : Bool := c.isAlphanum || c = '_' || 0x80 ≤ c.toNat

/-- Letters, digits and underscores, without a digit in front. What is beyond ASCII may be a letter. -/
def isIdentifier (n : String) : Bool :=
  n.toList.head?.any (! ·.isDigit) && n.toList.all isIdentifierChar

def TagSpelling.code : TagSpelling → String
  | .union => "T"
  | .struct => "U"
  | .class_ => "V"
  | .interface => "Y"
  | .enum => "W4"

theorem TagSpelling.ofLetter?_letter (tag : TagSpelling) : ofLetter? tag.letter = some tag := by
  cases tag <;> rfl

/-- The code of an enumeration also has a digit, for the type under it. -/
theorem TagSpelling.utf8_code (tag : TagSpelling) :
    Text.utf8 tag.code = tag.letter :: (if tag = .enum then [0x34] else []) := by
  cases tag <;> rfl

/-- The unique name of a tag whose names, outermost first, are all plain. -/
def UniqueName.encode (tag : TagSpelling) (names : List String) : Bytes :=
  Text.utf8 (".?A" ++ tag.code) ++ (marked (names.reverse.map Text.utf8) ++ [0x40])

def NamePart.plain (n : String) : NamePart := ⟨Text.utf8 n, false⟩

section Identifiers
variable {c : Char} {n : String}

theorem isDigit_iff : c.isDigit ↔ 0x30 ≤ c.toNat ∧ c.toNat ≤ 0x39 := by
  rw [Char.isDigit, Bool.and_eq_true, decide_eq_true_iff, decide_eq_true_iff]
  exact Iff.rfl

theorem isAlpha_iff : c.isAlpha ↔
    0x41 ≤ c.toNat ∧ c.toNat ≤ 0x5a ∨ 0x61 ≤ c.toNat ∧ c.toNat ≤ 0x7a := by
  have hupper : c.isUpper = decide ('A'.val ≤ c.val ∧ c.val ≤ 'Z'.val) := rfl
  have hlower : c.isLower = (decide ('a'.val ≤ c.val) && decide (c.val ≤ 'z'.val)) := rfl
  show (c.isUpper || c.isLower) = true ↔ _
  rw [hupper, hlower, Bool.or_eq_true, Bool.and_eq_true, decide_eq_true_iff, decide_eq_true_iff,
    decide_eq_true_iff]
  exact Iff.rfl

theorem toNat_of_isIdentifierChar (h : isIdentifierChar c) :
    0x30 ≤ c.toNat ∧ c.toNat ≤ 0x39 ∨ 0x41 ≤ c.toNat ∧ c.toNat ≤ 0x5a ∨ c.toNat = 0x5f
      ∨ 0x61 ≤ c.toNat ∧ c.toNat ≤ 0x7a ∨ 0x80 ≤ c.toNat := by
  rw [isIdentifierChar, Char.isAlphanum, Bool.or_eq_true, Bool.or_eq_true, Bool.or_eq_true,
    isAlpha_iff, isDigit_iff, decide_eq_true_iff, decide_eq_true_iff] at h
  obtain ((h | h) | rfl) | h := h
  · omega
  · omega
  · exact .inr (.inr (.inl rfl))
  · omega

theorem toNat_of_mem_utf8 (h : isIdentifier n) {b : UInt8} (hb : b ∈ Text.utf8 n) :
    0x30 ≤ b.toNat ∧ b.toNat ≤ 0x39 ∨ 0x41 ≤ b.toNat := by
  obtain ⟨c, hc, heq⟩ | hb := Text.mem_utf8 hb
  · have := toNat_of_isIdentifierChar (List.all_eq_true.1 (Bool.and_eq_true_iff.1 h).2 c hc)
    omega
  · omega

theorem isPlain_utf8 (h : isIdentifier n) : Decorated.Parser.IsPlain (Text.utf8 n) := by
  refine ⟨?_, fun hat => by simpa using toNat_of_mem_utf8 h hat⟩
  have hbytes (b : UInt8) (hb : b ∈ Text.utf8 n) := toNat_of_mem_utf8 h hb
  obtain ⟨hhead, -⟩ := Bool.and_eq_true_iff.1 h
  obtain ⟨c, hc, hdigit⟩ := (Option.any_eq_true _ _).1 hhead
  rw [Bool.not_eq_true', Bool.eq_false_iff, Ne, isDigit_iff] at hdigit
  obtain ⟨cs, hcs⟩ := List.head?_eq_some_iff.1 hc
  obtain ⟨b, bs, hb⟩ := List.exists_cons_of_ne_nil (String.utf8EncodeChar_ne_nil (c := c))
  have hutf8 : Text.utf8 n = b :: (bs ++ cs.flatMap String.utf8EncodeChar) := by
    rw [Text.utf8, hcs, List.flatMap_cons, hb, List.cons_append]
  have hlead := hbytes b (hutf8 ▸ List.mem_cons_self)
  have hchar := Text.mem_utf8EncodeChar (hb ▸ List.mem_cons_self : b ∈ String.utf8EncodeChar c)
  refine ⟨b, _, hutf8, ?_, ?_⟩
  · rw [Decorated.Parser.digit, if_neg]
    rw [UInt8.le_iff_toNat_le, UInt8.le_iff_toNat_le]
    rintro ⟨hlo, hhi⟩
    have hlo' : 0x30 ≤ b.toNat := hlo
    have hhi' : b.toNat ≤ 0x39 := hhi
    omega
  · rintro rfl
    simp at hlead

/-- No character of an identifier is part of a separator or of template arguments. -/
theorem isInner_of_isIdentifier (h : isIdentifier n) (hc : c ∈ n.toList) :
    QualifiedName.isInner c := by
  have hchar := toNat_of_isIdentifierChar (List.all_eq_true.1 (Bool.and_eq_true_iff.1 h).2 c hc)
  refine decide_eq_true fun hmem => ?_
  simp only [List.mem_cons, List.not_mem_nil, or_false] at hmem
  rcases hmem with rfl | rfl | rfl <;> simp at hchar

end Identifiers

/-! ### Unique names of plain names -/

/-- The type that a tag of a kind is for demanglers, which take an interface for a structure. -/
def TagSpelling.described (symbol : DemangledSymbol) : TagSpelling → DemangledType
  | .union => .union symbol
  | .struct => .struct symbol
  | .interface => .struct symbol
  | .class_ => .class_ symbol
  | .enum => .enum symbol

/-- A type descriptor whose name is made of identifiers is taken apart into these. -/
def Demangler.ReadsIdentifiers (demangler : Demangler) : Prop :=
  ∀ (tag : TagSpelling) (scopes : List String) (name : String),
    (∀ n ∈ scopes ++ [name], isIdentifier n) →
    demangler.demangle?
        (UniqueName.descriptorName tag ((UniqueName.encode tag (scopes ++ [name])).drop 4))
      = some {
        isTypeDescriptor := true, scopes := []
        described? := some <| tag.described
          ⟨.plain (Text.utf8 name), scopes.reverse.map fun n => .plain (Text.utf8 n)⟩ }

namespace UniqueName
variable {tag : TagSpelling} {scopes : List String} {name : String}

/-- Marked texts are text. -/
theorem exists_utf8_eq_marked (names : List String) :
    ∃ s, Text.utf8 s = marked (names.map Text.utf8) ++ [0x40] := by
  induction names with
  | nil => exact ⟨"@", rfl⟩
  | cons n names ih =>
    obtain ⟨s, hs⟩ := ih
    refine ⟨n ++ ("@" ++ s), ?_⟩
    rw [Text.utf8_append, Text.utf8_append, hs, List.map_cons, marked_cons_append]
    rfl

/-- What stands between the letter of a tag and its names. -/
def digits (tag : TagSpelling) : Bytes := if tag = .enum then [0x34] else []

/-- The names of scopes, outermost first, behind the name that they are the scopes of. -/
def scopesEnd (scopes : List String) : Bytes := marked (scopes.reverse.map Text.utf8) ++ [0x40]

theorem encode_eq (tag : TagSpelling) (scopes : List String) :
    encode tag scopes = Text.utf8 ".?A" ++ tag.letter :: (digits tag ++ scopesEnd scopes) := by
  rw [encode, Text.utf8_append, TagSpelling.utf8_code, List.append_assoc]
  rfl

theorem drop_encode (tag : TagSpelling) (scopes : List String) :
    (encode tag scopes).drop 4 = digits tag ++ scopesEnd scopes := by
  rw [encode_eq]
  rfl

theorem exists_strict?_drop_encode (tag : TagSpelling) (scopes : List String) :
    ∃ cs, Text.strict? ((encode tag scopes).drop 4) = some cs := by
  obtain ⟨s, hs⟩ := exists_utf8_eq_marked scopes.reverse
  have hdigits : digits tag = Text.utf8 (if tag = .enum then "4" else "") := by cases tag <;> rfl
  refine ⟨((if tag = .enum then "4" else "") ++ s).toList, ?_⟩
  rw [drop_encode, scopesEnd, ← hs, hdigits, ← Text.utf8_append, Text.strict?_utf8]

theorem mapM_partOf_plain (ns : List String) :
    (ns.map fun n => DemangledName.plain (Text.utf8 n)).mapM partOf = some (ns.map .plain) := by
  induction ns with
  | nil => rfl
  | cons n ns ih =>
    rw [List.map_cons, List.mapM_cons, ih]
    rfl

theorem described?_described (tag : TagSpelling) (symbol : DemangledSymbol) :
    described? tag ⟨true, [], some (tag.described symbol)⟩ = some symbol := by
  cases tag <;> rfl

/-- A unique name made of identifiers is taken apart into these, unless it is beyond the limits. -/
theorem parse?_encode {demangler : Demangler} (hreads : demangler.ReadsIdentifiers) (tag : TagSpelling)
    (h : ∀ n ∈ scopes ++ [name], isIdentifier n) :
    parse? demangler (encode tag (scopes ++ [name])) = none
      ∨ parse? demangler (encode tag (scopes ++ [name]))
        = some ⟨tag, scopes.map .plain, .plain name⟩ := by
  have hmark : (encode tag (scopes ++ [name])).take 3 = Text.utf8 ".?A" := by rw [encode_eq]; rfl
  have hletter : (encode tag (scopes ++ [name]))[3]? = some tag.letter := by rw [encode_eq]; rfl
  obtain ⟨cs, hstrict⟩ := exists_strict?_drop_encode tag (scopes ++ [name])
  have hscopes := mapM_partOf_plain scopes
  by_cases hlimits : (encode tag (scopes ++ [name])).length ≤ maxLength
      ∧ nestingEstimate (encode tag (scopes ++ [name])) ≤ maxNesting
  · refine .inr ?_
    rw [parse?, hmark, hletter]
    simp only [hlimits, guard_true, Option.bind_eq_bind, Option.bind_some, Option.pure_def, hstrict,
      TagSpelling.ofLetter?_letter, hreads tag scopes name h, described?_described, ← List.map_reverse,
      List.reverse_reverse, hscopes]
    rfl
  · refine .inl ?_
    rw [parse?]
    simp only [hlimits, guard_false, Option.bind_eq_bind, Option.failure_eq_none, Option.bind_none]

end UniqueName

theorem Decorated.readsIdentifiers_demangler : demangler.ReadsIdentifiers := by
  intro tag scopes name h
  have hplain : ∀ m ∈ Text.utf8 name :: scopes.reverse.map Text.utf8, Parser.IsPlain m := by
    rw [← List.map_cons, ← List.reverse_concat]
    exact List.forall_mem_map.2 fun n hn => isPlain_utf8 (h n (List.mem_reverse.1 hn))
  have hscopes : scopes.reverse.map (fun n => DemangledName.plain (Text.utf8 n))
      = (scopes.reverse.map Text.utf8).map .plain := by
    rw [List.map_map]
    rfl
  rw [hscopes, UniqueName.drop_encode, UniqueName.scopesEnd, List.reverse_concat, List.map_cons,
    UniqueName.descriptorName, List.append_assoc, List.append_assoc]
  refine @demangle?_marked _ _ _ (tag.described ·) hplain ?_
  cases tag <;> rfl

/-! ### Namespaces -/

/-- The innermost of namespaces, each in the one before it. -/
def TypeSystem.namespacesIn {σ : Type} [TypeSystem σ] : σ → DeclContext → List String →
    DeclContext × σ
  | s, c, [] => (c, s)
  | s, c, name :: names =>
    namespacesIn (TypeSystem.namespaceIn s name c).2 (TypeSystem.namespaceIn s name c).1 names

theorem Creation.runOn_namespaces {σ : Type} [TypeSystem σ] (c : DeclContext) (names : List String)
    (s : TypeStore σ) : (namespaces c names).runOn s
      = .ok (some (TypeSystem.namespacesIn s.system c names).1,
          { s with system := (TypeSystem.namespacesIn s.system c names).2 }) := by
  induction names generalizing c s with
  | nil => rfl
  | cons name names ih =>
    rw [namespaces, runOn_bind]
    exact ih _ _

namespace TypeModel
variable {m m' : TypeModel} {c c' : DeclContext} {names : List String} {name : String}

/-- `c'` is the innermost of namespaces with these names, each in the one before it and the first of
them in `c`. -/
def Leads (m : TypeModel) (c : DeclContext) : List String → DeclContext → Prop
  | [], c' => c' = c
  | name :: names, c' => ∃ i, m.namespaces[i]? = some (name, c) ∧ m.Leads (.namespace_ i) names c'

/-- Only namespaces have been added, at most one for each of the names, and none that there was. -/
structure Adds (m m' : TypeModel) (names : List String) : Prop where
  types : m'.types = m.types
  tags : m'.tags = m.tags
  namespaces : ∃ new, m'.namespaces.toList = m.namespaces.toList ++ new
    ∧ (new.map (·.1)).Sublist names ∧ new.Nodup ∧ ∀ x ∈ new, x ∉ m.namespaces.toList

theorem Adds.getElem? {i : Nat} {x : String × DeclContext} (h : m.Adds m' names)
    (hi : m.namespaces[i]? = some x) : m'.namespaces[i]? = some x := by
  obtain ⟨new, hnew, _⟩ := h.namespaces
  rw [← Array.getElem?_toList] at hi ⊢
  rw [hnew, List.getElem?_append_left (List.getElem?_eq_some_iff.1 hi).1, hi]

/-- One namespace is found, or it is the only one that is new. -/
theorem adds_namespaceIn (m : TypeModel) (name : String) (c : DeclContext) :
    m.Adds (m.namespaceIn name c).2 [name] := by
  rw [namespaceIn]
  split
  · exact ⟨rfl, rfl, [], by simp⟩
  · next hnone =>
    refine ⟨rfl, rfl, [(name, c)], by simp, by simp, by simp, ?_⟩
    intro x hx hmem
    have := Array.findIdx?_eq_none_iff.1 hnone x (Array.mem_toList_iff.1 hmem)
    exact absurd (List.mem_singleton.1 hx) (by simpa using this)

theorem Adds.trans {m'' : TypeModel} {names' : List String} (h : m.Adds m' names)
    (h' : m'.Adds m'' names') : m.Adds m'' (names ++ names') := by
  obtain ⟨new, heq, hsub, hnodup, hnew⟩ := h.namespaces
  obtain ⟨new', heq', hsub', hnodup', hnew'⟩ := h'.namespaces
  refine ⟨h'.types.trans h.types, h'.tags.trans h.tags, new ++ new', ?_, ?_, ?_, ?_⟩
  · rw [heq', heq, List.append_assoc]
  · rw [List.map_append]
    exact hsub.append hsub'
  · refine List.Nodup.append hnodup hnodup' fun x hx hx' => ?_
    exact hnew' x hx' (heq ▸ List.mem_append_right _ hx)
  · intro x hx hmem
    rcases List.mem_append.1 hx with hx | hx
    · exact hnew x hx hmem
    · exact hnew' x hx (heq ▸ List.mem_append_left _ hmem)

/-- By induction on the names: what is found for the first one stays where it is. -/
theorem namespacesIn_spec (m : TypeModel) (c : DeclContext) (names : List String) :
    (TypeSystem.namespacesIn m c names).2.Leads c names (TypeSystem.namespacesIn m c names).1
      ∧ m.Adds (TypeSystem.namespacesIn m c names).2 names := by
  induction names generalizing m c with
  | nil => exact ⟨rfl, rfl, rfl, [], by simp [TypeSystem.namespacesIn]⟩
  | cons name names ih =>
    obtain ⟨hleads, hadds⟩ := ih (m.namespaceIn name c).2 (m.namespaceIn name c).1
    obtain ⟨i, hi, hget⟩ := exists_namespaceIn m name c
    refine ⟨⟨i, hadds.getElem? hget, ?_⟩, (adds_namespaceIn m name c).trans hadds⟩
    rw [← hi]
    exact hleads

/-- Namespaces that exist are found, if no two of them have the same name and the same parent. -/
theorem namespacesIn_of_leads (hnodup : m.namespaces.toList.Nodup) (h : m.Leads c names c') :
    TypeSystem.namespacesIn m c names = (c', m) := by
  induction names generalizing c with
  | nil => exact congrArg (·, m) h.symm
  | cons name names ih =>
    obtain ⟨i, hi, hleads⟩ := h
    have hfound : m.namespaceIn name c = (.namespace_ i, m) := by
      obtain ⟨hlt, hget⟩ := Array.getElem?_eq_some_iff.1 hi
      have hindex : m.namespaces.findIdx? (· = (name, c)) = some i := by
        refine Array.findIdx?_eq_some_iff_getElem.2 ⟨hlt, decide_eq_true hget, fun j hj hfirst => ?_⟩
        have hsame : m.namespaces.toList[j]? = m.namespaces.toList[i]? := by
          rw [Array.getElem?_toList, Array.getElem?_toList, hi,
            Array.getElem?_eq_getElem (hj.trans hlt), of_decide_eq_true hfirst]
        exact List.nodup_iff_getElem?_ne_getElem?.1 hnodup j i hj hlt hsame
      rw [namespaceIn, hindex]
    show TypeSystem.namespacesIn (m.namespaceIn name c).2 (m.namespaceIn name c).1 names = _
    rw [hfound]
    exact ih hleads

end TypeModel

/-! ### Declarations -/

namespace TypeGraph
variable {σ : Type} [TypeSystem σ] {g : TypeGraph} {want : TypeIndex → Creation σ TypeObject}
  {ti : TypeIndex} {scopes : List String} {name : String}

/-- The outcome of a declaration in namespaces. -/
def declared (s : TypeStore σ) (place : List String × String) :
    Option (DeclContext × String) × TypeStore σ :=
  let r := TypeSystem.namespacesIn s.system .translationUnit place.1
  (some (r.1, place.2), { s with system := r.2 })

theorem runOn_namespaceContext (isTemplate : Bool) (whole : String) (s : TypeStore σ) :
    (namespaceContext scopes isTemplate name whole).runOn s
      = .ok (declared s (namespacePlace scopes isTemplate name whole)) := by
  rw [namespaceContext, namespacePlace]
  cases isTemplate with
  | true => rfl
  | false =>
    show (Creation.namespaces .translationUnit scopes >>= _).runOn s = _
    rw [Creation.runOn_bind, Creation.runOn_namespaces]
    rfl

/-- A record with no record around it is declared in namespaces. -/
theorem runOn_declaration (h : g.nesting.find? ti = none) (name : Bytes) (unique? : Option Bytes)
    (s : TypeStore σ) :
    (g.declaration want ti name unique?).runOn s
      = .ok (declared s (g.outerPlace ti name unique?)) := by
  rw [declaration, outerPlace]
  cases hu : unique?.bind (UniqueName.parse? g.demangler) with
  | some u =>
    have hinner : g.innerName name unique? = Text.lossy u.identifier.text := by rw [innerName, hu]
    simp only [decoratedDeclaration, h, Option.isSome_none, hinner]
    exact runOn_namespaceContext _ _ s
  | none =>
    have hinner : g.innerName name unique?
        = String.ofList (QualifiedName.identifier (Text.lossy name).toList) := by rw [innerName, hu]
    have hattempt : (Creation.attempt (do tagContext want (← Creation.ofOption (g.nesting.find? ti)))
        : Creation σ (Option DeclContext)).runOn s = .ok (some none, s) := by
      rw [h]
      rfl
    simp only [plainDeclaration, hinner]
    rw [Creation.runOn_bind, hattempt]
    exact runOn_namespaceContext _ _ s

theorem parts_join_of_isIdentifier (h : ∀ n ∈ scopes ++ [name], isIdentifier n) :
    QualifiedName.parts (Text.join "::" (scopes ++ [name])).toList
      = scopes.map String.toList ++ [name.toList] := by
  obtain ⟨n, ns, hcons⟩ := List.exists_cons_of_ne_nil
    (List.append_ne_nil_of_right_ne_nil scopes (List.cons_ne_nil name []))
  have hmap : scopes.map String.toList ++ [name.toList] = n.toList :: ns.map String.toList := by
    rw [← List.map_cons, ← hcons, List.map_append]
    rfl
  rw [hmap, Text.join, String.toList_intercalate, hcons, List.map_cons]
  refine QualifiedName.parts_join ?_
  rw [← List.map_cons, ← hcons]
  exact List.forall_mem_map.2 fun m hm c hc => isInner_of_isIdentifier (h m hm) hc

/-- The namespaces and the name that are told from a display name. -/
theorem outerPlace_join (ti : TypeIndex) (h : ∀ n ∈ scopes ++ [name], isIdentifier n) :
    g.outerPlace ti (Text.utf8 (Text.join "::" (scopes ++ [name]))) none = (scopes, name) := by
  have hparts := parts_join_of_isIdentifier h
  have hscopes : (QualifiedName.scopes (Text.join "::" (scopes ++ [name])).toList).map String.ofList
      = scopes := by
    rw [QualifiedName.scopes, hparts, List.dropLast_concat, List.map_map]
    exact (List.map_congr_left fun _ _ => String.ofList_toList).trans (List.map_id _)
  have hname : String.ofList (QualifiedName.identifier (Text.join "::" (scopes ++ [name])).toList)
      = name := by
    rw [QualifiedName.identifier, hparts, List.getLastD_concat, String.ofList_toList]
  have htemplate : scopes.any (·.contains '<') = false := by
    refine List.any_eq_false.2 fun n hn hmem => ?_
    rw [String.contains_char_eq, decide_eq_true_iff] at hmem
    exact absurd (isInner_of_isIdentifier (h n (List.mem_append_left _ hn)) hmem) (by decide)
  have hplain : (none : Option Bytes).bind (UniqueName.parse? g.demangler) = none := rfl
  simp only [outerPlace, innerName, hplain, Text.lossy_utf8, hscopes, hname, htemplate]
  rfl

/-- A unique name that is read tells the same, and one that is not read tells nothing. -/
theorem outerPlace_encode (hreads : g.demangler.ReadsIdentifiers)
    (h : ∀ n ∈ scopes ++ [name], isIdentifier n) (hparent : g.nesting.find? ti = none) (tag : TagSpelling) :
    g.outerPlace ti (Text.utf8 (Text.join "::" (scopes ++ [name])))
      (some (UniqueName.encode tag (scopes ++ [name]))) = (scopes, name) := by
  rcases UniqueName.parse?_encode hreads tag h with hnone | hsome
  · have hbind : (some (UniqueName.encode tag (scopes ++ [name]))).bind (UniqueName.parse? g.demangler)
        = none := hnone
    rw [← outerPlace_join (g := g) ti h]
    simp only [outerPlace, innerName, hbind]
    rfl
  · have hbind : (some (UniqueName.encode tag (scopes ++ [name]))).bind (UniqueName.parse? g.demangler)
        = some ⟨tag, scopes.map .plain, .plain name⟩ := hsome
    have hscopes : (scopes.map NamePart.plain).map (fun p => Text.lossy p.text) = scopes := by
      rw [List.map_map]
      exact (List.map_congr_left fun n _ => Text.lossy_utf8 n).trans (List.map_id _)
    have htemplate : (scopes.map NamePart.plain).any (·.isTemplate) = false := by
      rw [List.any_map]
      exact List.any_eq_false.2 fun _ _ => Bool.false_ne_true
    simp only [outerPlace, innerName, hbind, hparent, Option.isSome_none, hscopes,
      UniqueName.anyScopeIsTemplate, htemplate]
    exact congrArg (scopes, ·) (Text.lossy_utf8 name)

/-- The display name of a record that is in no other record and its unique name agree, if both are
made of identifiers and the demangler knows such names. The record is declared in the namespaces of its
scopes; those that exist are found, and the other ones are made. -/
theorem declaration_of_identifiers (g : TypeGraph) (hreads : g.demangler.ReadsIdentifiers)
    (want : TypeIndex → Creation σ TypeObject) (ti : TypeIndex) (scopes : List String) (name : String)
    (tag : TagSpelling) (s : TypeStore σ) (h : ∀ n ∈ scopes ++ [name], isIdentifier n)
    (hparent : g.nesting.find? ti = none) :
    let display := Text.utf8 (Text.join "::" (scopes ++ [name]))
    let unique := UniqueName.encode tag (scopes ++ [name])
    let r := TypeSystem.namespacesIn s.system .translationUnit scopes
    (g.declaration want ti display (some unique)).runOn s
        = (g.declaration want ti display none).runOn s
      ∧ (g.declaration want ti display none).runOn s
        = .ok (some (r.1, name), { s with system := r.2 })
      ∧ ∀ m : TypeModel, (TypeSystem.namespacesIn m .translationUnit scopes).2.Leads .translationUnit
          scopes (TypeSystem.namespacesIn m .translationUnit scopes).1
        ∧ m.Adds (TypeSystem.namespacesIn m .translationUnit scopes).2 scopes
        ∧ (m.namespaces.toList.Nodup → ∀ c, m.Leads .translationUnit scopes c →
          TypeSystem.namespacesIn m .translationUnit scopes = (c, m)) := by
  intro display unique r
  have hplain : (g.declaration want ti display none).runOn s
      = .ok (some (r.1, name), { s with system := r.2 }) := by
    rw [runOn_declaration hparent, outerPlace_join ti h]
    rfl
  refine ⟨?_, hplain, fun m => ?_⟩
  · rw [hplain, runOn_declaration hparent, outerPlace_encode hreads h hparent]
    rfl
  · obtain ⟨hleads, hadds⟩ := TypeModel.namespacesIn_spec m .translationUnit scopes
    exact ⟨hleads, hadds, fun hnodup c => TypeModel.namespacesIn_of_leads hnodup⟩

/-- With one scope the unique name is read; with a hundred and thirty scopes it is beyond the limit of
nesting, for each `AA` looks like a pointer. -/
theorem declaration_in_many_scopes :
    let g := SymbolFile.relistedFile.graph
    let want : TypeIndex → Creation TypeModel TypeObject := fun _ => failure
    let many := List.replicate 130 "AA"
    g.demangler = Decorated.demangler
      ∧ (∀ n ∈ many ++ ["T"], isIdentifier n) ∧ (∀ n ∈ ["S"] ++ ["T"], isIdentifier n)
      ∧ g.nesting.find? ⟨0x1006⟩ = none
      ∧ UniqueName.parse? g.demangler (UniqueName.encode .union (many ++ ["T"])) = none
      ∧ UniqueName.parse? g.demangler (UniqueName.encode .enum (["S"] ++ ["T"]))
        = some ⟨.enum, [.plain "S"], .plain "T"⟩
      ∧ (g.declaration want ⟨0x1006⟩ (Text.utf8 (Text.join "::" (many ++ ["T"])))
          (some (UniqueName.encode .union (many ++ ["T"])))).runOn { system := {} }
        = (g.declaration want ⟨0x1006⟩ (Text.utf8 (Text.join "::" (many ++ ["T"]))) none).runOn
          { system := {} }
      ∧ (g.declaration want ⟨0x1006⟩ (Text.utf8 (Text.join "::" (["S"] ++ ["T"])))
          (some (UniqueName.encode .enum (["S"] ++ ["T"])))).runOn { system := {} }
        = .ok (some (.namespace_ 0, "T"), { system := { namespaces := #[("S", .translationUnit)] } }) := by
  intro g want many
  have hmany : ∀ n ∈ many ++ ["T"], isIdentifier n := by decide +kernel
  have hone : ∀ n ∈ ["S"] ++ ["T"], isIdentifier n := by decide
  have hparent : g.nesting.find? ⟨0x1006⟩ = none := by decide +kernel
  have hreads : g.demangler.ReadsIdentifiers := Decorated.readsIdentifiers_demangler
  refine ⟨rfl, hmany, hone, hparent, by decide +kernel, by decide +kernel, ?_, ?_⟩
  · exact (declaration_of_identifiers g hreads want _ many "T" .union { system := {} } hmany hparent).1
  · obtain ⟨hsame, hplain, _⟩ :=
      declaration_of_identifiers g hreads want ⟨0x1006⟩ ["S"] "T" .enum { system := {} } hone hparent
    have hspace : TypeSystem.namespacesIn ({} : TypeModel) .translationUnit ["S"]
        = (.namespace_ 0, { namespaces := #[("S", .translationUnit)] }) := by
      simp [TypeSystem.namespacesIn, TypeSystem.namespaceIn, TypeModel.namespaceIn]
    rw [hspace] at hplain
    exact hsame.trans hplain

end TypeGraph
end Pdb
