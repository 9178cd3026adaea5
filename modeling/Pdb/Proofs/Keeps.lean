import Mathlib.Data.Option.Basic
import Pdb.Proofs.Creation
import Pdb.Proofs.FieldWalk

/-! # What making the type of one record keeps

The type of a record is made from the types that the record refers to and by questions to the type
system. So whatever these keep is kept: `wp_create`, for any property `I` of the store, and any
property `W` of what is found for the types referred to. What is made from a record other than that
of a tag type is `Plain`, and the two ways to make a tag type are left to the one who asks.
-/

namespace Pdb

namespace Creation
variable {σ α β : Type} {averts averts' : Halt → Prop} {I : TypeStore σ → Prop} {P P' : α → Prop}
  {R : β → Prop} {c : Creation σ α} {k : α → Creation σ β} {s : TypeStore σ} {Q : Option β → TypeStore σ → Prop}

/-- `c` keeps `I`, what it finds satisfies `P`, and it does not halt for a reason that is averted. -/
def Keeps (averts : Halt → Prop) (I : TypeStore σ → Prop) (c : Creation σ α) (P : α → Prop) : Prop :=
  ∀ s, I s → wp averts c (fun r s' => I s' ∧ ∀ a, r = some a → P a) s

/-- There is one case for a result and one for none, and `I` holds in both. -/
theorem Keeps.wp_bind (hc : Keeps averts I c P) (hs : I s)
    (hsome : ∀ a s', I s' → P a → wp averts (k a) Q s') (hnone : ∀ s', I s' → Q none s') :
    wp averts (c >>= k) Q s := by
  refine (Creation.wp_bind c k).2 (wp_mono (hc s hs) fun r s' hr => ?_)
  cases r with
  | none => exact hnone s' hr.1
  | some a => exact hsome a s' hr.1 (hr.2 a rfl)

namespace Keeps

theorem mono (h : Keeps averts I c P) (hP : ∀ a, P a → P' a) : Keeps averts I c P' :=
  fun s hs => wp_mono (h s hs) fun _ _ hr => ⟨hr.1, fun a ha => hP a (hr.2 a ha)⟩

theorem weaken (h : Keeps averts I c P) (ha : ∀ h, averts' h → averts h) : Keeps averts' I c P :=
  fun s hs => wp_averts (h s hs) ha

theorem bind (hc : Keeps averts I c P) (hk : ∀ a, P a → Keeps averts I (k a) R) :
    Keeps averts I (c >>= k) R :=
  fun _ hs => hc.wp_bind hs (fun a s' hs' ha => hk a ha s' hs') fun _ hs' => ⟨hs', nofun⟩

theorem pure {a : α} (h : P a) : Keeps averts I (pure a) P :=
  fun _ hs => (wp_pure a).2 ⟨hs, fun _ ha => Option.some.inj ha ▸ h⟩

theorem failure : Keeps averts I failure P := fun _ hs => wp_failure.2 ⟨hs, nofun⟩

theorem ofOption (x : Option α) : Keeps averts I (ofOption x : Creation σ α) fun a => x = some a :=
  fun _ hs => (wp_ofOption x).2 ⟨hs, fun _ ha => ha⟩

/-- Nothing is kept, and nothing averted. -/
theorem any (c : Creation σ α) : Keeps (fun _ => False) (fun _ => True) c fun _ => True := by
  intro s _
  rw [wp]
  split
  · exact id
  · exact ⟨trivial, fun _ _ => trivial⟩

theorem look (f : TypeStore σ → α) : Keeps averts I (look f) fun _ => True :=
  fun _ hs => (wp_look f).2 ⟨hs, fun _ _ => trivial⟩

theorem atEnd {x : Option α} (h : averts .endless → x.isSome) :
    Keeps averts I (atEnd x : Creation σ α) fun a => x = some a := by
  refine fun s hs => (wp_atEnd x).2 ?_
  cases x with
  | none => exact fun hends => nomatch h hends
  | some a => exact ⟨hs, fun _ ha => ha⟩

theorem attempt (h : Keeps averts I c P) :
    Keeps averts I (attempt c) fun r => ∀ a, r = some a → P a := by
  refine fun s hs => (wp_attempt c _).2 (wp_mono (h s hs) fun r s' hr => ⟨hr.1, ?_⟩)
  exact fun r' hr' => Option.some.inj hr' ▸ hr.2

theorem mapM {f : β → Creation σ α} {bs : List β} (h : ∀ b ∈ bs, Keeps averts I (f b) P) :
    Keeps averts I (bs.mapM f) fun _ => True := by
  induction bs with
  | nil => exact .pure trivial
  | cons b bs ih =>
    rw [List.mapM_cons]
    refine .bind (h b List.mem_cons_self) fun a _ => ?_
    exact .bind (ih fun b' hb' => h b' (List.mem_cons_of_mem _ hb')) fun as _ => .pure trivial

theorem forM {f : β → Creation σ Unit} {bs : List β}
    (h : ∀ b ∈ bs, Keeps averts I (f b) fun _ => True) :
    Keeps averts I (bs.forM f) fun _ => True := by
  induction bs with
  | nil => exact .pure trivial
  | cons b bs ih =>
    exact .bind (h b List.mem_cons_self) fun _ _ => ih fun b' hb' => h b' (List.mem_cons_of_mem _ hb')

end Keeps

variable [TypeSystem σ]

/-- `I` outlasts the questions to the type system from which types other than tag types are made. -/
structure Steady (I : TypeStore σ → Prop) : Prop where
  namespaceIn {s : TypeStore σ} (name : String) (c : DeclContext) :
    I s → I { s with system := (TypeSystem.namespaceIn s.system name c).2 }
  basic? {s : TypeStore σ} (b : BasicType) :
    I s → I { s with system := (TypeSystem.basic? s.system b).2 }
  derive {s : TypeStore σ} (t : DerivedType) :
    I s → I { s with system := (TypeSystem.derive s.system t).2 }

namespace Steady

theorem keeps_basic (hI : Steady I) (b : BasicType) :
    Keeps averts I (basic b : Creation σ TypeHandle) fun _ => True := by
  refine .bind (P := fun _ => True) (fun s hs => (wp_ask _).2 ⟨hI.basic? b hs, fun _ _ => trivial⟩) ?_
  exact fun _ _ => (Keeps.ofOption _).mono fun _ _ => trivial

theorem keeps_derive (hI : Steady I) (t : DerivedType) :
    Keeps averts I (Creation.derive t : Creation σ TypeHandle) fun _ => True :=
  fun _ hs => (wp_ask _).2 ⟨hI.derive t hs, fun _ _ => trivial⟩

theorem keeps_namespaces (hI : Steady I) (c : DeclContext) (names : List String) :
    Keeps averts I (namespaces c names : Creation σ DeclContext) fun _ => True := by
  induction names generalizing c with
  | nil => exact .pure trivial
  | cons name names ih =>
    refine .bind (P := fun _ => True) (fun s hs => ?_) fun c _ => ih c
    exact (wp_ask _).2 ⟨hI.namespaceIn name c hs, fun _ _ => trivial⟩

end Steady

theorem keeps_tagOf (type : TypeHandle) :
    Keeps averts I (tagOf type : Creation σ TagDecl) fun _ => True :=
  .bind (.look _) fun _ _ => (Keeps.ofOption _).mono fun _ _ => trivial

omit [TypeSystem σ] in
theorem keeps_object (id : TypeId) :
    Keeps averts I (object id : Creation σ TypeObject) fun _ => True :=
  .bind (.look _) fun _ _ => (Keeps.ofOption _).mono fun _ _ => trivial

end Creation

namespace TypeGraph
open Creation

/-! ### What a record refers to -/

/-- The types that a function type is made from. -/
def signature (g : TypeGraph) (result args : TypeIndex) : List TypeIndex :=
  match g.stream.type? args with
  | some (.argList args) => (parameters args).1 ++ [result]
  | _ => []

/-- The types that are asked for to make the type of a record. -/
def references (g : TypeGraph) : TypeRecord → List TypeIndex
  | .modifier m => [m.modified]
  | .pointer p => p.pointee :: p.containingClass?.join.toList
  | .enum e => [e.underlying]
  | .array a => [a.element]
  | .procedure r => g.signature r.result r.args
  | .memberFunction r => g.signature r.result r.args
  | _ => []

/-- From one type to another that is asked for to make it: the definition of a forward reference,
what a built-in pointer points to, what the record refers to, and the record around it. -/
inductive Refers (g : TypeGraph) (ti : TypeIndex) : TypeIndex → Prop
  | definition : g.target ti ≠ ti → Refers g ti (g.target ti)
  | pointee {p : TypeIndex} {size : Nat} :
    ti.isSimple → ti.simpleType? = some (.pointer p size) → Refers g ti p
  | reference {t : TypeRecord} {p : TypeIndex} :
    g.stream.type? ti = some t → p ∈ g.references t → Refers g ti p
  | parent {p : TypeIndex} : g.nesting.find? ti = some p → Refers g ti p

/-! ### What a type is called -/

/-- The name of a type that is no tag type. -/
def plainName (g : TypeGraph) (ti : TypeIndex) : String :=
  if ti.isSimple then
    match ti.simpleType? with
    | some .nullPtr => "std::nullptr_t"
    | some (.basic _ _ spelling) => spelling
    | _ => ""
  else match g.stream.type? ti with
    | some (.modifier m) => g.stream.spelling m.modified
    | _ => ""

/-- What its own record says of the type at `ti` if it is no tag type. An array has the element that
was found for it, of which `W` is known. -/
structure Plain (g : TypeGraph) (W : TypeIndex → TypeObject → Prop) (ti : TypeIndex)
    (t : TypeObject) : Prop where
  index : t.index = ti
  name : t.name = g.plainName ti
  state : t.state = .full
  isTag {r : TypeRecord} : g.stream.type? ti = some r → r.isTag = false
  element : match g.stream.type? ti with
    | some (.array a) => ∃ e, W a.element e ∧ t.element? = some e.index
    | _ => t.element? = none

/-- The keyword of the record at `ti`. Enumerations have none. -/
def recordKind? (g : TypeGraph) (ti : TypeIndex) : Option RecordKind :=
  match g.stream.type? ti with
  | some (.class_ _) => (g.stream.leaf? ti).map .ofLeaf
  | some (.union _) => some .union
  | _ => none

section
variable {σ : Type} [TypeSystem σ] {g : TypeGraph} {averts : Halt → Prop} {I : TypeStore σ → Prop}
  {W : TypeIndex → TypeObject → Prop} {want : TypeIndex → Creation σ TypeObject}
  {Q : Option TypeObject → TypeStore σ → Prop} {ti : TypeIndex} {s : TypeStore σ}

theorem keeps_qualify (hI : Steady I) (type : TypeHandle) (q : Qualifiers) :
    Keeps averts I (qualify type q : Creation σ TypeHandle) fun _ => True := by
  rw [qualify]
  split
  · exact .pure trivial
  · exact hI.keeps_derive _

/-! ### Contexts -/

theorem keeps_tagContext {p : TypeIndex} (hw : Keeps averts I (want p) (W p)) :
    Keeps averts I (tagContext want p) fun _ => True :=
  .bind hw fun _ _ => .bind (keeps_tagOf _) fun _ _ => .pure trivial

theorem keeps_namespaceContext (hI : Steady I) (scopes : List String) (isTemplate : Bool)
    (name whole : String) :
    Keeps averts I (namespaceContext scopes isTemplate name whole : Creation σ (DeclContext × String))
      fun _ => True := by
  rw [namespaceContext]
  split
  · exact .pure trivial
  · exact .bind (hI.keeps_namespaces _ _) fun _ _ => .pure trivial

/-- Only the record around is asked for to find a context. -/
theorem keeps_declaration (hI : Steady I)
    (hw : ∀ p, g.nesting.find? ti = some p → Keeps averts I (want p) (W p)) (name : Bytes)
    (unique? : Option Bytes) :
    Keeps averts I (g.declaration want ti name unique?) fun _ => True := by
  rw [declaration]
  cases unique?.bind (UniqueName.parse? g.demangler) with
  | some u =>
    simp only [decoratedDeclaration]
    cases hp : g.nesting.find? ti with
    | none => exact keeps_namespaceContext hI _ _ _ _
    | some p => exact .bind (.attempt (keeps_tagContext (hw p hp))) fun _ _ => .pure trivial
  | none =>
    have hparent : Keeps averts I (do tagContext want (← ofOption (g.nesting.find? ti))) fun _ => True :=
      .bind (.ofOption _) fun p hp => keeps_tagContext (hw p hp)
    refine .bind (.attempt hparent) fun parent? _ => ?_
    cases parent? with
    | none => exact keeps_namespaceContext hI _ _ _ _
    | some parent => exact .pure trivial

/-! ### One lemma for each kind of record

Each says what is left to show of a type that has been made, and if none has been. -/

theorem wp_createSimple (hI : Steady I) (hs : I s)
    (hw : ∀ p size, ti.simpleType? = some (.pointer p size) → Keeps averts I (want p) (W p))
    (hnone : ∀ s', I s' → Q none s')
    (hsome : ∀ s' size h, I s' → Q (some (finished ti (match ti.simpleType? with
      | some .nullPtr => "std::nullptr_t"
      | some (.basic _ _ spelling) => spelling
      | _ => "") size h)) s') :
    wp averts (createSimple want ti) Q s := by
  refine (Keeps.ofOption ti.simpleType?).wp_bind hs (fun type s hs htype => ?_) hnone
  rw [htype] at hsome hw
  cases type with
  | nullPtr =>
    refine (hI.keeps_basic _).wp_bind hs (fun h s hs _ => ?_) hnone
    exact (wp_pure _).2 (hsome s _ h hs)
  | pointer p size =>
    refine (hw p size rfl).wp_bind hs (fun t s hs _ => ?_) hnone
    refine (hI.keeps_derive _).wp_bind hs (fun h s hs _ => ?_) hnone
    exact (wp_pure _).2 (hsome s _ h hs)
  | basic type size spelling =>
    refine (hI.keeps_basic _).wp_bind hs (fun h s hs _ => ?_) hnone
    exact (wp_pure _).2 (hsome s _ h hs)

theorem wp_createModifier (hI : Steady I) (hs : I s) {m : ModifierRecord}
    (hw : Keeps averts I (want m.modified) (W m.modified)) (hnone : ∀ s', I s' → Q none s')
    (hsome : ∀ s' size h, I s' →
      Q (some (finished ti (g.stream.spelling m.modified) size h)) s') :
    wp averts (g.createModifier want ti m) Q s := by
  refine hw.wp_bind hs (fun t s hs _ => ?_) hnone
  refine (keeps_qualify hI _ _).wp_bind hs (fun h s hs _ => ?_) hnone
  exact (wp_pure _).2 (hsome s _ h hs)

theorem wp_createPointer (hI : Steady I) (hs : I s) {p : PointerRecord}
    (hw : ∀ r ∈ g.references (.pointer p), Keeps averts I (want r) (W r))
    (hnone : ∀ s', I s' → Q none s')
    (hsome : ∀ s' size h, I s' → Q (some (finished ti "" size h)) s') :
    wp averts (createPointer want ti p) Q s := by
  refine (hw _ List.mem_cons_self).wp_bind hs (fun pointee s hs _ => ?_) hnone
  refine (Keeps.ofOption p.containingClass?).wp_bind hs (fun class_? s hs hclass => ?_) hnone
  cases class_? with
  | none =>
    refine (hI.keeps_derive _).wp_bind hs (fun pointer s hs _ => ?_) hnone
    refine (keeps_qualify hI _ _).wp_bind hs (fun h s hs _ => ?_) hnone
    exact (wp_pure _).2 (hsome s _ h hs)
  | some class_ =>
    have hmem : class_ ∈ g.references (.pointer p) := by
      simp [references, hclass]
    refine (hw class_ hmem).wp_bind hs (fun t s hs _ => ?_) hnone
    refine (hI.keeps_derive _).wp_bind hs (fun h s hs _ => ?_) hnone
    exact (wp_pure _).2 (hsome s _ h hs)

theorem wp_createArray (hI : Steady I) (hs : I s) {a : ArrayRecord}
    (hw : Keeps averts I (want a.element) (W a.element)) (hnone : ∀ s', I s' → Q none s')
    (hsome : ∀ s' size h e, I s' → W a.element e →
      Q (some { finished ti "" size h with element? := some e.index }) s') :
    wp averts (createArray want ti a) Q s := by
  refine hw.wp_bind hs (fun e s hs he => ?_) hnone
  refine (Keeps.ofOption a.length.size?).wp_bind hs (fun size s hs _ => ?_) hnone
  dsimp only
  split
  · exact Keeps.failure.wp_bind (P := fun _ => False) hs (fun _ _ _ h => h.elim) hnone
  · refine (hI.keeps_derive _).wp_bind hs (fun h s hs _ => ?_) hnone
    exact (wp_pure _).2 (hsome s _ h e hs he)

theorem wp_createFunction (hI : Steady I) (hs : I s) {result args : TypeIndex} {call : UInt8}
    (hw : ∀ r ∈ g.signature result args, Keeps averts I (want r) (W r))
    (hnone : ∀ s', I s' → Q none s')
    (hsome : ∀ s' size h, I s' → Q (some (finished ti "" size h)) s') :
    wp averts (g.createFunction want ti result args call) Q s := by
  refine (Keeps.ofOption (g.stream.type? args)).wp_bind hs (fun type s hs htype => ?_) hnone
  split
  · next list =>
    have hsignature : g.signature result args = (parameters list).1 ++ [result] := by
      rw [signature, htype]
    rw [hsignature] at hw
    have hparams : Keeps averts I ((parameters list).1.mapM want) fun _ => True :=
      .mapM (P := fun _ => True) fun r hr => (hw r (List.mem_append_left _ hr)).mono fun _ _ => trivial
    refine hparams.wp_bind hs (fun params s hs _ => ?_) hnone
    refine (hw result (List.mem_append_right _ (List.mem_singleton_self _))).wp_bind hs
      (fun t s hs _ => ?_) hnone
    refine (Keeps.ofOption (CallingConvention.ofCode? call)).wp_bind hs (fun _ s hs _ => ?_) hnone
    refine (hI.keeps_derive _).wp_bind hs (fun h s hs _ => ?_) hnone
    exact (wp_pure _).2 (hsome s _ h hs)
  · exact wp_failure.2 (hnone s hs)

/-- A tag type is declared in the end, and nothing that was made before is lost if it cannot be. -/
theorem wp_createRecord (hI : Steady I) (hs : I s)
    (hw : ∀ p, g.nesting.find? ti = some p → Keeps averts I (want p) (W p))
    (name : Bytes) (unique? : Option Bytes) (size : Nat) (kind : RecordKind)
    (inheritance : InheritanceModel) (hnone : ∀ s', I s' → Q none s')
    (hdeclare : ∀ s' size d name, I s' → wp averts (declareTag ti size d name) Q s') :
    wp averts (g.createRecord want ti name unique? size kind inheritance) Q s := by
  refine (keeps_declaration hI hw name unique?).wp_bind hs (fun r s hs _ => ?_) hnone
  exact hdeclare s _ _ _ hs

theorem wp_createEnum (hI : Steady I) (hs : I s)
    (hw : ∀ p, g.nesting.find? ti = some p → Keeps averts I (want p) (W p)) {e : EnumRecord}
    (hunderlying : Keeps averts I (want e.underlying) (W e.underlying))
    (hnone : ∀ s', I s' → Q none s')
    (hdeclare : ∀ s' size d name, I s' → wp averts (declareTag ti size d name) Q s') :
    wp averts (g.createEnum want ti e) Q s := by
  refine (keeps_declaration hI hw _ _).wp_bind hs (fun r s hs _ => ?_) hnone
  refine hunderlying.wp_bind hs (fun underlying s hs _ => ?_) hnone
  exact hdeclare s _ _ _ hs

/-- What is left to show of the type of a record. -/
theorem wp_create (hI : Steady I) (hs : I s) (hends : averts .endless → g.stream.ChainsEnd)
    (hw : ∀ p, g.Refers ti p → Keeps averts I (want p) (W p)) (hnone : ∀ s', I s' → Q none s')
    (hplain : ∀ s' t, I s' → g.Plain W ti t → Q (some t) s')
    (hrecord : ∀ s' r name size kind inheritance, I s' → g.stream.type? ti = some r →
      r.tagName? = some name → g.recordKind? ti = some kind →
      wp averts (g.createRecord want ti name r.uniqueName? size kind inheritance) Q s')
    (henum : ∀ s' e, I s' → g.stream.type? ti = some (.enum e) →
      wp averts (g.createEnum want ti e) Q s') :
    wp averts (g.create want ti) Q s := by
  rw [create]
  by_cases hti : ti.isSimple
  · have htype : g.stream.type? ti = none := TypeStream.type?_of_isSimple hti
    rw [if_pos hti]
    refine wp_createSimple hI hs (fun p size hp => hw p (.pointee hti hp)) hnone ?_
    refine fun s size h hs => hplain s _ hs ⟨rfl, ?_, rfl, fun hr => ?_, ?_⟩
    · rw [plainName, if_pos hti, finished]
    · exact nomatch htype.symm.trans hr
    · rw [htype, finished]
  · rw [if_neg hti]
    refine (Keeps.ofOption _).wp_bind hs (fun record s hs hrecord' => ?_) hnone
    refine (Keeps.ofOption _).wp_bind hs (fun type s hs htype => ?_) hnone
    have htype' : g.stream.type? ti = some type := by
      rw [TypeStream.type?_eq, hrecord', Option.bind_some, htype]
    have hw {p : TypeIndex} (hp : p ∈ g.references type) : Keeps averts I (want p) (W p) :=
      hw p (.reference htype' hp)
    have hname : g.plainName ti = match (some type : Option TypeRecord) with
        | some (.modifier m) => g.stream.spelling m.modified
        | _ => "" := by
      rw [plainName, if_neg hti, htype']
    have htag (h : type.isTag = false) {r : TypeRecord} (hr : g.stream.type? ti = some r) :
        r.isTag = false :=
      Option.some.inj (htype'.symm.trans hr) ▸ h
    have hkind : (g.stream.leaf? ti).map .ofLeaf = some (RecordKind.ofLeaf record.leaf) := by
      rw [TypeStream.leaf?, hrecord', Option.map_some, Option.map_some]
    cases type with
    | modifier m =>
      refine wp_createModifier hI hs (hw List.mem_cons_self) hnone ?_
      refine fun s size h hs => hplain s _ hs ⟨rfl, hname.symm, rfl, htag rfl, ?_⟩
      rw [htype', finished]
    | pointer p =>
      refine wp_createPointer hI hs (fun r hr => hw hr) hnone ?_
      refine fun s size h hs => hplain s _ hs ⟨rfl, hname.symm, rfl, htag rfl, ?_⟩
      rw [htype', finished]
    | class_ r =>
      refine (Keeps.ofOption r.length.size?).wp_bind hs (fun size s hs _ => ?_) hnone
      refine (Keeps.atEnd fun h => ?_).wp_bind hs (fun inheritance s hs _ => ?_) hnone
      · exact TypeStream.isSome_inheritance?_iff.2 (.inr (.inl (hends h _)))
      · exact hrecord s (.class_ r) r.name size _ inheritance hs htype' rfl (by rw [recordKind?, htype', hkind])
    | union r =>
      refine (Keeps.ofOption r.length.size?).wp_bind hs (fun size s hs _ => ?_) hnone
      exact hrecord s (.union r) r.name size _ _ hs htype' rfl (by rw [recordKind?, htype'])
    | enum e => exact henum s e hs htype'
    | array a =>
      refine wp_createArray hI hs (hw List.mem_cons_self) hnone ?_
      refine fun s size h e hs he => hplain s _ hs ⟨rfl, hname.symm, rfl, htag rfl, ?_⟩
      rw [htype']
      exact ⟨e, he, rfl⟩
    | procedure r =>
      refine wp_createFunction hI hs (fun r hr => hw hr) hnone ?_
      refine fun s size h hs => hplain s _ hs ⟨rfl, hname.symm, rfl, htag rfl, ?_⟩
      rw [htype', finished]
    | memberFunction r =>
      refine wp_createFunction hI hs (fun r hr => hw hr) hnone ?_
      refine fun s size h hs => hplain s _ hs ⟨rfl, hname.symm, rfl, htag rfl, ?_⟩
      rw [htype', finished]
    | _ => exact wp_failure.2 (hnone s hs)

/-- What is left to show if nothing has to be known of a tag type but that it is declared. -/
theorem wp_create_of_declare (hI : Steady I) (hs : I s) (hends : averts .endless → g.stream.ChainsEnd)
    (hw : ∀ p, g.Refers ti p → Keeps averts I (want p) (W p)) (hnone : ∀ s', I s' → Q none s')
    (hplain : ∀ s' t, I s' → g.Plain W ti t → Q (some t) s')
    (hdeclare : ∀ s' size d name, I s' → wp averts (declareTag ti size d name) Q s') :
    wp averts (g.create want ti) Q s := by
  have hparent (p : TypeIndex) (hp : g.nesting.find? ti = some p) : Keeps averts I (want p) (W p) :=
    hw p (.parent hp)
  refine wp_create hI hs hends hw hnone hplain ?_ fun s e hs he => ?_
  · intro s r name size kind inheritance hs _ _ _
    exact wp_createRecord hI hs hparent _ _ _ _ _ hnone hdeclare
  · have hunderlying := hw e.underlying (.reference he List.mem_cons_self)
    exact wp_createEnum hI hs hparent hunderlying hnone hdeclare

end

end TypeGraph
end Pdb
