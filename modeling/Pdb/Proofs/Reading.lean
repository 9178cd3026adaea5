import Mathlib.Data.List.Perm.Subperm
import Pdb.Proofs.FreshTags

/-! # Reading declarations

A `Reading` says how a tag type has been declared, and which names stand around a context, for as
much as can be seen of a type system. What has been read stays true. In `TypeModel` all of it can be
seen: the names around a context are those that `contextPath` joins.
-/

namespace Pdb

/-- A way to see what has been declared in a type system. -/
structure Reading (σ : Type) [TypeSystem σ] where
  /-- The names of what a context is in and its own, from the outside in. -/
  Path : σ → DeclContext → List String → Prop
  Declares : σ → TagDecl → Declaration → Prop
  path_unit (s : σ) : Path s .translationUnit []
  path_namespaceIn {s : σ} {c : DeclContext} {path : List String} (name : String) : Path s c path →
    Path (TypeSystem.namespaceIn s name c).2 (TypeSystem.namespaceIn s name c).1 (path ++ [name])
  path_tag {s : σ} {tag : TagDecl} {d : Declaration} {path : List String} : Declares s tag d →
    Path s d.context path → Path s (.tag tag) (path ++ [d.name])
  declares_declare {s : σ} {tag : TagDecl} (d : Declaration) :
    TypeSystem.tagOf? (TypeSystem.declare s d).2 (TypeSystem.declare s d).1 = some tag →
      Declares (TypeSystem.declare s d).2 tag d
  path_follows {s s' : σ} {c : DeclContext} {path : List String} : TypeSystem.Follows s s' →
    Path s c path → Path s' c path
  declares_follows {s s' : σ} {tag : TagDecl} {d : Declaration} : TypeSystem.Follows s s' →
    Declares s tag d → Declares s' tag d

/-- Nothing is seen of a type system. -/
def Reading.blind (σ : Type) [TypeSystem σ] : Reading σ where
  Path _ _ _ := True
  Declares _ _ _ := True
  path_unit _ := trivial
  path_namespaceIn _ _ := trivial
  path_tag _ _ := trivial
  declares_declare _ _ := trivial
  path_follows _ _ := trivial
  declares_follows _ _ := trivial

namespace TypeModel
variable {m m' : TypeModel} {c : DeclContext} {path path' : List String} {depth : Nat}

/-- The names of what a context is in and its own, from the outside in. -/
inductive HasPath (m : TypeModel) : DeclContext → List String → Prop
  | unit : HasPath m .translationUnit []
  | namespace_ {n : Nat} {name : String} {parent : DeclContext} {path : List String} :
    m.namespaces[n]? = some (name, parent) → HasPath m parent path →
    HasPath m (.namespace_ n) (path ++ [name])
  | tag {d : TagDecl} {t : ModelTag} {path : List String} :
    m.tags[d]? = some t → HasPath m t.decl.context path → HasPath m (.tag d) (path ++ [t.decl.name])

/-! ### What has been declared stays -/

/-- Namespaces and declarations stay as they are. -/
structure Holds (m m' : TypeModel) : Prop where
  namespaces {n : Nat} {x : String × DeclContext} : m.namespaces[n]? = some x →
    m'.namespaces[n]? = some x
  tags {d : TagDecl} {t : ModelTag} : m.tags[d]? = some t →
    ∃ t', m'.tags[d]? = some t' ∧ t'.decl = t.decl

theorem decl_apply (t : ModelTag) (c : TagChange) : (t.apply c).decl = t.decl := by
  cases c <;> rfl

theorem namespaces_namespaceIn {n : Nat} {x : String × DeclContext} (name : String)
    (h : m.namespaces[n]? = some x) : (m.namespaceIn name c).2.namespaces[n]? = some x := by
  rw [namespaceIn]
  split
  · exact h
  · show (m.namespaces.push (name, c))[n]? = some x
    rw [Array.getElem?_push, if_neg, h]
    rintro rfl
    rw [Array.getElem?_eq_none (Nat.le_refl _)] at h
    cases h

theorem tags_change {d : TagDecl} {t : ModelTag} (type : TypeHandle) (change : TagChange)
    (h : m.tags[d]? = some t) :
    ∃ t', (m.change type change).tags[d]? = some t' ∧ t'.decl = t.decl := by
  rw [TypeModel.change]
  split
  · next k _ =>
    show ∃ t', (m.tags.modify k (·.apply change))[d]? = some t' ∧ t'.decl = t.decl
    rw [Array.getElem?_modify, h]
    split
    · exact ⟨_, rfl, decl_apply t change⟩
    · exact ⟨t, rfl, rfl⟩
  · exact ⟨t, h, rfl⟩

theorem tags_declare {d : TagDecl} {t : ModelTag} (decl : Declaration) (h : m.tags[d]? = some t) :
    (m.declare decl).2.tags[d]? = some t := by
  show (m.tags.push { decl })[d]? = some t
  rw [Array.getElem?_push, if_neg, h]
  rintro rfl
  rw [Array.getElem?_eq_none (Nat.le_refl _)] at h
  exact nomatch h

theorem holds_of_follows (h : TypeSystem.Follows m m') : m.Holds m' := by
  induction h with
  | refl => exact ⟨id, fun ht => ⟨_, ht, rfl⟩⟩
  | @namespaceIn s name c _ ih =>
    refine ⟨fun hn => namespaces_namespaceIn name (ih.namespaces hn), fun {d t} ht => ?_⟩
    rw [show (TypeSystem.namespaceIn s name c).2.tags = s.tags from tags_namespaceIn s name c]
    exact ih.tags ht
  | basic? b _ ih => exact ⟨ih.namespaces, ih.tags⟩
  | derive t _ ih => exact ⟨ih.namespaces, ih.tags⟩
  | declare d _ ih =>
    refine ⟨ih.namespaces, fun ht => ?_⟩
    obtain ⟨t', ht', hdecl⟩ := ih.tags ht
    exact ⟨t', tags_declare d ht', hdecl⟩
  | @change s type c _ ih =>
    refine ⟨fun hn => ?_, fun ht => ?_⟩
    · have hsame : (s.change type c).namespaces = s.namespaces := by
        rw [TypeModel.change]
        split <;> rfl
      exact hsame ▸ ih.namespaces hn
    · obtain ⟨t', ht', hdecl⟩ := ih.tags ht
      obtain ⟨t'', ht'', hdecl'⟩ := tags_change type c ht'
      exact ⟨t'', ht'', hdecl'.trans hdecl⟩

theorem HasPath.mono (h : m.HasPath c path) (hm : m.Holds m') : m'.HasPath c path := by
  induction h with
  | unit => exact .unit
  | namespace_ hn _ ih => exact .namespace_ (hm.namespaces hn) ih
  | tag ht _ ih =>
    obtain ⟨t', ht', hdecl⟩ := hm.tags ht
    rw [← hdecl] at ih ⊢
    exact .tag ht' ih

/-- The namespace is there, whether it has been found or made. -/
theorem exists_namespaceIn (m : TypeModel) (name : String) (c : DeclContext) :
    ∃ n, (m.namespaceIn name c).1 = .namespace_ n
      ∧ (m.namespaceIn name c).2.namespaces[n]? = some (name, c) := by
  rw [namespaceIn]
  split
  · next i hi =>
    obtain ⟨hlt, heq, _⟩ := Array.findIdx?_eq_some_iff_getElem.1 hi
    exact ⟨i, rfl, Array.getElem?_eq_some_iff.2 ⟨hlt, of_decide_eq_true heq⟩⟩
  · exact ⟨_, rfl, Array.getElem?_push_size⟩

theorem hasPath_namespaceIn (name : String) (h : m.HasPath c path) :
    (m.namespaceIn name c).2.HasPath (m.namespaceIn name c).1 (path ++ [name]) := by
  have hlater := h.mono (holds_of_follows (.namespaceIn name c .refl))
  obtain ⟨n, hn, hfind⟩ := m.exists_namespaceIn name c
  exact hn ▸ .namespace_ hfind hlater

/-! ### The qualified name of a context -/

theorem HasPath.unique (h : m.HasPath c path) (h' : m.HasPath c path') : path = path' := by
  induction h generalizing path' with
  | unit => cases h'; rfl
  | namespace_ hn _ ih =>
    obtain _ | ⟨hn', h'⟩ | _ := h'
    obtain ⟨rfl, rfl⟩ := Prod.mk.inj (Option.some.inj (hn.symm.trans hn'))
    rw [ih h']
  | tag ht _ ih =>
    obtain _ | _ | ⟨ht', h'⟩ := h'
    obtain rfl := Option.some.inj (ht.symm.trans ht')
    rw [ih h']

/-- All contexts but the translation unit. -/
def contexts (m : TypeModel) : List DeclContext :=
  (List.range m.namespaces.size).map .namespace_ ++ (List.range m.tags.size).map .tag

/-- The contexts on the way out are different ones, since their paths get shorter. -/
theorem HasPath.exists_chain (h : m.HasPath c path) : ∃ cs : List DeclContext,
    cs.length = path.length ∧ cs.Nodup ∧ cs ⊆ m.contexts
      ∧ ∀ c ∈ cs, ∃ path', m.HasPath c path' ∧ path'.length ≤ path.length := by
  have hcons {c : DeclContext} {path : List String} {name : String} {cs : List DeclContext}
      (h : m.HasPath c (path ++ [name])) (hc : c ∈ m.contexts) (hlength : cs.length = path.length)
      (hnodup : cs.Nodup) (hsub : cs ⊆ m.contexts)
      (hshort : ∀ c ∈ cs, ∃ path', m.HasPath c path' ∧ path'.length ≤ path.length) :
      ∃ cs : List DeclContext, cs.length = (path ++ [name]).length ∧ cs.Nodup ∧ cs ⊆ m.contexts
        ∧ ∀ c ∈ cs, ∃ path', m.HasPath c path' ∧ path'.length ≤ (path ++ [name]).length := by
    refine ⟨c :: cs, by simp [hlength], List.nodup_cons.2 ⟨fun hmem => ?_, hnodup⟩,
      List.cons_subset.2 ⟨hc, hsub⟩, fun c' hc' => ?_⟩
    · obtain ⟨path', h', hle⟩ := hshort c hmem
      obtain rfl := h.unique h'
      rw [List.length_append, List.length_singleton] at hle
      omega
    · rcases List.mem_cons.1 hc' with rfl | hc'
      · exact ⟨_, h, Nat.le_refl _⟩
      · obtain ⟨path', h', hle⟩ := hshort c' hc'
        exact ⟨path', h', by rw [List.length_append]; omega⟩
  induction h with
  | unit => exact ⟨[], rfl, List.nodup_nil, List.nil_subset _, fun _ hc => nomatch hc⟩
  | @namespace_ n name parent path hn hparent ih =>
    obtain ⟨cs, hlength, hnodup, hsub, hshort⟩ := ih
    refine hcons (.namespace_ hn hparent) ?_ hlength hnodup hsub hshort
    have hlt := (Array.getElem?_eq_some_iff.1 hn).1
    exact List.mem_append_left _ (List.mem_map_of_mem (List.mem_range.2 hlt))
  | @tag d t path ht hparent ih =>
    obtain ⟨cs, hlength, hnodup, hsub, hshort⟩ := ih
    refine hcons (.tag ht hparent) ?_ hlength hnodup hsub hshort
    have hlt := (Array.getElem?_eq_some_iff.1 ht).1
    exact List.mem_append_right _ (List.mem_map_of_mem (List.mem_range.2 hlt))

theorem HasPath.length_le (h : m.HasPath c path) :
    path.length ≤ m.namespaces.size + m.tags.size := by
  obtain ⟨cs, hlength, hnodup, hsub, _⟩ := h.exists_chain
  have hle := (List.subperm_of_subset hnodup hsub).length_le
  simp only [contexts, List.length_append, List.length_map, List.length_range] at hle
  omega

theorem contextNames_eq (h : m.HasPath c path) (hdepth : path.length < depth) :
    m.contextNames depth c = path.reverse := by
  induction h generalizing depth with
  | unit =>
    obtain ⟨depth, rfl⟩ := Nat.exists_eq_succ_of_ne_zero (Nat.ne_of_gt hdepth)
    rfl
  | namespace_ hn _ ih =>
    obtain ⟨depth, rfl⟩ := Nat.exists_eq_succ_of_ne_zero (Nat.ne_of_gt (Nat.zero_lt_of_lt hdepth))
    rw [List.length_append, List.length_singleton] at hdepth
    rw [contextNames, hn, List.reverse_concat]
    exact congrArg (_ :: ·) (ih (by omega))
  | tag ht _ ih =>
    obtain ⟨depth, rfl⟩ := Nat.exists_eq_succ_of_ne_zero (Nat.ne_of_gt (Nat.zero_lt_of_lt hdepth))
    rw [List.length_append, List.length_singleton] at hdepth
    rw [contextNames, ht, List.reverse_concat]
    exact congrArg (_ :: ·) (ih (by omega))

/-- The depth to which `contextPath` looks is enough. -/
theorem contextPath_eq (h : m.HasPath c path) : m.contextPath c = Text.join "::" path := by
  have hle := h.length_le
  rw [contextPath, contextNames_eq h (by omega), List.reverse_reverse]

/-- What can be read off a model. -/
def reading : Reading TypeModel where
  Path := HasPath
  Declares m tag d := ∃ t, m.tags[tag]? = some t ∧ t.decl = d
  path_unit _ := .unit
  path_namespaceIn name h := hasPath_namespaceIn name h
  path_tag := by
    rintro s tag _ path ⟨t, ht, rfl⟩ h
    exact .tag ht h
  declares_declare {s tag} d htag := by
    obtain rfl := Option.some.inj ((tagOf?_declare s d).symm.trans htag)
    exact ⟨_, Array.getElem?_push_size, rfl⟩
  path_follows h hpath := hpath.mono (holds_of_follows h)
  declares_follows := by
    rintro s s' tag _ h ⟨t, ht, rfl⟩
    exact (holds_of_follows h).tags ht

end TypeModel
end Pdb
