import Pdb.Proofs.Knowledge

/-! # What can be said of a type

`Described` is what can be seen of a type that has been made: its name, what it is made of, and for a
tag type how and where it is declared. None of this depends on what else has been made, and it is known
of all types in a store, whatever has been asked for (`describing`).
-/

namespace Pdb

section
variable {σ : Type} [TypeSystem σ] {R : Reading σ} {g : TypeGraph} {P : BasicType → Prop} {m m' : σ}
  {ti : TypeIndex} {c : DeclContext} {name : String}

/-- A type is declared with a name and a keyword, in contexts with the names `path`. -/
def Reading.Shows (R : Reading σ) (m : σ) (type : TypeHandle) (path : List String) (name : String)
    (kind? : Option RecordKind) : Prop :=
  ∃ tag d, TypeSystem.tagOf? m type = some tag ∧ R.Declares m tag d ∧ R.Path m d.context path
    ∧ d.name = name ∧ d.kind? = kind?

theorem Reading.Shows.mono [FreshTags σ] {type : TypeHandle} {path : List String}
    {kind? : Option RecordKind} (h : R.Shows m type path name kind?)
    (hm : TypeSystem.Follows m m') : R.Shows m' type path name kind? := by
  obtain ⟨tag, d, htag, hdeclares, hpath, hname⟩ := h
  exact ⟨tag, d, FreshTags.tagOf?_of_follows hm htag, R.declares_follows hm hdeclares,
    R.path_follows hm hpath, hname⟩

namespace TypeGraph

/-- What can be said of a type by the records alone, if the type system has the built-in types in
`P`. -/
inductive Described (g : TypeGraph) (R : Reading σ) (P : BasicType → Prop) (m : σ) (t : TypeObject) :
    Prop
  | plain : g.Plain (fun p e => e.index = g.target p) t.index t → Described g R P m t
  | tag {r : TypeRecord} {path : List String} : g.stream.type? t.index = some r → r.isTag →
    g.Placed P t.index path t.name → R.Shows m t.handle path t.name (g.recordKind? t.index) →
    t.element? = none → Described g R P m t

namespace Described
variable {t : TypeObject}

theorem mono [FreshTags σ] (h : g.Described R P m t) (hm : TypeSystem.Follows m m') :
    g.Described R P m' t := by
  cases h with
  | plain h => exact .plain h
  | tag ht htag hplace hshows helement => exact .tag ht htag hplace (hshows.mono hm) helement

/-- The same can be said of a type when it is complete. -/
theorem complete (h : g.Described R P m t) : g.Described R P m { t with state := .full } := by
  cases h with
  | plain h => exact .plain ⟨rfl, h.name, rfl, h.isTag, h.element⟩
  | tag ht htag hplace hshows helement => exact .tag ht htag hplace hshows helement

theorem exists_path {r : TypeRecord} (h : g.Described R P m t) (ht : g.stream.type? t.index = some r)
    (htag : r.isTag) :
    ∃ path, g.Placed P t.index path t.name
      ∧ R.Shows m t.handle path t.name (g.recordKind? t.index) := by
  cases h with
  | plain h => exact absurd htag (Bool.eq_false_iff.1 (h.isTag ht))
  | tag _ _ hplace hshows _ => exact ⟨_, hplace, hshows⟩

end Described

/-- The records alone decide on where a tag type is declared, if they do so for the one around it. -/
theorem Situated.exists_placed {s : TypeStore σ}
    (h : g.Situated R P (fun s t => g.Described R P s.system t) s ti c name) :
    ∃ path, g.Placed P ti path name ∧ R.Path s.system c path := by
  cases h with
  | inside ht hname hp hsize hknows henters =>
    obtain ⟨r, hr, htag⟩ := (isTag_of_parent hp).record
    obtain ⟨path, hplace, tag, d, htagOf, hdeclares, hpath, houter, _⟩ := hknows.exists_path hr htag
    obtain rfl := Option.some.inj (henters.tagOf.symm.trans htagOf)
    exact ⟨_, .inside ht hname hp hsize hplace, houter ▸ R.path_tag hdeclares hpath⟩
  | outside ht hname hnone hpath => exact ⟨_, .outside ht hname hnone, hpath⟩

/-- What can be said of a type is known when it has been made. -/
def describing [FreshTags σ] (g : TypeGraph) (R : Reading σ) (P : BasicType → Prop) :
    g.Knowledge R P where
  Knows s t := g.Described R P s.system t
  develops hs h := h.mono hs.follows
  complete h := h.complete
  plain h := .plain h
  tag ht htag helement henters hdeclares hname hkind hsituated := by
    obtain ⟨path, hplace, hpath⟩ := hsituated.exists_placed
    exact .tag ht htag (hname ▸ hplace) ⟨_, _, henters.tagOf, hdeclares, hpath, hname, hkind⟩ helement

end TypeGraph
end
end Pdb
