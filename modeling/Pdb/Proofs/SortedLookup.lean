import Mathlib.Data.List.Basic
import Mathlib.Data.List.Pairwise

/-! # Looking up in a sorted list

A table is sorted, and what stands last at or below a bound is looked up in it. Sorting is stable, so
this is one of the greatest elements there, and of those the one that stood last in the list before it
was sorted: `of_getLast?_takeWhile_mergeSort`. -/

namespace Pdb
variable {α : Type} {p : α → Bool} {xs : List α} {e x : α}

/-- What satisfies a test is in front of the rest if the test passes to whatever stands in front. -/
theorem takeWhile_eq_filter (h : xs.Pairwise fun x y => p y → p x) :
    xs.takeWhile p = xs.filter p := by
  induction xs with
  | nil => rfl
  | cons x xs ih =>
    obtain ⟨hx, hxs⟩ := List.pairwise_cons.1 h
    by_cases hp : p x
    · rw [List.takeWhile_cons_of_pos hp, List.filter_cons_of_pos hp, ih hxs]
    · rw [List.takeWhile_cons_of_neg hp, List.filter_cons_of_neg hp]
      exact (List.filter_eq_nil_iff.2 fun y hy hpy => hp (hx y hy hpy)).symm

theorem rel_getLast? {R : α → α → Prop} (h : xs.Pairwise R) (hrefl : R e e)
    (hlast : xs.getLast? = some e) (hx : x ∈ xs) : R x e := by
  obtain ⟨ys, rfl⟩ := List.getLast?_eq_some_iff.1 hlast
  rcases List.mem_append.1 hx with hx | hx
  · exact (List.pairwise_append.1 h).2.2 x hx e (by simp)
  · rwa [List.mem_singleton.1 hx]

theorem getLast?_filter_eq_some_iff : (xs.filter p).getLast? = some e ↔
    p e ∧ ∃ front back, xs = front ++ e :: back ∧ ∀ x ∈ back, ¬ p x := by
  rw [List.getLast?_filter, List.find?_eq_some_iff_append]
  refine and_congr_right fun _ => ⟨?_, ?_⟩
  · rintro ⟨as, bs, heq, has⟩
    refine ⟨bs.reverse, as.reverse, ?_, fun x hx => by simpa using has x (by simpa using hx)⟩
    rw [← List.reverse_reverse xs, heq]
    simp
  · rintro ⟨front, back, rfl, hback⟩
    exact ⟨back.reverse, front.reverse, by simp, fun x hx => by simpa using hback x (by simpa using hx)⟩

/-- If no two parts of a list have anything in common, what has something in common is one part. -/
theorem eq_of_disjoint {β : Type} {R : α → β → Prop} {y : α} {b : β}
    (h : xs.Pairwise fun x y => ∀ b, ¬ (R x b ∧ R y b)) (hx : x ∈ xs) (hy : y ∈ xs) (hxb : R x b)
    (hyb : R y b) : x = y := by
  by_contra hne
  have hsymm : Std.Symm fun x y => ∀ b, ¬ (R x b ∧ R y b) :=
    ⟨fun _ _ hdisjoint b hb => hdisjoint b hb.symm⟩
  exact h.forall hx hy hne b ⟨hxb, hyb⟩

/-! ### Sorting -/

/-- What a sort asks of its comparison. -/
structure Sorts (le : α → α → Bool) : Prop where
  trans : ∀ a b c, le a b → le b c → le a c
  total : ∀ a b, le a b || le b a

namespace Sorts
variable {le : α → α → Bool}

theorem refl (h : Sorts le) (a : α) : le a a := by
  simpa using h.total a a

theorem pairwise (h : Sorts le) (xs : List α) : (xs.mergeSort le).Pairwise fun a b => le a b :=
  List.pairwise_mergeSort h.trans h.total xs

theorem mergeSort_eq {ys : List α} (h : Sorts le) (hperm : xs.Perm ys)
    (hsorted : ys.Pairwise fun a b => le a b)
    (hanti : ∀ a ∈ ys, ∀ b ∈ ys, le a b → le b a → a = b) : xs.mergeSort le = ys := by
  have hsame : (xs.mergeSort le).Perm ys := (List.mergeSort_perm xs le).trans hperm
  exact hsame.eq_of_pairwise (fun a b ha hb => hanti a (hsame.mem_iff.1 ha) b hb) (h.pairwise xs) hsorted

theorem takeWhile_mergeSort (h : Sorts le) (hp : ∀ x y, le x y → p y → p x) :
    (xs.mergeSort le).takeWhile p = (xs.mergeSort le).filter p :=
  takeWhile_eq_filter ((h.pairwise xs).imp fun hle => hp _ _ hle)

theorem isSome_getLast?_takeWhile_mergeSort (h : Sorts le) (hp : ∀ x y, le x y → p y → p x) :
    ((xs.mergeSort le).takeWhile p).getLast?.isSome ↔ ∃ x ∈ xs, p x := by
  rw [h.takeWhile_mergeSort hp, List.getLast?_isSome, ne_eq, List.filter_eq_nil_iff]
  simp

/-- What is above `e` in a list of which `e` is the greatest is left in its order by a stable sort. -/
theorem filter_mergeSort (h : Sorts le) {q : α → Bool} (hq : ∀ x ∈ xs, ∀ y ∈ xs, q x → q y → le x y) :
    (xs.mergeSort le).filter q = xs.filter q := by
  have hsorted : (xs.filter q).Pairwise fun a b => le a b := by
    rw [List.pairwise_iff_forall_sublist]
    intro a b hab
    have ha := hab.subset (List.mem_cons_self (l := [b]))
    have hb := hab.subset (List.mem_cons_of_mem a (List.mem_singleton_self b))
    rw [List.mem_filter] at ha hb
    exact hq a ha.1 b hb.1 ha.2 hb.2
  have hsub := (List.sublist_mergeSort h.trans h.total hsorted List.filter_sublist).filter q
  have hperm := (List.mergeSort_perm xs le).filter q
  rw [List.filter_filter] at hsub
  simp only [Bool.and_self] at hsub
  exact (hsub.eq_of_length hperm.length_eq.symm).symm

/-- The element that is found is the last of the greatest ones that the test lets through. -/
theorem of_getLast?_takeWhile_mergeSort (h : Sorts le) (hp : ∀ x y, le x y → p y → p x)
    (hlast : ((xs.mergeSort le).takeWhile p).getLast? = some e) :
    e ∈ xs ∧ p e ∧ (∀ x ∈ xs, p x → le x e)
      ∧ (xs.filter fun x => p x && le e x).getLast? = some e := by
  rw [h.takeWhile_mergeSort hp] at hlast
  have hmem := List.mem_filter.1 (List.mem_of_getLast? hlast)
  have hgreatest {x : α} (hx : x ∈ xs) (hpx : p x) : le x e := by
    refine rel_getLast? (R := fun a b => le a b) ((h.pairwise xs).sublist List.filter_sublist)
      (h.refl e) hlast ?_
    exact List.mem_filter.2 ⟨List.mem_mergeSort.2 hx, hpx⟩
  refine ⟨List.mem_mergeSort.1 hmem.1, hmem.2, fun x hx => hgreatest hx, ?_⟩
  rw [← h.filter_mergeSort]
  · obtain ⟨hpe, front, back, heq, hback⟩ := getLast?_filter_eq_some_iff.1 hlast
    refine getLast?_filter_eq_some_iff.2 ⟨by simp [hpe, h.refl e], front, back, heq, fun x hx => ?_⟩
    simp [hback x hx]
  · intro x hx y hy hx' hy'
    simp only [Bool.and_eq_true] at hx' hy'
    exact h.trans x e y (hgreatest hx hx'.1) hy'.2

end Sorts
end Pdb
