import Mathlib.Data.List.Chain
import Mathlib.Data.List.Forall2
import Pdb.Writer.Image

/-! # Dealing out pages

Pages are dealt out in ascending order, and none of them is special (`Dealt`). What is dealt out
behind other pages can be joined to them, so the pages of all streams of a container, of its
directory and of the map are in ascending order together, and no page is there twice. A stream with
`n` pages goes at most `6 * n` pages ahead.
-/

namespace Pdb

namespace PageSize
variable {size : PageSize} {page k : Nat}

theorem le_bytes (h : smallest.exponent ≤ size.exponent) : 512 ≤ size.bytes :=
  Nat.pow_le_pow_right (show 0 < 2 by decide) h

theorem isSpecial_iff : size.isSpecial page
    ↔ page = 0 ∨ page % size.bytes = 1 ∨ page % size.bytes = 2 := by
  simp [isSpecial, isFreeMapPage]

theorem add_mod_of_lt (h : page % size.bytes + k < size.bytes) :
    (page + k) % size.bytes = page % size.bytes + k := by
  have hk : k % size.bytes = k := Nat.mod_eq_of_lt (by omega)
  rw [Nat.add_mod, hk, Nat.mod_eq_of_lt h]

end PageSize

namespace ImagePlan
variable {size : PageSize} {page next last n : Nat} {pages more : List Nat} {s : PlannedStream}
  {ss : List PlannedStream}

theorem le_nextFree (size : PageSize) (page : Nat) : page ≤ nextFree size page := by
  rw [nextFree]
  split_ifs <;> omega

theorem nextFree_le (size : PageSize) (page : Nat) : nextFree size page ≤ page + 2 := by
  rw [nextFree]
  split_ifs <;> omega

theorem isSpecial_nextFree (hsize : 4 ≤ size.bytes) (hpage : 0 < page) :
    size.isSpecial (nextFree size page) = false := by
  rw [nextFree]
  split_ifs with h h'
  · rw [PageSize.isSpecial_iff] at h h'
    have hone : page % size.bytes = 1 := by
      rcases h with h | h | h
      · omega
      · exact h
      · rw [PageSize.add_mod_of_lt (by omega)] at h'
        omega
    rw [Bool.eq_false_iff, Ne, PageSize.isSpecial_iff, PageSize.add_mod_of_lt (by omega)]
    omega
  · exact Bool.eq_false_iff.2 h'
  · exact Bool.eq_false_iff.2 h

theorem deal_succ (size : PageSize) (n page : Nat) : deal size (n + 1) page
    = (nextFree size page :: (deal size n (nextFree size page + 1)).1,
      (deal size n (nextFree size page + 1)).2) := rfl

theorem place_eq (size : PageSize) (s : PlannedStream) (page : Nat) : place size s page
    = if s.isScattered then
        (everyOther (deal size (2 * size.pagesHolding s.bytes.length) page).1,
          (deal size (2 * size.pagesHolding s.bytes.length) page).2)
      else deal size (size.pagesHolding s.bytes.length) page := rfl

theorem placeAll_cons (size : PageSize) (page : Nat) (s : PlannedStream) (ss : List PlannedStream) :
    placeAll size page (s :: ss)
      = ((place size s page).1 :: (placeAll size (place size s page).2 ss).1,
        (placeAll size (place size s page).2 ss).2) := rfl

/-! ### Ascending pages -/

/-- Pages in ascending order between `page` and `next`, none of which is special. -/
structure Dealt (size : PageSize) (page : Nat) (pages : List Nat) (next : Nat) : Prop where
  ascending : pages.Pairwise (· < ·)
  le : ∀ p ∈ pages, page ≤ p
  lt : ∀ p ∈ pages, p < next
  free : ∀ p ∈ pages, size.isSpecial p = false
  le_next : page ≤ next

namespace Dealt

theorem nil (size : PageSize) (page : Nat) : Dealt size page [] page :=
  ⟨.nil, nofun, nofun, nofun, Nat.le_refl page⟩

theorem append (h : Dealt size page pages next) (h' : Dealt size next more last) :
    Dealt size page (pages ++ more) last where
  ascending := List.pairwise_append.2
    ⟨h.ascending, h'.ascending, fun p hp q hq => Nat.lt_of_lt_of_le (h.lt p hp) (h'.le q hq)⟩
  le p hp := (List.mem_append.1 hp).elim (h.le p) fun hp => Nat.le_trans h.le_next (h'.le p hp)
  lt p hp := (List.mem_append.1 hp).elim
    (fun hp => Nat.lt_of_lt_of_le (h.lt p hp) h'.le_next) (h'.lt p)
  free p hp := (List.mem_append.1 hp).elim (h.free p) (h'.free p)
  le_next := Nat.le_trans h.le_next h'.le_next

theorem sublist (h : Dealt size page pages next) (hsub : more.Sublist pages) :
    Dealt size page more next where
  ascending := h.ascending.sublist hsub
  le p hp := h.le p (hsub.subset hp)
  lt p hp := h.lt p (hsub.subset hp)
  free p hp := h.free p (hsub.subset hp)
  le_next := h.le_next

theorem nodup (h : Dealt size page pages next) : pages.Nodup :=
  h.ascending.imp fun hlt => Nat.ne_of_lt hlt

end Dealt

theorem dealt_nextFree (hsize : 4 ≤ size.bytes) (hpage : 0 < page) :
    Dealt size page [nextFree size page] (nextFree size page + 1) where
  ascending := List.pairwise_singleton ..
  le p hp := List.mem_singleton.1 hp ▸ le_nextFree size page
  lt p hp := by
    rw [List.mem_singleton.1 hp]
    exact Nat.lt_succ_self _
  free p hp := List.mem_singleton.1 hp ▸ isSpecial_nextFree hsize hpage
  le_next := Nat.le_succ_of_le (le_nextFree size page)

theorem dealt_deal (hsize : 4 ≤ size.bytes) (n : Nat) (hpage : 0 < page) :
    Dealt size page (deal size n page).1 (deal size n page).2 := by
  induction n generalizing page with
  | zero => exact .nil size page
  | succ n ih => exact (dealt_nextFree hsize hpage).append (ih (Nat.succ_pos _))

theorem length_deal (size : PageSize) (n page : Nat) : (deal size n page).1.length = n := by
  induction n generalizing page with
  | zero => rfl
  | succ n ih => rw [deal_succ, List.length_cons, ih]

theorem deal_le (size : PageSize) (n page : Nat) : (deal size n page).2 ≤ page + 3 * n := by
  induction n generalizing page with
  | zero => exact Nat.le_refl page
  | succ n ih =>
    have hfree := nextFree_le size page
    have hnext := ih (nextFree size page + 1)
    rw [deal_succ]
    omega

/-! ### Every other page -/

theorem everyOther_sublist {α : Type} (l : List α) : (everyOther l).Sublist l := by
  induction l using everyOther.induct with
  | case1 => exact .slnil
  | case2 a => exact .refl _
  | case3 a b r ih => exact (ih.cons b).cons_cons a

theorem length_everyOther {α : Type} (l : List α) : (everyOther l).length = (l.length + 1) / 2 := by
  induction l using everyOther.induct with
  | case1 => simp [everyOther]
  | case2 a => simp [everyOther]
  | case3 a b r ih =>
    rw [everyOther, List.length_cons, ih, List.length_cons, List.length_cons]
    omega

/-- Of ascending pages, every other one leaves a gap behind it. -/
theorem isChain_everyOther (h : pages.Pairwise (· < ·)) :
    (everyOther pages).IsChain fun p q => p + 1 < q := by
  induction pages using everyOther.induct with
  | case1 => exact .nil
  | case2 a => exact .singleton a
  | case3 a b r ih =>
    obtain ⟨ha, hb, hr⟩ := List.pairwise_cons.1 h |>.imp_right List.pairwise_cons.1
    refine List.isChain_cons.2 ⟨fun q hq => ?_, ih hr⟩
    have hab := ha b List.mem_cons_self
    have hbq := hb q ((everyOther_sublist r).subset (List.mem_of_mem_head? hq))
    omega

/-! ### The pages of the streams -/

/-- Pages that are as many as a stream needs, with gaps if it is scattered. -/
structure Placed (size : PageSize) (s : PlannedStream) (pages : List Nat) : Prop where
  length_eq : pages.length = size.pagesHolding s.bytes.length
  apart : s.isScattered = true → pages.IsChain fun p q => p + 1 < q

theorem place_placed (hsize : 4 ≤ size.bytes) (s : PlannedStream) (hpage : 0 < page) :
    Placed size s (place size s page).1 := by
  rw [place_eq]
  split
  · have hdealt := dealt_deal hsize (2 * size.pagesHolding s.bytes.length) hpage
    refine ⟨?_, fun _ => isChain_everyOther hdealt.ascending⟩
    rw [length_everyOther, length_deal]
    omega
  · next h => exact ⟨length_deal .., fun hs => absurd hs h⟩

theorem dealt_place (hsize : 4 ≤ size.bytes) (s : PlannedStream) (hpage : 0 < page) :
    Dealt size page (place size s page).1 (place size s page).2 := by
  rw [place_eq]
  split
  · exact (dealt_deal hsize _ hpage).sublist (everyOther_sublist _)
  · exact dealt_deal hsize _ hpage

theorem place_le (size : PageSize) (s : PlannedStream) (page : Nat) :
    (place size s page).2 ≤ page + 6 * size.pagesHolding s.bytes.length := by
  rw [place_eq]
  split
  · have h := deal_le size (2 * size.pagesHolding s.bytes.length) page
    omega
  · have h := deal_le size (size.pagesHolding s.bytes.length) page
    omega

theorem placeAll_placed (hsize : 4 ≤ size.bytes) (ss : List PlannedStream) (hpage : 0 < page) :
    List.Forall₂ (Placed size) ss (placeAll size page ss).1 := by
  induction ss generalizing page with
  | nil => exact .nil
  | cons s ss ih =>
    have hnext := (dealt_place hsize s hpage).le_next
    exact .cons (place_placed hsize s hpage) (ih (Nat.lt_of_lt_of_le hpage hnext))

theorem dealt_placeAll (hsize : 4 ≤ size.bytes) (ss : List PlannedStream) (hpage : 0 < page) :
    Dealt size page (placeAll size page ss).1.flatten (placeAll size page ss).2 := by
  induction ss generalizing page with
  | nil => exact .nil size page
  | cons s ss ih =>
    have hnext := (dealt_place hsize s hpage).le_next
    exact (dealt_place hsize s hpage).append (ih (Nat.lt_of_lt_of_le hpage hnext))

theorem placeAll_le (hsize : 4 ≤ size.bytes) (ss : List PlannedStream) (hpage : 0 < page) :
    (placeAll size page ss).2 ≤ page + 6 * (placeAll size page ss).1.flatten.length := by
  induction ss generalizing page with
  | nil => exact Nat.le_refl page
  | cons s ss ih =>
    have hnext := (dealt_place hsize s hpage).le_next
    have hplace := place_le size s page
    have hlength := (place_placed hsize s hpage).length_eq
    have hrest := ih (Nat.lt_of_lt_of_le hpage hnext)
    rw [placeAll_cons, List.flatten_cons, List.length_append]
    omega

end ImagePlan
end Pdb
