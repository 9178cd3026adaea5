/-! # Tables

A finite map as a list of pairs. Main statements: `find?_insert` and `find?_erase`, what is found
after a change. -/

namespace Pdb

/-- A finite map. -/
structure Table (κ υ : Type) where
  entries : List (κ × υ)
  deriving Repr

namespace Table
variable {κ υ : Type} [DecidableEq κ]

def empty : Table κ υ := ⟨[]⟩

instance : Inhabited (Table κ υ) := ⟨empty⟩

def find? (t : Table κ υ) (k : κ) : Option υ := (t.entries.find? fun e => e.1 = k).map (·.2)

def erase (t : Table κ υ) (k : κ) : Table κ υ := ⟨t.entries.filter fun e => e.1 ≠ k⟩

/-- The table with a key set to a value. -/
def insert (t : Table κ υ) (k : κ) (v : υ) : Table κ υ := ⟨(k, v) :: (t.erase k).entries⟩

def contains (t : Table κ υ) (k : κ) : Bool := (t.find? k).isSome

def size (t : Table κ υ) : Nat := t.entries.length

theorem find?_empty (k : κ) : (empty : Table κ υ).find? k = none := rfl

theorem find?_erase (t : Table κ υ) (k j : κ) :
    (t.erase k).find? j = if j = k then none else t.find? j := by
  obtain ⟨es⟩ := t
  simp only [find?, erase]
  induction es with
  | nil => simp
  | cons e es ih =>
    by_cases hk : e.1 = k <;> by_cases hj : e.1 = j <;> grind

theorem find?_insert (t : Table κ υ) (k j : κ) (v : υ) :
    (t.insert k v).find? j = if j = k then some v else t.find? j := by
  have h := find?_erase t k j
  simp only [find?] at h ⊢
  simp only [insert, List.find?_cons]
  by_cases hj : j = k
  · simp [hj]
  · have : ¬ k = j := fun h => hj h.symm
    simp [this, hj] at h ⊢
    exact h

end Table
end Pdb
