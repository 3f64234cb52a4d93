import Mathlib.Algebra.Order.BigOperators.Group.Finset
import Mathlib.Data.Fintype.BigOperators

/-!
# Items in the lists of several places

When a node is linked into one list at a time, every item occurs at most once
in all lists together.  The number of copies is the sum over the places, which
an operation on one list changes by what it does to that list.
-/

namespace OsPa
namespace Library

universe u v

variable {Place : Type u} {Item : Type v} [Fintype Place] [DecidableEq Item]

/-- How often an item occurs in the lists of all places. -/
def copies (lists : Place -> List Item) (item : Item) : Nat :=
  Finset.univ.sum fun place => (lists place).count item

/-- Another list in one place changes the number of copies by the difference. -/
theorem copies_update [DecidableEq Place] (lists : Place -> List Item) (place : Place) (list : List Item)
    (item : Item) :
    copies (Function.update lists place list) item + (lists place).count item =
      copies lists item + list.count item := by
  have before := Finset.add_sum_erase Finset.univ (fun other => (lists other).count item) (Finset.mem_univ place)
  have after := Finset.add_sum_erase Finset.univ
    (fun other => (Function.update lists place list other).count item) (Finset.mem_univ place)
  have elsewhere : ((Finset.univ.erase place).sum fun other => (Function.update lists place list other).count item) =
      (Finset.univ.erase place).sum fun other => (lists other).count item := by
    apply Finset.sum_congr rfl
    intro other member
    rw [Function.update_of_ne (Finset.ne_of_mem_erase member)]
  simp only [Function.update_self] at after
  simp only [copies]
  omega

theorem count_le_copies (lists : Place -> List Item) (place : Place) (item : Item) :
    (lists place).count item ≤ copies lists item := by
  unfold copies
  apply Finset.single_le_sum_of_canonicallyOrdered (Finset.mem_univ place)

theorem copies_pos {lists : Place -> List Item} {item : Item} :
    0 < copies lists item ↔ Exists fun place => item ∈ lists place := by
  constructor
  · intro positive
    by_contra nowhere
    have none : copies lists item = 0 :=
      Finset.sum_eq_zero fun place _ => List.count_eq_zero.mpr fun member => nowhere ⟨place, member⟩
    omega
  · rintro ⟨place, member⟩
    have positive := List.count_pos_iff.mpr member
    have bounded := count_le_copies lists place item
    omega

/-- An item with one copy that is in one place is in no other. -/
theorem eq_of_copies_le_one [DecidableEq Place] {lists : Place -> List Item} {item : Item}
    (once : copies lists item ≤ 1) {place other : Place} (member : item ∈ lists place)
    (found : item ∈ lists other) : other = place := by
  by_contra different
  have removed := copies_update lists place [] item
  have remaining := count_le_copies (Function.update lists place []) other item
  rw [Function.update_of_ne different] at remaining
  have here := List.count_pos_iff.mpr member
  have there := List.count_pos_iff.mpr found
  rw [List.count_nil] at removed
  omega

end Library
end OsPa
