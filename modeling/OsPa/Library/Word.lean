/-!
# Unsigned machine words by their values

An `unsigned int` is represented by the natural number it stands for.  Most
values of the programs never come near the word size and need no more than
that.  Counters that are stepped up and down do: their two steps wrap, and the
lemmas here say what wrapping means for a counter that is known modulo the
word size.
-/

namespace OsPa
namespace Library
namespace Word

/-- The number of values of an `unsigned int`. -/
def size : Nat := 4294967296

/-- `x++` on an `unsigned int`. -/
def succ (value : Nat) : Nat := (value + 1) % size

/-- `x--` on an `unsigned int`: zero wraps to the largest value. -/
def pred (value : Nat) : Nat := if value = 0 then size - 1 else value - 1

/-- `a - b` on `unsigned int`s. -/
def sub (left right : Nat) : Nat := if right ≤ left then left - right else left + size - right

theorem pred_lt {value : Nat} (bounded : value < size) : pred value < size := by
  unfold pred
  split
  · decide
  · exact Nat.lt_of_le_of_lt (Nat.sub_le ..) bounded

theorem succ_mod (count : Nat) : succ (count % size) = (count + 1) % size := by
  simp only [succ, size]
  omega

theorem pred_mod {count : Nat} (positive : 0 < count) : pred (count % size) = (count - 1) % size := by
  by_cases wraps : count % size = 0
  · rw [pred, if_pos wraps]
    simp only [size] at *
    omega
  · rw [pred, if_neg wraps]
    simp only [size] at *
    omega

theorem pred_of_pos {value : Nat} (positive : 0 < value) : pred value = value - 1 :=
  if_neg (Nat.ne_of_gt positive)

end Word
end Library
end OsPa
