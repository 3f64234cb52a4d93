import Mathlib.Data.List.Nodup
import OsPa.Library.Selection

/-!
# Taking turns

Items wait in a line that others join at its end, and the one of largest key is
served, the earliest of them if there are several.  While an item waits, those of
its own key in front of it may be served, and nobody of its own key is served
twice: whoever joins again does so behind it.

What is served is observed along a run of any transition system.  `Trace` is
such a run together with its observations.
-/

namespace OsPa
namespace Library

universe u v w

/-! ## Observed runs -/

/-- Steps one after another, and what is seen of them. -/
inductive Trace {State : Type u} {Label : Type v} (step : State -> State -> Prop)
    (seen : State -> State -> List Label) (start : State) : List Label -> State -> Prop
  | refl : Trace step seen start [] start
  | tail {labels : List Label} {middle final : State} (trace : Trace step seen start labels middle)
      (last : step middle final) : Trace step seen start (labels ++ seen middle final) final

/-- What a step keeps between the observations and the state holds of a run. -/
theorem Trace.invariant {State : Type u} {Label : Type v} {step : State -> State -> Prop}
    {seen : State -> State -> List Label} {start final : State} {labels : List Label}
    (trace : Trace step seen start labels final) (related : List Label -> State -> Prop)
    (initially : related [] start)
    (preserved : forall labels before after, related labels before -> step before after ->
      related (labels ++ seen before after) after) : related labels final := by
  induction trace with
  | refl => exact initially
  | tail _ last inductionHypothesis => exact preserved _ _ _ inductionHypothesis last

/-! ## Waiting in line -/

variable {Item : Type u} {Key : Type w} [DecidableEq Item] [LinearOrder Key]

/-- The item waits.  Nobody of smaller key has been served, and who has its key
has been served or is in front of it, and that once. -/
def Waits (key : Item -> Key) (item : Item) (served line : List Item) : Prop :=
  Exists fun before => Exists fun after => line = before ++ item :: after ∧ item ∉ before ∧
    (forall other, other ∈ served -> key item ≤ key other) ∧
      forall other, key other = key item -> served.count other + before.count other ≤ 1

namespace Waits

variable {key : Item -> Key} {item best : Item} {served line : List Item}

theorem start (key : Item -> Key) (distinct : line.Nodup) (member : item ∈ line) : Waits key item [] line := by
  rcases List.append_of_mem member with ⟨before, after, rfl⟩
  have apart := List.nodup_append.mp distinct
  refine ⟨before, after, rfl, ?_, fun _ never => absurd never List.not_mem_nil, ?_⟩
  · exact fun early => apart.2.2 item early item List.mem_cons_self rfl
  · intro other _
    rw [List.count_nil, Nat.zero_add]
    exact List.nodup_iff_count_le_one.mp apart.1 other

/-- Others join the line. -/
theorem join (waits : Waits key item served line) (more : List Item) : Waits key item served (line ++ more) := by
  rcases waits with ⟨before, after, rfl, rest⟩
  refine ⟨before, after ++ more, ?_, rest⟩
  rw [List.append_assoc, List.cons_append]

/-- Somebody else is served. -/
theorem serve (waits : Waits key item served line) (chosen : EarliestMax key line best) (other : best ≠ item) :
    Waits key item (served ++ [best]) (line.erase best) := by
  rcases waits with ⟨before, after, rfl, outside, larger, once⟩
  have notSmaller := chosen.le item (List.mem_append_right _ List.mem_cons_self)
  have larger' : forall other, other ∈ served ++ [best] -> key item ≤ key other := by
    intro other member
    rcases List.mem_append.mp member with earlier | last
    · exact larger other earlier
    · rw [List.mem_singleton.mp last]
      exact notSmaller
  by_cases front : best ∈ before
  · refine ⟨before.erase best, after, List.erase_append_left _ front, ?_, larger', ?_⟩
    · exact fun member => outside (List.mem_of_mem_erase member)
    · intro third same
      have bounded := once third same
      rw [List.count_append, List.count_erase, List.count_singleton]
      by_cases itself : best = third
      · subst third
        have positive := List.count_pos_iff.mpr front
        simp only [beq_self_eq_true, if_true]
        omega
      · rw [beq_false_of_ne itself]
        simp only [Bool.false_eq_true, if_false]
        omega
  · -- Behind the item only a larger key is the first of largest key.
    have strictly : key item < key best := by
      rcases chosen with ⟨first, rest, split, smaller, _⟩
      apply smaller
      by_contra late
      rcases List.append_eq_append_iff.mp split with ⟨between, rfl, inside⟩ | ⟨between, rfl, inside⟩
      · cases between with
        | nil =>
            rw [List.nil_append] at inside
            exact other (List.cons.inj inside).1.symm
        | cons head tail =>
            rw [List.cons_append] at inside
            apply late
            rw [(List.cons.inj inside).1]
            exact List.mem_append_right _ List.mem_cons_self
      · cases between with
        | nil =>
            rw [List.nil_append] at inside
            exact other (List.cons.inj inside).1
        | cons head tail =>
            rw [List.cons_append] at inside
            apply front
            rw [(List.cons.inj inside).1]
            exact List.mem_append_right _ List.mem_cons_self
    refine ⟨before, after.erase best, ?_, outside, larger', ?_⟩
    · rw [List.erase_append_right _ front, List.erase_cons_tail]
      exact fun same => other (beq_iff_eq.mp same).symm
    · intro third same
      have different : best ≠ third := by
        rintro rfl
        exact absurd same (ne_of_gt strictly)
      rw [List.count_append, List.count_singleton, beq_false_of_ne different]
      exact once third same

end Waits

end Library
end OsPa
