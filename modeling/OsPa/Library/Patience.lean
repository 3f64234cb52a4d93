import Mathlib.Data.List.Count
import Mathlib.Logic.Relation
import OsPa.Library.Turns

/-!
# Waiting with a growing key

Items wait in a line of which one with the largest key is served at a time, and
the keys of all that stay behind go up by one.  Whoever joins the line has a key
of at most a bound.  However often that happens, the keys in the line thin out
above the bound: of `limit` items at most `limit - extra` have a key of at least
`bound + extra`, so that no key ever reaches `bound + limit`.  As every service
takes an item that waits one key further, it cannot wait long.
-/

namespace OsPa
namespace Library

universe u v

/-! ## Runs until something is seen -/

section Traces

variable {State : Type u} {Label : Type v} {step : State -> State -> Prop} {seen : State -> State -> List Label}
  {start final : State}

theorem Trace.of_reflTransGen (seen : State -> State -> List Label) (steps : Relation.ReflTransGen step start final) :
    Exists fun labels => Trace step seen start labels final := by
  induction steps with
  | refl => exact ⟨[], .refl⟩
  | tail _ last inductionHypothesis =>
      rcases inductionHypothesis with ⟨labels, trace⟩
      exact ⟨_, trace.tail last⟩

/-- A run can be cut at the first step that shows a label, if a step shows at most
one. -/
theorem Trace.cut {labels : List Label} {label : Label}
    (one : forall before after, (seen before after).length ≤ 1) (trace : Trace step seen start labels final)
    (member : label ∈ labels) : Exists fun earlier => Exists fun middle => Exists fun reached =>
      label ∉ earlier ∧ Trace step seen start earlier middle ∧ step middle reached ∧
        seen middle reached = [label] := by
  induction trace with
  | refl => cases member
  | @tail earlier middle final trace last inductionHypothesis =>
      by_cases before : label ∈ earlier
      · exact inductionHypothesis before
      · have now : label ∈ seen middle final := (List.mem_append.mp member).resolve_left before
        have alone : seen middle final = [label] := by
          have few := one middle final
          cases shown : seen middle final with
          | nil =>
              rw [shown] at now
              cases now
          | cons first rest =>
              rw [shown] at now few
              have none : rest = [] := List.eq_nil_of_length_eq_zero (Nat.le_zero.mp (Nat.le_of_succ_le_succ few))
              rw [none] at now ⊢
              rw [List.mem_singleton.mp now]
        exact ⟨earlier, middle, final, before, trace, last, alone⟩

end Traces

/-! ## Lines that thin out -/

variable {Item : Type u} {bound limit : Nat} {key key' : Item -> Nat} {line : List Item}

/-- The larger a key is above the bound, the fewer items have it. -/
structure Thinned (bound limit : Nat) (key : Item -> Nat) (line : List Item) : Prop where
  length : line.length ≤ limit
  sparse : forall extra, 0 < extra -> line.countP (fun item => decide (bound + extra ≤ key item)) ≤ limit - extra

namespace Thinned

theorem nil (bound limit : Nat) (key : Item -> Nat) : Thinned bound limit key [] :=
  ⟨Nat.zero_le _, fun _ _ => Nat.zero_le _⟩

/-- No key reaches the sum of the bounds. -/
theorem key_lt (thinned : Thinned bound limit key line) {item : Item} (member : item ∈ line) :
    key item < bound + limit := by
  by_contra large
  have occupied : 0 < line.countP fun item => decide (bound + limit ≤ key item) :=
    List.countP_pos_iff.mpr ⟨item, member, decide_eq_true (Nat.le_of_not_lt large)⟩
  have positive : 0 < limit := Nat.lt_of_lt_of_le (List.length_pos_of_mem member) thinned.length
  have few := thinned.sparse limit positive
  omega

theorem congr (thinned : Thinned bound limit key line) (same : forall item, item ∈ line -> key' item = key item) :
    Thinned bound limit key' line := by
  refine ⟨thinned.length, fun extra positive => ?_⟩
  have counted : line.countP (fun item => decide (bound + extra ≤ key' item)) =
      line.countP fun item => decide (bound + extra ≤ key item) :=
    List.countP_congr fun item member => by rw [same item member]
  rw [counted]
  exact thinned.sparse extra positive

/-- Others join whose keys are not above the bound. -/
theorem join (thinned : Thinned bound limit key line) {more : List Item} (length : (line ++ more).length ≤ limit)
    (small : forall item, item ∈ more -> key item ≤ bound) : Thinned bound limit key (line ++ more) := by
  refine ⟨length, fun extra positive => ?_⟩
  have none : more.countP (fun item => decide (bound + extra ≤ key item)) = 0 := by
    apply List.countP_eq_zero.mpr
    intro item member large
    have atMost := small item member
    have atLeast := of_decide_eq_true large
    omega
  rw [List.countP_append, none, Nat.add_zero]
  exact thinned.sparse extra positive

/-- One of the largest key is served, and the others go up by one. -/
theorem serve [DecidableEq Item] (thinned : Thinned bound limit key line) {best : Item} (member : best ∈ line)
    (largest : forall item, item ∈ line -> key item ≤ key best)
    (promoted : forall item, item ∈ line.erase best -> key' item = key item + 1) :
    Thinned bound limit key' (line.erase best) := by
  have length := List.length_erase_of_mem member
  have occupied := List.length_pos_of_mem member
  refine ⟨by have short := thinned.length; omega, fun extra positive => ?_⟩
  -- Who is above a level now was not far below it, and the largest of these has left.
  have before : (line.erase best).countP (fun item => decide (bound + extra ≤ key' item)) =
      (line.erase best).countP fun item => decide (bound + (extra - 1) ≤ key item) := by
    apply List.countP_congr
    intro item stays
    rw [promoted item stays, decide_eq_true_iff, decide_eq_true_iff]
    omega
  rw [before]
  by_cases high : bound + (extra - 1) ≤ key best
  · have counted := (List.perm_cons_erase member).countP_eq fun item => decide (bound + (extra - 1) ≤ key item)
    rw [List.countP_cons, if_pos (decide_eq_true high)] at counted
    have whole : line.countP (fun item => decide (bound + (extra - 1) ≤ key item)) ≤ limit - (extra - 1) := by
      by_cases first : extra - 1 = 0
      · rw [first, Nat.sub_zero]
        exact List.countP_le_length.trans thinned.length
      · exact thinned.sparse (extra - 1) (Nat.pos_of_ne_zero first)
    omega
  · have none : (line.erase best).countP (fun item => decide (bound + (extra - 1) ≤ key item)) = 0 := by
      apply List.countP_eq_zero.mpr
      intro item stays large
      have atMost := largest item (List.mem_of_mem_erase stays)
      exact high ((of_decide_eq_true large).trans atMost)
    rw [none]
    exact Nat.zero_le _

end Thinned

end Library
end OsPa
