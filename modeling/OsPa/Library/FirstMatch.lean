import Mathlib.Logic.Function.Basic

/-!
# Arrays searched from the front

A small cache is often an array of tagged slots in which a search takes the
first slot with the wanted tag.  Several slots may carry one tag, and then the
first of them hides the others.  The lemmas here say which slot is the first
one after a tag has been stored or cleared.
-/

namespace OsPa
namespace Library

universe u

variable {Tag : Type u}

/-- The slot carries the tag, and no earlier slot does. -/
def First (tags : Nat -> Option Tag) (slot : Nat) (tag : Tag) : Prop :=
  tags slot = some tag ∧ forall earlier, earlier < slot -> tags earlier ≠ some tag

namespace First

variable {tags : Nat -> Option Tag} {slot other : Nat} {tag : Tag}

theorem unique (first : First tags slot tag) (second : First tags other tag) : slot = other := by
  rcases Nat.lt_trichotomy slot other with before | same | after
  · exact absurd first.1 (second.2 slot before)
  · exact same
  · exact absurd second.1 (first.2 other after)

/-- Storing a tag before all slots that carry it makes its slot the first one. -/
theorem update_self (before : forall earlier, earlier < slot -> tags earlier ≠ some tag) :
    First (Function.update tags slot (some tag)) slot tag := by
  refine ⟨Function.update_self .., ?_⟩
  intro earlier less
  rw [Function.update_of_ne (Nat.ne_of_lt less)]
  exact before earlier less

/-- Storing into a slot that carries no other tag leaves the first slots of
the other tags where they are. -/
theorem of_update {wanted : Tag} (vacant : tags slot = none ∨ tags slot = some tag) {stored : Option Tag}
    (kept : stored = none ∨ stored = some tag) (different : wanted ≠ tag)
    (first : First (Function.update tags slot stored) other wanted) : First tags other wanted := by
  have unaffected : forall index, Function.update tags slot stored index = some wanted ↔
      tags index = some wanted := by
    intro index
    by_cases here : index = slot
    · subst index
      rw [Function.update_self]
      have notStored : stored ≠ some wanted := by
        rcases kept with rfl | rfl
        · nofun
        · exact fun same => different (Option.some.inj same).symm
      have notThere : tags slot ≠ some wanted := by
        rcases vacant with none | same
        · rw [none]
          nofun
        · rw [same]
          exact fun equal => different (Option.some.inj equal).symm
      exact iff_of_false notStored notThere
    · rw [Function.update_of_ne here]
  exact ⟨(unaffected other).mp first.1, fun earlier less is => first.2 earlier less ((unaffected earlier).mpr is)⟩

end First
end Library
end OsPa
