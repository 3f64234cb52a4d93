import Mathlib.Data.Fintype.Card
import Mathlib.Data.Set.Finite.Basic
import Mathlib.Order.WellFounded
import Mathlib.Logic.Relation

/-!
# Locks whose release wakes up one waiter

A lock has at most one owner, and a process that finds it owned waits for it.
A release makes the lock free and wakes up one of its waiters.  That process
does not get the lock.  It retries, and another one may have taken the lock by
then.

The other waiters rely on `Attended`: somebody is there who will take the lock
and release it again.  Each step changes the data of one lock only, so that
`Attended.step` asks about that lock.  When nobody retries any more, what is
left are waiters for locks with an owner, and if no owner can run, some of them
wait in a circle.
-/

namespace OsPa
namespace Library

universe u v

structure Locks (Process : Type u) (Lock : Type v) where
  owner : Lock -> Option Process
  waits : Process -> Lock -> Prop
  retries : Process -> Lock -> Prop

namespace Locks

variable {Process : Type u} {Lock : Type v}

/-- A lock that is waited for has an owner, or a process that retries it. -/
def Attended (locks : Locks Process Lock) : Prop :=
  forall process lock, locks.waits process lock ->
    locks.owner lock ≠ none ∨ Exists fun other => locks.retries other lock

/-- The process waits for a lock of the other one. -/
def WaitsFor (locks : Locks Process Lock) (process other : Process) : Prop :=
  Exists fun lock => locks.waits process lock ∧ locks.owner lock = some other

/-- The processes that wait for some lock. -/
def waiting (locks : Locks Process Lock) : Set Process := {process | Exists fun lock => locks.waits process lock}

/-- A step that touches one lock keeps the others attended. -/
theorem Attended.step {before after : Locks Process Lock} (attended : before.Attended) (touched : Lock)
    (owner : forall lock, lock ≠ touched -> before.owner lock ≠ none -> after.owner lock ≠ none)
    (waits : forall process lock, lock ≠ touched -> after.waits process lock -> before.waits process lock)
    (retries : forall process lock, lock ≠ touched -> before.retries process lock -> after.retries process lock)
    (there : forall process, after.waits process touched ->
      after.owner touched ≠ none ∨ Exists fun other => after.retries other touched) : after.Attended := by
  intro process lock waiting
  by_cases same : lock = touched
  · subst lock
    exact there process waiting
  · rcases attended process lock (waits process lock same waiting) with owned | ⟨other, retrying⟩
    · exact Or.inl (owner lock same owned)
    · exact Or.inr ⟨other, retries other lock same retrying⟩

/-- A step that touches no lock. -/
theorem Attended.mono {before after : Locks Process Lock} (attended : before.Attended)
    (owner : forall lock, before.owner lock ≠ none -> after.owner lock ≠ none)
    (waits : forall process lock, after.waits process lock -> before.waits process lock)
    (retries : forall process lock, before.retries process lock -> after.retries process lock) :
    after.Attended := by
  intro process lock waiting
  rcases attended process lock (waits process lock waiting) with owned | ⟨other, retrying⟩
  · exact Or.inl (owner lock owned)
  · exact Or.inr ⟨other, retries other lock retrying⟩

theorem Attended.owned_of_rest {locks : Locks Process Lock} (attended : locks.Attended)
    (rest : forall process lock, ¬ locks.retries process lock) {process : Process} {lock : Lock}
    (waiting : locks.waits process lock) : Exists fun other => locks.owner lock = some other := by
  rcases attended process lock waiting with owned | ⟨other, retrying⟩
  · exact Option.ne_none_iff_exists'.mp owned
  · exact absurd retrying (rest other lock)

/-- In a finite set in which everybody is followed by somebody, there is a
circle. -/
theorem exists_circle {follows : Process -> Process -> Prop} {members : Set Process} (finite : members.Finite)
    (followed : forall process, process ∈ members -> Exists fun next => next ∈ members ∧ follows process next)
    {start : Process} (member : start ∈ members) :
    Exists fun process => process ∈ members ∧ Relation.TransGen follows process process := by
  by_contra acyclic
  let above : members -> members -> Prop := fun next process => Relation.TransGen follows process.1 next.1
  have transitive : IsTrans members above := ⟨fun _ _ _ first second => second.trans first⟩
  have irreflexive : Std.Irrefl above := ⟨fun process circle => acyclic ⟨process.1, process.2, circle⟩⟩
  have finiteMembers : Finite members := finite
  have wellFounded : WellFounded above := Finite.wellFounded_of_trans_of_irrefl above
  rcases wellFounded.has_min Set.univ ⟨⟨start, member⟩, trivial⟩ with ⟨last, _, isLast⟩
  rcases followed last.1 last.2 with ⟨next, nextMember, following⟩
  exact isLast ⟨next, nextMember⟩ trivial (Relation.TransGen.single following)

/-- When nobody retries and every owner of an awaited lock waits itself, there
is a circular wait. -/
theorem Attended.circularWait {locks : Locks Process Lock} (attended : locks.Attended)
    (rest : forall process lock, ¬ locks.retries process lock) (finite : locks.waiting.Finite)
    (stuck : forall process other, locks.WaitsFor process other -> other ∈ locks.waiting)
    {process : Process} (waiting : process ∈ locks.waiting) :
    Exists fun other => Relation.TransGen locks.WaitsFor other other := by
  have followed : forall process, process ∈ locks.waiting ->
      Exists fun next => next ∈ locks.waiting ∧ locks.WaitsFor process next := by
    rintro process ⟨lock, waits⟩
    rcases attended.owned_of_rest rest waits with ⟨next, owns⟩
    have follows : locks.WaitsFor process next := ⟨lock, waits, owns⟩
    exact ⟨next, stuck process next follows, follows⟩
  rcases exists_circle finite followed waiting with ⟨other, _, circle⟩
  exact ⟨other, circle⟩

/-- Along a chain of waiting the locks rise, where each process waits for a lock that
is higher than those it owns. -/
theorem rises_of_transGen (locks : Locks Process Lock) {Height : Type*} [Preorder Height] (height : Lock -> Height)
    (ordered : forall process held asked, locks.owner held = some process -> locks.waits process asked ->
      height held < height asked) {process other : Process} (chain : Relation.TransGen locks.WaitsFor process other) :
    Exists fun first => Exists fun last => locks.waits process first ∧ locks.owner last = some other ∧
      height first ≤ height last := by
  induction chain with
  | single follows =>
      rcases follows with ⟨lock, waits, owns⟩
      exact ⟨lock, lock, waits, owns, le_refl _⟩
  | tail _ follows inductionHypothesis =>
      rcases inductionHypothesis with ⟨first, last, waits, owns, rises⟩
      rcases follows with ⟨lock, waits', owns'⟩
      exact ⟨first, lock, waits, owns', rises.trans (le_of_lt (ordered _ last lock owns waits'))⟩

/-- Then nobody waits in a circle. -/
theorem acyclic_of_ordered (locks : Locks Process Lock) {Height : Type*} [Preorder Height] (height : Lock -> Height)
    (ordered : forall process held asked, locks.owner held = some process -> locks.waits process asked ->
      height held < height asked) (process : Process) : ¬ Relation.TransGen locks.WaitsFor process process := by
  intro circle
  rcases rises_of_transGen locks height ordered circle with ⟨first, last, waits, owns, rises⟩
  exact lt_irrefl _ ((ordered process last first owns waits).trans_le rises)

end Locks
end Library
end OsPa
