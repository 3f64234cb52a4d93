import OsPa.Sched.Termination
import OsPa.Sched.WakeUp

namespace OsPa
namespace Sched

open Library

/-!
# Resources in an order

None of the schedulers keeps processes from waiting in a circle.  A script can: if each
of its processes asks only for resources that come after those it holds, in some order
that is the same for all of them, then all processes exit.

At what age a process holds a resource follows from the script, except for those that
it acquires at the same age.  These it acquires in the order of the script, and that is
the invariant here.
-/

/-- The entries of a description ask for resources that come after those of the
entries that are still held then. -/
structure Description.Ascending (order : Nat -> Nat) (description : Description) : Prop where
  later : forall held, held ∈ description.acquires -> forall asked, asked ∈ description.acquires ->
    held.at_ < asked.at_ -> asked.at_ < held.at_ + held.duration -> order held.resourceId < order asked.resourceId
  together : description.acquires.Pairwise fun held asked =>
    held.at_ = asked.at_ -> order held.resourceId < order asked.resourceId

instance (order : Nat -> Nat) (description : Description) : Decidable (description.Ascending order) :=
  decidable_of_iff
    ((forall held, held ∈ description.acquires -> forall asked, asked ∈ description.acquires ->
      held.at_ < asked.at_ -> asked.at_ < held.at_ + held.duration ->
        order held.resourceId < order asked.resourceId) ∧
      description.acquires.Pairwise fun held asked =>
        held.at_ = asked.at_ -> order held.resourceId < order asked.resourceId)
    ⟨fun ascending => ⟨ascending.1, ascending.2⟩, fun ascending => ⟨ascending.later, ascending.together⟩⟩

/-- What a process holds comes before what it still acquires at the same age. -/
structure Process.Ascending (order : Nat -> Nat) (process : Process) : Prop where
  pending : process.resourcesToAcquire.Pairwise fun first second =>
    first.at_ = second.at_ -> order first.resourceId < order second.resourceId
  held : forall held, held ∈ process.resourcesHolding -> forall asked, asked ∈ process.resourcesToAcquire ->
    held.at_ = asked.at_ -> order held.resourceId < order asked.resourceId

section Moves

variable {script : Script} {order : Nat -> Nat} {before after : Configuration} {events : List Event}

private theorem Process.Ascending.congr {process process' : Process} (ascending : process.Ascending order)
    (pending : process'.resourcesToAcquire = process.resourcesToAcquire)
    (held : process'.resourcesHolding = process.resourcesHolding) : process'.Ascending order :=
  ⟨pending ▸ ascending.pending, held ▸ pending ▸ ascending.held⟩

/-- The entry that is due comes after what is held, and before the rest of what is
due. -/
private theorem Process.Ascending.take {process : Process} (ascending : process.Ascending order)
    {kept todo : List ResourceSchedule} {rs : ResourceSchedule}
    (resources : process.resourcesToAcquire = kept ++ rs :: todo)
    (passed : forall other, other ∈ kept -> other.at_ ≠ rs.at_) : (process.take kept todo rs).Ascending order := by
  rcases ascending with ⟨pending, held⟩
  rw [resources] at pending held
  constructor
  case pending =>
    have shorter : (kept ++ todo).Sublist (kept ++ rs :: todo) := (List.sublist_cons_self rs todo).append_left kept
    exact pending.sublist shorter
  case held =>
    intro earlier member asked asks together
    rcases List.mem_append.mp asks with early | late
    · rcases List.mem_append.mp member with old | new
      · exact held earlier old asked (List.mem_append_left _ early) together
      · rw [List.mem_singleton.mp new] at together
        exact absurd together.symm (passed asked early)
    · rcases List.mem_append.mp member with old | new
      · exact held earlier old asked (List.mem_append_right _ (List.mem_cons_of_mem _ late)) together
      · rw [List.mem_singleton.mp new] at together ⊢
        exact (List.pairwise_cons.mp (List.pairwise_append.mp pending).2.1).1 asked late together

/-- Neither counting an entry down nor dropping it changes what the others are. -/
private theorem Process.Ascending.hold {process : Process} (ascending : process.Ascending order)
    {holding : List ResourceSchedule}
    (entries : forall held, held ∈ holding -> Exists fun old => old ∈ process.resourcesHolding ∧
      held.at_ = old.at_ ∧ held.resourceId = old.resourceId) : (process.hold holding).Ascending order := by
  refine ⟨ascending.pending, ?_⟩
  intro held member asked asks together
  rcases entries held member with ⟨old, inside, sameAge, sameResource⟩
  rw [sameResource]
  exact ascending.held old inside asked asks (sameAge.symm.trans together)

/-- A move keeps all processes in order. -/
private theorem Move.ascending (sound : Sound script before) (move : Move before events after)
    (ascending : forall process, (before.2.process process).Ascending order) (process : Nat) :
    (after.2.process process).Ascending order := by
  have earlier := ascending process
  cases move.change process with
  | other _ changed | pass changed | refuse changed | grow changed | finish changed =>
      rw [changed]
      exact earlier.congr rfl rfl
  | @grant kept todo rs state _ prio isDue changed =>
      cases sound with
      | acquiring acquiring =>
          have passed : forall other, other ∈ kept -> other.at_ ≠ rs.at_ :=
            fun other member => isDue.symm ▸ acquiring.passed other member
          have taken := earlier.take acquiring.resources passed
          rw [changed]
          exact taken.congr rfl rfl
  | @keep kept todo rs state _ changed =>
      cases sound with
      | releasing releasing =>
          rw [changed]
          apply earlier.hold
          intro held member
          dsimp only
          rw [releasing.resources]
          rcases List.mem_append.mp member with early | late
          · exact ⟨held, List.mem_append_left _ early, rfl, rfl⟩
          · rcases List.mem_cons.mp late with rfl | later
            · exact ⟨rs, List.mem_append_right _ List.mem_cons_self, rfl, rfl⟩
            · exact ⟨held, List.mem_append_right _ (List.mem_cons_of_mem _ later), rfl, rfl⟩
  | @release kept todo rs state _ _ _ expires changed =>
      cases sound with
      | releasing releasing =>
          have dropped : ((state.process process).hold (kept ++ todo)).Ascending order := by
            apply earlier.hold
            intro held member
            dsimp only
            rw [releasing.resources]
            rcases List.mem_append.mp member with early | late
            · exact ⟨held, List.mem_append_left _ early, rfl, rfl⟩
            · exact ⟨held, List.mem_append_right _ (List.mem_cons_of_mem _ late), rfl, rfl⟩
          rw [changed]
          exact dropped.congr rfl rfl

private theorem Reaches.ascending {sched : Scheduler} (valid : script.Valid) (lawful : Lawful sched)
    (ascending : forall description, description ∈ script -> description.Ascending order) {reached : Configuration}
    (reaches : Reaches sched script reached) (process : Nat) : (reached.2.process process).Ascending order := by
  have loaded : forall process, (script.initial.process process).Ascending order := by
    intro process
    refine ⟨?_, fun _ never => absurd never List.not_mem_nil⟩
    by_cases inside : process < script.length
    · exact (ascending _ (Script.description_mem inside)).together
    · have nothing : (script.initial.process process).resourcesToAcquire = [] := by
        have loads : (script.initial.process process).resourcesToAcquire = (script.description process).acquires := rfl
        rw [loads, Script.description_absent inside]
      rw [nothing]
      exact List.Pairwise.nil
  exact (reaches.invariant valid lawful loaded
    (fun sound ascending move => move.ascending sound ascending)).2 process

end Moves

section Ended

variable {script : Script} {order : Nat -> Nat} {state : State}

/-- The entry that a process waits for is one that it still has to acquire. -/
theorem Process.firstDue_mem {process : Process} {resourceId : Nat} (isDue : process.firstDue = some resourceId) :
    Exists fun rs => rs ∈ process.resourcesToAcquire ∧ rs.at_ = process.age ∧ rs.resourceId = resourceId := by
  unfold Process.firstDue due at isDue
  rcases Option.map_eq_some_iff.mp isDue with ⟨rs, found, same⟩
  have isAt := List.find?_some found
  exact ⟨rs, List.mem_of_find?_eq_some found, of_decide_eq_true isAt, same⟩

/-- Between the rounds, a process waits for a resource that comes after those it
owns. -/
private theorem Between.ordered (between : Between script state)
    (ascending : forall description, description ∈ script -> description.Ascending order)
    (rising : forall process, (state.process process).Ascending order) {process : Nat} {held asked : Fin nrResources}
    (owns : state.owner held = some process) (waits : process ∈ state.waitqueue asked) :
    order held.val < order asked.val := by
  have inside := between.invariant.placed.lt_length (State.queued_of_waiting waits)
  rcases between.invariant.owned.holding owns with ⟨rs, member, isHeld⟩
  rcases Process.firstDue_mem (between.invariant.placed.waiting asked process waits).2.2 with
    ⟨asks, pending, isDue, isAsked⟩
  have punctual := between.punctual process
  have entry := punctual.restore_mem member
  have begun := punctual.held rs member
  rw [← isHeld, ← isAsked]
  by_cases together : rs.at_ = asks.at_
  · exact (rising process).held rs member asks pending together
  · have description := ascending _ (Script.description_mem inside)
    have earlier : rs.at_ < asks.at_ := by omega
    refine description.later _ entry asks (punctual.pending_mem pending) earlier ?_
    have restored : (rs.restore (state.process process).age).duration =
      (state.process process).age + rs.duration - rs.at_ := rfl
    have same : (rs.restore (state.process process).age).at_ = rs.at_ := rfl
    omega

/-- Nothing is left of a script whose processes have all exited. -/
private theorem Between.vacant (valid : script.Valid) (between : Between script state)
    (exited : forall process, process < script.length -> (state.process process).status = .exit)
    (r : Fin nrResources) : state.owner r = none ∧ state.waitqueue r = [] := by
  constructor
  · apply Option.eq_none_iff_forall_ne_some.mpr
    intro owner owns
    rcases between.owner_alive valid owns with ⟨inside, alive⟩
    exact alive (exited owner inside)
  · apply List.eq_nil_iff_forall_not_mem.mpr
    intro process waits
    have inside := between.invariant.placed.lt_length (State.queued_of_waiting waits)
    have blocked := (between.invariant.placed.waiting r process waits).1
    exact ProcessStatus.noConfusion (blocked.symm.trans (exited process inside))

end Ended

/-- A script whose processes ask for resources in one order does not deadlock.  Under
each scheduler the loop is left, all processes have completed and exited by then, and
no resource is owned or waited for. -/
theorem ordered_resources_suffice (name : SchedulerName) {script : Script} (valid : script.Valid) (order : Nat -> Nat)
    (ascending : forall description, description ∈ script -> description.Ascending order) :
    Exists fun rounds => Exists fun state => Simulates name.scheduler script rounds true state ∧
      (forall process, process < script.length -> (state.process process).status = .exit ∧
        (state.process process).age = (state.process process).lifespan) ∧
      forall r, state.owner r = none ∧ state.waitqueue r = [] := by
  rcases name.lawful.exists_left valid with ⟨rounds, state, simulates⟩
  rcases simulates.between name valid with ⟨between, ends⟩
  have rising := simulates.reaches.ascending valid name.lawful ascending
  have acyclic := (state.locks state.running none).acyclic_of_ordered (fun r => order r.val)
    fun _ _ _ owns waits => between.ordered ascending rising owns waits
  have exited : forall process, process < script.length -> (state.process process).status = .exit := by
    intro process inside
    by_contra alive
    rcases between.circular_of_ended valid (ends rfl) inside alive with ⟨other, circle⟩
    exact acyclic other circle
  exact ⟨rounds, state, simulates,
    fun process inside => ⟨exited process inside, between.invariant.placed.exited process (exited process inside)⟩,
    between.vacant valid exited⟩

/-- Two processes that acquire the resources 3 and 1 in this order. -/
def convoy : Script := [⟨1, 3, 0, 0, [⟨3, 0, 3⟩, ⟨1, 1, 1⟩]⟩, ⟨2, 3, 0, 0, [⟨3, 1, 2⟩, ⟨1, 1, 1⟩]⟩]

theorem ordered_resources_suffice_convoy :
    Exists fun rounds => Exists fun state => Simulates rrScheduler convoy rounds true state ∧
      (forall process, process < 2 -> (state.process process).status = .exit ∧
        (state.process process).age = (state.process process).lifespan) ∧
      forall r, state.owner r = none ∧ state.waitqueue r = [] :=
  ordered_resources_suffice .rr (by decide) (fun resourceId => 15 - resourceId) (by decide)

end Sched
end OsPa
