import OsPa.Sched.Safety

namespace OsPa
namespace Sched

open Library

/-!
# No lost wake-up

When the loop is left nobody retries a resource any more, so that every resource
that is waited for has an owner.  An owner holds its resource and cannot have
exited, and since the queues are empty it waits for a resource itself.
-/

/-- The process waits for a resource of the other one. -/
def State.WaitsFor (state : State) (process other : Nat) : Prop :=
  Exists fun r => process ∈ state.waitqueue r ∧ state.owner r = some other

section WakeUp

variable {script : Script} {state : State}

theorem Between.punctual (between : Between script state) (process : Nat) :
    Punctual (script.description process).acquires (state.process process).age
      (state.process process).resourcesHolding (state.process process).resourcesToAcquire := by
  by_cases runs : state.running = some process
  · exact (between.running process runs).2
  · exact between.invariant.punctual process runs

/-- There are no acquires for a process that is not in the script. -/
theorem Script.lt_length_of_acquire {process : Nat} {rs : ResourceSchedule}
    (member : rs ∈ (script.description process).acquires) : process < script.length := by
  by_contra outside
  rw [Script.description_absent outside] at member
  exact absurd member List.not_mem_nil

/-- A process that holds something is in the script and still has to run. -/
theorem Between.holder_young (valid : script.Valid) (between : Between script state) {process : Nat}
    (holds : (state.process process).resourcesHolding ≠ []) :
    process < script.length ∧ (state.process process).age < (state.process process).lifespan := by
  rcases List.exists_mem_of_ne_nil _ holds with ⟨rs, member⟩
  have punctual := between.punctual process
  have inside := Script.lt_length_of_acquire (punctual.restore_mem member)
  refine ⟨inside, ?_⟩
  rw [between.invariant.placed.lifespan process]
  exact punctual.held_young (valid.description inside) member

/-- Who owns a resource holds it. -/
theorem Owned.holding {r : Fin nrResources} {owner : Nat} (owned : Owned state) (owns : state.owner r = some owner) :
    Exists fun rs => rs ∈ (state.process owner).resourcesHolding ∧ rs.resourceId = r.val := by
  have holds := owned r owner
  rw [if_pos owns] at holds
  have positive : 0 < (state.process owner).holds r := by omega
  rcases List.countP_pos_iff.mp positive with ⟨rs, member, same⟩
  exact ⟨rs, member, of_decide_eq_true same⟩

/-- An owner is a process of the script that has not exited. -/
theorem Between.owner_alive (valid : script.Valid) (between : Between script state) {r : Fin nrResources}
    {owner : Nat} (owns : state.owner r = some owner) :
    owner < script.length ∧ (state.process owner).status ≠ .exit := by
  rcases between.invariant.owned.holding owns with ⟨rs, member, _⟩
  rcases between.holder_young valid (List.ne_nil_of_mem member) with ⟨inside, young⟩
  refine ⟨inside, ?_⟩
  intro exited
  have completed := between.invariant.placed.exited owner exited
  omega

/-- When the loop has been left, who has not exited waits. -/
theorem Between.waiting_of_ended (between : Between script state) (ended : Ended state) {process : Nat}
    (inside : process < script.length) (alive : (state.process process).status ≠ .exit) :
    Exists fun r => process ∈ state.waitqueue r := by
  have once := between.invariant.placed.once process
  have idle : state.running ≠ some process := by
    intro runs
    have isCurrent := (State.running_eq_some.mp runs).1
    rw [ended.current] at isCurrent
    cases isCurrent
  rw [if_pos inside, if_neg alive, if_neg idle] at once
  unfold State.queued at once
  rw [ended.readyqueue, ended.forkqueue] at once
  apply copies_pos.mp
  simp only [List.count_nil] at once
  omega

theorem Ended.rest (ended : Ended state) (detached : Option Nat) (process : Nat) (r : Fin nrResources) :
    ¬ (state.locks detached none).retries process r := by
  rintro (⟨ready, _⟩ | ⟨_, never⟩)
  · rw [ended.readyqueue] at ready
    cases ready
  · cases never

/-- An owner of what is waited for when the loop has been left waits itself. -/
theorem Between.owner_waits (valid : script.Valid) (between : Between script state) (ended : Ended state)
    {r : Fin nrResources} {owner : Nat} (owns : state.owner r = some owner) :
    Exists fun other => owner ∈ state.waitqueue other := by
  rcases between.owner_alive valid owns with ⟨inside, alive⟩
  exact between.waiting_of_ended ended inside alive

private theorem Between.stuck_of_ended (valid : script.Valid) (between : Between script state) (ended : Ended state)
    {process : Nat} (inside : process < script.length) (alive : (state.process process).status ≠ .exit) :
    Exists fun r => Exists fun owner => process ∈ state.waitqueue r ∧ state.owner r = some owner ∧
      (state.process owner).status = .blocked ∧ Exists fun other => owner ∈ state.waitqueue other := by
  rcases between.waiting_of_ended ended inside alive with ⟨r, waits⟩
  rcases between.invariant.attended.owned_of_rest (ended.rest state.running) waits with ⟨owner, owns⟩
  rcases between.owner_waits valid ended owns with ⟨other, ownerWaits⟩
  exact ⟨r, owner, waits, owns, (between.invariant.placed.waiting other owner ownerWaits).1, other, ownerWaits⟩

theorem Between.circular_of_ended (valid : script.Valid) (between : Between script state) (ended : Ended state)
    {process : Nat} (inside : process < script.length) (alive : (state.process process).status ≠ .exit) :
    Exists fun other => Relation.TransGen state.WaitsFor other other := by
  have finite : (state.locks state.running none).waiting.Finite := by
    apply (Set.finite_lt_nat script.length).subset
    rintro other ⟨r, waits⟩
    exact between.invariant.placed.lt_length (State.queued_of_waiting waits)
  apply between.invariant.attended.circularWait (ended.rest state.running) finite _
    (between.waiting_of_ended ended inside alive)
  rintro _ other ⟨r, _, owns⟩
  exact between.owner_waits valid ended owns

end WakeUp

/-- No wake-up is lost.  While the loop goes on, a resource that is waited for has
an owner or is retried by a ready process.  When it is left, who has not exited
waits for a resource whose owner waits itself, and that takes a circular wait. -/
theorem no_lost_wakeup (name : SchedulerName) {script : Script} (valid : script.Valid) {rounds : Nat} {left : Bool}
    {state : State} (simulates : Simulates name.scheduler script rounds left state) :
    (forall r, state.waitqueue r ≠ [] -> state.owner r ≠ none ∨
      Exists fun process => process ∈ state.readyqueue ∧ (state.process process).firstDue = some r.val) ∧
    (left = true -> forall process, process < script.length -> (state.process process).status ≠ .exit ->
      (Exists fun r => Exists fun owner => process ∈ state.waitqueue r ∧ state.owner r = some owner ∧
        (state.process owner).status = .blocked ∧ Exists fun other => owner ∈ state.waitqueue other) ∧
      Exists fun other => Relation.TransGen state.WaitsFor other other) := by
  rcases simulates.between name valid with ⟨between, ends⟩
  constructor
  · intro r waited
    rcases List.exists_mem_of_ne_nil _ waited with ⟨waiter, waits⟩
    rcases between.invariant.attended waiter r waits with owned | ⟨process, ready | ⟨_, never⟩⟩
    · exact Or.inl owned
    · exact Or.inr ⟨process, ready⟩
    · cases never
  · intro leaves process inside alive
    have ended := ends leaves
    exact ⟨between.stuck_of_ended valid ended inside alive, between.circular_of_ended valid ended inside alive⟩

theorem no_lost_wakeup_crossing : Exists fun state =>
    Simulates rrScheduler crossing 5 true state ∧
      Exists fun other => Relation.TransGen state.WaitsFor other other := by
  have simulates : Simulates rrScheduler crossing 5 true _ := ⟨_, rfl, rfl⟩
  exact ⟨_, simulates, ((no_lost_wakeup .rr crossing_valid simulates).2 rfl 0 (by decide) (by decide)).2⟩

end Sched
end OsPa
