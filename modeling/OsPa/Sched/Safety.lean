import OsPa.Sched.Simulation

namespace OsPa
namespace Sched

open Library

/-!
# Where processes are, and that no assertion fails

The first theorem is about every state in which a round begins, the second about
every run.
-/

/-- The places a process can be in. -/
inductive Place
  | forkqueue
  | readyqueue
  | waitqueue (r : Fin nrResources)
  | running
  | exited
  deriving DecidableEq

/-- How often a process is in a place. -/
def State.occurrences (state : State) (process : Nat) : Place -> Nat
  | .forkqueue => state.forkqueue.count process
  | .readyqueue => state.readyqueue.count process
  | .waitqueue r => (state.waitqueue r).count process
  | .running => if state.current = some process ∧ (state.process process).status = .running then 1 else 0
  | .exited => if (state.process process).status = .exit then 1 else 0

/-- Every process of the script is in one place, once. -/
private theorem Between.place {script : Script} {state : State} (between : Between script state) {process : Nat}
    (inside : process < script.length) :
    Exists fun place => state.occurrences process place = 1 ∧
      forall other, other ≠ place -> state.occurrences process other = 0 := by
  have detached : (if state.running = some process then 1 else 0) = state.occurrences process .running :=
    if_congr State.running_eq_some rfl rfl
  have exited : (if (state.process process).status = .exit then 1 else 0) = state.occurrences process .exited := rfl
  have total : state.occurrences process .forkqueue + state.occurrences process .readyqueue +
      copies state.waitqueue process + state.occurrences process .running + state.occurrences process .exited = 1 := by
    rw [← detached, ← exited]
    exact (between.invariant.placed.once process).trans (if_pos inside)
  have bounded : forall r, state.occurrences process (.waitqueue r) ≤ copies state.waitqueue process :=
    fun r => count_le_copies state.waitqueue r process
  by_cases waits : 0 < copies state.waitqueue process
  · rcases copies_pos.mp waits with ⟨r, member⟩
    have here : 0 < state.occurrences process (.waitqueue r) := List.count_pos_iff.mpr member
    have atMost := bounded r
    refine ⟨.waitqueue r, by omega, ?_⟩
    intro other different
    cases other with
    | waitqueue other =>
        apply List.count_eq_zero.mpr
        intro elsewhere
        exact different (congrArg Place.waitqueue (eq_of_copies_le_one (by omega) member elsewhere))
    | forkqueue => omega
    | readyqueue => omega
    | running => omega
    | exited => omega
  · have nowhere : forall r, state.occurrences process (.waitqueue r) = 0 := by
      intro r
      have atMost := bounded r
      omega
    have single : forall place : Place, 0 < state.occurrences process place -> state.occurrences process place = 1 ∧
        forall other, other ≠ place -> state.occurrences process other = 0 := by
      intro place here
      cases place <;>
        refine ⟨by grind, fun other different => ?_⟩ <;>
          cases other <;> grind
    have somewhere : 0 < state.occurrences process .forkqueue ∨ 0 < state.occurrences process .readyqueue ∨
        0 < state.occurrences process .running ∨ 0 < state.occurrences process .exited := by omega
    rcases somewhere with forks | ready | runs | gone
    · exact ⟨_, single _ forks⟩
    · exact ⟨_, single _ ready⟩
    · exact ⟨_, single _ runs⟩
    · exact ⟨_, single _ gone⟩

/-- Every process has its place when a round begins, and the status that goes
with it.  The current process is in a list only when it waits. -/
theorem process_has_one_place (name : SchedulerName) {script : Script} (valid : script.Valid) {rounds : Nat}
    {left : Bool} {state : State} (simulates : Simulates name.scheduler script rounds left state) :
    (forall process, process < script.length ->
      Exists fun place => state.occurrences process place = 1 ∧
        forall other, other ≠ place -> state.occurrences process other = 0) ∧
    (forall process, process ∈ state.readyqueue ->
      (state.process process).status = .ready ∧ (state.process process).age < (state.process process).lifespan) ∧
    (forall r process, process ∈ state.waitqueue r ->
      (state.process process).status = .blocked ∧ (state.process process).age < (state.process process).lifespan) ∧
    (forall current, state.current = some current -> state.Attached current ->
      (state.process current).status = .blocked ∧ (Exists fun r => current ∈ state.waitqueue r) ∧
        current ∉ state.readyqueue) := by
  have between := (simulates.between name valid).1
  have placed := between.invariant.placed
  refine ⟨fun _ inside => between.place inside, placed.ready, ?_, ?_⟩
  · intro r process waits
    have waiting := placed.waiting r process waits
    exact ⟨waiting.1, waiting.2.1⟩
  · intro current isCurrent attached
    rcases between.current current isCurrent with runs | ⟨r, waits⟩
    · have detached := State.running_eq_some.mpr ⟨isCurrent, runs⟩
      have linked := State.attached_iff.mp attached
      exact absurd detached (placed.of_queued linked).1
    · have blocked := (placed.waiting r current waits).1
      refine ⟨blocked, ⟨r, waits⟩, ?_⟩
      intro ready
      exact ProcessStatus.noConfusion (blocked.symm.trans (placed.ready current ready).1)

/-- No assertion of the simulator fails, and nothing else goes wrong. -/
theorem no_assertion_fails (name : SchedulerName) {script : Script} (valid : script.Valid) (rounds : Nat)
    (fault : Fault) :
    (simulation name.scheduler).run (List.replicate rounds ()) script.initial ≠ .error fault := by
  rcases exists_simulates (fun _ between => between.iteration valid name.lawful) valid.initial rounds with
    ⟨left, state, ⟨outputs, ran, _⟩, _⟩
  rw [ran]
  intro failed
  cases failed

/-- Two processes that take two resources in opposite orders. -/
def crossing : Script :=
  [⟨1, 4, 1, 0, [⟨1, 0, 4⟩, ⟨2, 1, 2⟩]⟩, ⟨2, 4, 1, 0, [⟨2, 0, 4⟩, ⟨1, 1, 2⟩]⟩]

theorem crossing_valid : crossing.Valid := by decide

/-- The processes wait for each other after four rounds. -/
theorem process_has_one_place_crossing : Exists fun state =>
    Simulates rrScheduler crossing 4 false state ∧
      Exists fun place => state.occurrences 1 place = 1 ∧
        forall other, other ≠ place -> state.occurrences 1 other = 0 := by
  have simulates : Simulates rrScheduler crossing 4 false _ := ⟨_, rfl, rfl⟩
  exact ⟨_, simulates, (process_has_one_place .rr crossing_valid simulates).1 1 (by decide)⟩

theorem no_assertion_fails_crossing :
    (simulation SchedulerName.rr.scheduler).run (List.replicate 5 ()) crossing.initial ≠ .error .exitHolding :=
  no_assertion_fails .rr crossing_valid 5 .exitHolding

end Sched
end OsPa
