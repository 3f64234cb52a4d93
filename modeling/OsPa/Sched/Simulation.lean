import OsPa.Sched.Release

namespace OsPa
namespace Sched

open Library

/-!
# Runs of the simulation

One round from a state of the invariant succeeds and ends in such a state.  No
assertion fails in it, since a failed assertion is a fault.  All runs of valid
scripts start in such a state, so that the same is true of them.
-/

/-- What is left when the loop is left. -/
structure Ended (state : State) : Prop where
  current : state.current = none
  readyqueue : state.readyqueue = []
  forkqueue : state.forkqueue = []

section Round

variable {script : Script} {sched : Scheduler} {state : State} {current : Nat}

/-- The process that has been chosen starts to run. -/
theorem Invariant.start (invariant : Invariant script (some current) (state.process current).firstDue state)
    (isCurrent : state.current = some current)
    (young : (state.process current).age < (state.process current).lifespan)
    (punctual : Punctual (script.description current).acquires (state.process current).age
      (state.process current).resourcesHolding (state.process current).resourcesToAcquire) :
    Acquiring script current [] (state.process current).resourcesToAcquire (state.setStatus current .running) := by
  have itself := state.setStatus_process current .running current
  rw [if_pos rfl] at itself
  constructor
  case isCurrent => exact isCurrent
  case invariant =>
    rw [itself]
    constructor
    case placed => exact invariant.placed.modify _ rfl (by decide : ¬ ProcessStatus.running = .exit)
    case owned =>
      intro r process
      rw [State.setStatus_process]
      exact invariant.owned r process
    case punctual =>
      intro process different
      rw [State.setStatus_process]
      exact invariant.punctual process different
    case attended =>
      refine invariant.attended.mono (fun _ owned => owned) (fun _ _ waits => waits) ?_
      rintro process r (⟨member, retries⟩ | next)
      · refine Or.inl ⟨member, ?_⟩
        rw [State.setStatus_process]
        exact retries
      · exact Or.inr next
  case running => exact congrArg Process.status itself
  case young =>
    rw [itself]
    exact young
  case resources =>
    rw [itself]
    rfl
  case passed => exact fun _ never => absurd never List.not_mem_nil
  case punctual =>
    rw [itself]
    exact punctual

/-- A round may end with a process that runs. -/
theorem Releasing.between {kept : List ResourceSchedule} (releasing : Releasing script current kept [] state) :
    Between script state := by
  have runs := State.running_eq_some.mpr ⟨releasing.isCurrent, releasing.running⟩
  refine ⟨runs.symm ▸ releasing.invariant, ?_, ?_⟩
  · intro other isOther
    rw [releasing.isCurrent] at isOther
    cases isOther
    exact Or.inl releasing.running
  · intro other isOther
    rw [runs] at isOther
    cases isOther
    have punctual := releasing.counting.finish
    rw [← List.append_nil kept, ← releasing.resources] at punctual
    exact ⟨releasing.aged, punctual⟩

/-- A round may end without a process that runs. -/
theorem Invariant.between_of_idle (invariant : Invariant script none none state) (idle : state.current = none) :
    Between script state := by
  have none : state.running = none := by
    apply State.running_eq_none
    intro process isSome
    rw [idle] at isSome
    cases isSome
  refine ⟨none.symm ▸ invariant, ?_, ?_⟩
  · intro other isOther
    rw [idle] at isOther
    cases isOther
  · intro other isOther
    rw [none] at isOther
    cases isOther

section Execute

variable {granted acquired refused after : State}

theorem execute_of_granted (unlinked : state.queued current = 0)
    (ran : runCurrentAcquire sched current [] (state.process current).resourcesToAcquire
      (state.setStatus current .running) = .ok (true, acquired))
    (released : runCurrentRelease sched current [] (acquired.process current).resourcesHolding
      (acquired.grow current) = .ok after) : execute sched current state = .ok after := by
  have unattached : ¬ (state.setStatus current .running).Attached current := by
    rw [State.attached_iff, State.queued_setStatus, unlinked]
    exact Nat.lt_irrefl 0
  have holding : (acquired.process current).resourcesHolding =
      ((acquired.grow current).process current).resourcesHolding :=
    (congrArg Process.resourcesHolding (acquired.grow_process_self current)).symm
  unfold Sched.execute
  dsimp only
  rw [if_neg unattached, State.setStatus_process]
  dsimp only
  rw [ran]
  rw [holding] at released
  exact released

theorem execute_of_refused (unlinked : state.queued current = 0)
    (ran : runCurrentAcquire sched current [] (state.process current).resourcesToAcquire
      (state.setStatus current .running) = .ok (false, refused)) : execute sched current state = .ok refused := by
  have unattached : ¬ (state.setStatus current .running).Attached current := by
    rw [State.attached_iff, State.queued_setStatus, unlinked]
    exact Nat.lt_irrefl 0
  unfold Sched.execute
  dsimp only
  rw [if_neg unattached, State.setStatus_process]
  dsimp only
  rw [ran]

end Execute

/-- The chosen process is executed for a tick without a fault. -/
theorem Invariant.execute (valid : script.Valid) (lawful : Lawful sched)
    (invariant : Invariant script (some current) (state.process current).firstDue state)
    (isCurrent : state.current = some current)
    (young : (state.process current).age < (state.process current).lifespan)
    (punctual : Punctual (script.description current).acquires (state.process current).age
      (state.process current).resourcesHolding (state.process current).resourcesToAcquire) :
    Exists fun after => execute sched current state = .ok after ∧ Between script after := by
  have unlinked := invariant.placed.of_detached.2.1
  rcases runCurrentAcquire_rule (Acquiring script current) (Between script)
      (fun _ _ _ _ acquiring notDue => acquiring.skip notDue) (Acquiring.ask valid lawful)
      (invariant.start isCurrent young punctual) with
    ⟨passed, acquired, ran, acquiring⟩ | ⟨blocked, ran, between⟩
  · rcases runCurrentRelease_rule (Releasing script current) (fun _ _ _ _ releasing remains => releasing.keep remains)
        (fun _ _ _ _ releasing _ => releasing.expire valid lawful) acquiring.grow with
      ⟨left, after, released, releasing⟩
    exact ⟨after, execute_of_granted unlinked ran released, releasing.between⟩
  · exact ⟨blocked, execute_of_refused unlinked ran, between⟩

theorem Between.tick (between : Between script state) : Between script state.tick :=
  ⟨between.invariant.besides, between.current, between.running⟩

section Iteration

variable {updated : State}

theorem iteration_of_none
    (retired : retire (forkOnSchedule state).current
      { (sched.schedule (forkOnSchedule state)).2 with current := (sched.schedule (forkOnSchedule state)).1 } =
        .ok updated) (next : (sched.schedule (forkOnSchedule state)).1 = none) :
    iteration sched state = .ok (if updated.readyqueue = [] ∧ updated.forkqueue = [] then (true, updated)
      else (false, (updated.print .idle).tick)) := by
  unfold Sched.iteration
  dsimp only
  rw [retired, next]
  dsimp only
  split <;> rfl

theorem iteration_of_some {after : State}
    (retired : retire (forkOnSchedule state).current
      { (sched.schedule (forkOnSchedule state)).2 with current := (sched.schedule (forkOnSchedule state)).1 } =
        .ok updated) (next : (sched.schedule (forkOnSchedule state)).1 = some current)
    (executed : execute sched current updated = .ok after) : iteration sched state = .ok (false, after.tick) := by
  unfold Sched.iteration
  dsimp only
  rw [retired, next]
  dsimp only
  rw [executed]

end Iteration

/-- One round of the loop. -/
theorem Between.iteration (valid : script.Valid) (lawful : Lawful sched) (between : Between script state) :
    Exists fun left => Exists fun after =>
      iteration sched state = .ok (left, after) ∧ Between script after ∧ (left = true -> Ended after) := by
  rcases (forkOnSchedule_between between).dispatch valid lawful with ⟨updated, retired, isCurrent, invariant, chosen⟩
  cases next : (sched.schedule (forkOnSchedule state)).1 with
  | none =>
      rw [next] at isCurrent
      rw [isCurrent] at invariant
      have idle := invariant.between_of_idle isCurrent
      rw [iteration_of_none retired next]
      split
      next empty => exact ⟨true, updated, rfl, idle, fun _ => ⟨isCurrent, empty.1, empty.2⟩⟩
      next => exact ⟨false, _, rfl, (idle.besides_stderr _).tick, fun never => absurd never Bool.false_ne_true⟩
  | some current =>
      rw [next] at isCurrent
      rw [isCurrent] at invariant
      have facts := chosen current isCurrent
      rcases invariant.execute valid lawful isCurrent facts.1 facts.2 with ⟨after, executed, later⟩
      rw [iteration_of_some retired next executed]
      exact ⟨false, _, rfl, later.tick, fun never => absurd never Bool.false_ne_true⟩

end Round

/-! ## Runs -/

theorem Script.queued_initial (script : Script) (process : Nat) :
    script.initial.queued process = (List.range script.length).count process := by
  have nowhere : copies script.initial.waitqueue process = 0 := Finset.sum_const_zero
  unfold State.queued
  rw [nowhere]
  rfl

theorem Script.Valid.initial {script : Script} (valid : script.Valid) : Between script script.initial := by
  apply Invariant.between_of_idle _ rfl
  constructor
  case placed =>
    constructor
    case lifespan => exact fun _ => rfl
    case once =>
      intro process
      have listed := script.queued_initial process
      have ready : ¬ (script.initial.process process).status = .exit := ProcessStatus.noConfusion
      rw [listed, if_neg (Option.some_ne_none _).symm, if_neg ready]
      by_cases inside : process < script.length
      · rw [List.count_eq_one_of_mem List.nodup_range (List.mem_range.mpr inside), if_pos inside]
      · rw [List.count_eq_zero.mpr (fun member => inside (List.mem_range.mp member)), if_neg inside]
    case forking =>
      intro process member
      exact (valid.description (List.mem_range.mp member)).lifespan
    case ready => exact fun _ never => absurd never List.not_mem_nil
    case waiting => exact fun _ _ never => absurd never List.not_mem_nil
    case exited => exact fun _ never => ProcessStatus.noConfusion never
  case owned =>
    intro r process
    exact (if_neg (Option.some_ne_none _).symm).symm
  case punctual =>
    intro process _
    exact ⟨List.Subperm.refl _, fun _ never => absurd never List.not_mem_nil, fun _ _ => Nat.zero_le _⟩
  case attended => exact fun _ _ never => absurd never List.not_mem_nil

/-- Rounds that succeed and keep an invariant make up runs that do. -/
theorem exists_simulates {sched : Scheduler} {script : Script} {invariant ended : State -> Prop}
    (round : forall state, invariant state -> Exists fun left => Exists fun after =>
      iteration sched state = .ok (left, after) ∧ invariant after ∧ (left = true -> ended after))
    (initially : invariant script.initial) (rounds : Nat) :
    Exists fun left => Exists fun state =>
      Simulates sched script rounds left state ∧ invariant state ∧ (left = true -> ended state) := by
  rcases (simulation sched).run_total (fun _ => round) (List.replicate rounds ()) initially with
    ⟨outputs, state, ran, holds, last⟩
  exact ⟨outputs.any id, state, ⟨outputs, ran, rfl⟩, holds, last⟩

/-- A run has one outcome. -/
theorem Simulates.unique {sched : Scheduler} {script : Script} {rounds : Nat} {left left' : Bool} {state state' : State}
    (one : Simulates sched script rounds left state) (other : Simulates sched script rounds left' state') :
    left = left' ∧ state = state' := by
  rcases one with ⟨outputs, ran, leaves⟩
  rcases other with ⟨outputs', ran', leaves'⟩
  rw [ran] at ran'
  cases ran'
  exact ⟨leaves.symm.trans leaves', rfl⟩

/-- A run that goes on is followed by one more round. -/
theorem Simulates.next {sched : Scheduler} {script : Script} {rounds : Nat} {left : Bool} {state after : State}
    (simulates : Simulates sched script rounds false state) (ran : iteration sched state = .ok (left, after)) :
    Simulates sched script (rounds + 1) left after := by
  rcases simulates with ⟨outputs, before, goesOn⟩
  have stepped : (simulation sched).step () state = .ok (left, after) := ran
  refine ⟨outputs ++ [left], ?_, ?_⟩
  · rw [List.replicate_succ']
    exact (simulation sched).run_concat before goesOn stepped
  · rw [List.any_append, goesOn, Bool.false_or, List.any_cons, List.any_nil, Bool.or_false, id]

/-- An invariant of the rounds holds in every state that the simulation
reaches. -/
theorem Simulates.invariant {sched : Scheduler} {script : Script} {rounds : Nat} {left : Bool} {state : State}
    (simulates : Simulates sched script rounds left state) (invariant : State -> Prop) {ended : State -> Prop}
    (round : forall state, invariant state -> Exists fun left => Exists fun after =>
      iteration sched state = .ok (left, after) ∧ invariant after ∧ (left = true -> ended after))
    (initially : invariant script.initial) : invariant state ∧ (left = true -> ended state) := by
  rcases exists_simulates round initially rounds with ⟨left', state', run, holds⟩
  rcases simulates.unique run with ⟨rfl, rfl⟩
  exact holds

/-- Rounds of two schedulers that succeed from related states and end in such
states make up runs of the same length. -/
theorem Simulates.lockstep {sched sched' : Scheduler} {script : Script} (related : State -> State -> Prop)
    (round : forall state state', related state state' -> Exists fun left => Exists fun after => Exists fun after' =>
      iteration sched state = .ok (left, after) ∧ iteration sched' state' = .ok (left, after') ∧ related after after')
    (initially : related script.initial script.initial) {rounds : Nat} {left : Bool} {state : State}
    (simulates : Simulates sched script rounds left state) :
    Exists fun state' => Simulates sched' script rounds left state' ∧ related state state' := by
  have agree : forall (input : Unit) state state', True -> related state state' ->
      Machine.Agree id id related ((simulation sched).step input state) ((simulation sched').step input state') := by
    intro _ state state' _ relation
    rcases round state state' relation with ⟨left, after, after', ran, ran', still⟩
    have stepped : (simulation sched).step () state = .ok (left, after) := ran
    have stepped' : (simulation sched').step () state' = .ok (left, after') := ran'
    rw [stepped, stepped']
    exact ⟨rfl, still⟩
  rcases simulates with ⟨outputs, ran, leaves⟩
  have same : forall left left' : Bool, id left = id left' -> (simulation sched).stops left =
    (simulation sched').stops left' := fun _ _ equal => equal
  have within : (simulation sched).Within (fun _ _ => True) (List.replicate rounds ()) script.initial :=
    (simulation sched).within_of_forall_mem (fun _ _ _ => trivial) script.initial
  have runs := (simulation sched).run_lockstep (simulation sched') id id related same agree within initially
  rw [ran] at runs
  cases ran' : (simulation sched').run (List.replicate rounds ()) script.initial with
  | error fault =>
      rw [ran'] at runs
      exact False.elim runs
  | ok result =>
      rcases result with ⟨outputs', state'⟩
      rw [ran'] at runs
      have sameOutputs : outputs.map id = outputs'.map id := runs.1
      rw [List.map_id, List.map_id] at sameOutputs
      exact ⟨state', ⟨outputs', ran', sameOutputs ▸ leaves⟩, runs.2⟩

theorem Simulates.between (name : SchedulerName) {script : Script} {rounds : Nat} {left : Bool} {state : State}
    (simulates : Simulates name.scheduler script rounds left state) (valid : script.Valid) :
    Between script state ∧ (left = true -> Ended state) :=
  simulates.invariant (Between script) (fun _ between => between.iteration valid name.lawful) valid.initial

end Sched
end OsPa
