import OsPa.Sched.Departures
import OsPa.Sched.WakeUp

namespace OsPa
namespace Sched

open Library

/-!
# Processes run for their lifespan

A process that is not linked into a list and does not run has been seen off by
`__exit_process`, at the age that the script gives it.  This needs processes that
have something to do.  A process of lifespan 0 runs for a tick like any other;
then its age is past its lifespan, so that it is neither put back into the
ready queue nor exits.
-/

/-- The process that an event says has exited. -/
def Event.departed : Event -> Option Nat
  | .exited process => some process
  | _ => none

/-- The processes that have exited, in the order of their exits. -/
def State.departed (state : State) : List Nat := state.exits.map Prod.snd

private theorem departed_append {before after : State} {events : List Event}
    (printed : after.stderr = before.stderr ++ events.map fun event => (before.ticks, event)) :
    after.departed = before.departed ++ events.filterMap Event.departed := by
  have each : forall event : Event,
      (exitOf (before.ticks, event)).map Prod.snd = event.departed := by
    intro event
    cases event <;> rfl
  have same : (events.filterMap (exitOf ∘ fun event => (before.ticks, event))).map Prod.snd =
      events.filterMap Event.departed := by
    rw [List.map_filterMap]
    exact List.filterMap_congr fun event _ => each event
  unfold State.departed State.exits
  rw [printed, List.filterMap_append, List.map_append, List.filterMap_map, same]

/-- The process is in a list or runs. -/
def State.Present (state : State) (process : Nat) : Prop := state.Attached process ∨ state.running = some process

/-- Those have exited whose status says so, and each of them once. -/
structure Recorded (configuration : Configuration) : Prop where
  nodup : configuration.2.departed.Nodup
  mem : forall process, process ∈ configuration.2.departed ↔ (configuration.2.process process).status = .exit

section Moves

variable {script : Script} {before after : Configuration} {state : State}

theorem State.farewell_departed (state : State) : state.farewell.filterMap Event.departed = state.departing := by
  rw [State.farewell_eq, List.filterMap_map]
  exact List.filterMap_some

/-- Who departs has been running. -/
theorem State.running_of_departing {process : Nat} (departs : process ∈ state.departing) :
    state.running = some process := by
  unfold State.departing at departs
  split at departs
  case h_1 => cases departs
  case h_2 current runs =>
    split at departs
    · cases departs
    · rw [List.mem_singleton.mp departs]
      exact runs

private theorem State.departing_nodup (state : State) : state.departing.Nodup := by
  unfold State.departing
  split
  · exact List.nodup_nil
  · split
    · exact List.nodup_nil
    · exact List.nodup_singleton _

/-- A process that has not exited is marked as something else than exited. -/
theorem State.setStatus_exit {other : Nat} {status : ProcessStatus} (alive : (state.process other).status ≠ .exit)
    (remains : status ≠ .exit) (process : Nat) :
    ((state.setStatus other status).process process).status = .exit ↔ (state.process process).status = .exit := by
  rw [State.setStatus_process]
  by_cases same : process = other
  · subst process
    dsimp only
    rw [if_pos rfl]
    exact iff_of_false remains alive
  · dsimp only
    rw [if_neg same]

/-- The previous process is marked as exited when it departs. -/
private theorem State.settle_exit (state : State) (process : Nat) :
    (state.settle.process process).status = .exit ↔
      (state.process process).status = .exit ∨ process ∈ state.departing := by
  unfold State.settle State.departing
  cases isRunning : state.running with
  | none => exact (or_iff_left List.not_mem_nil).symm
  | some current =>
      have alive : (state.process current).status ≠ .exit := by
        rw [(State.running_eq_some.mp isRunning).2]
        exact ProcessStatus.noConfusion
      dsimp only
      split
      case isTrue young =>
        rw [or_iff_left List.not_mem_nil]
        exact State.setStatus_exit alive ProcessStatus.noConfusion process
      case isFalse old =>
        rw [State.setStatus_process, List.mem_singleton]
        dsimp only
        by_cases same : process = current
        · rw [if_pos same]
          exact iff_of_true rfl (Or.inr same)
        · rw [if_neg same, or_iff_left same]

/-- A release wakes up processes that have not exited. -/
private theorem Released.exit_iff {r : Fin nrResources} {before after : State} (released : Released r before after)
    (alive : forall waiter, waiter ∈ before.waitqueue r -> (before.process waiter).status ≠ .exit) (process : Nat) :
    (after.process process).status = .exit ↔ (before.process process).status = .exit := by
  cases released with
  | unwanted prio empty => exact Iff.rfl
  | woken prio waiter member => exact State.setStatus_exit (alive waiter member) ProcessStatus.noConfusion process

private theorem State.take_status (state : State) (current : Nat) (kept todo : List ResourceSchedule)
    (rs : ResourceSchedule) (process : Nat) :
    ((state.take current kept todo rs).process process).status = (state.process process).status :=
  state.field_modify current (fun record => record.take kept todo rs) (fun _ => rfl) process

private theorem State.grow_status (state : State) (current process : Nat) :
    ((state.grow current).process process).status = (state.process process).status :=
  (state.print (.ran current)).field_modify current Process.grow (fun _ => rfl) process

private theorem State.hold_status (state : State) (current : Nat) (holding : List ResourceSchedule) (process : Nat) :
    ((state.hold current holding).process process).status = (state.process process).status :=
  state.field_modify current (fun record => record.hold holding) (fun _ => rfl) process

/-- Nobody exits in a move but those that it prints. -/
theorem Move.exit_iff {events : List Event} (sound : Sound script before) (move : Move before events after)
    (process : Nat) : (after.2.process process).status = .exit ↔
      (before.2.process process).status = .exit ∨ process ∈ events.filterMap Event.departed := by
  have none : forall {status : Prop}, (status ↔ (before.2.process process).status = .exit) ->
      (status ↔ (before.2.process process).status = .exit ∨ process ∈ ([] : List Nat)) :=
    fun same => same.trans (or_iff_left List.not_mem_nil).symm
  have unchanged : forall {status : ProcessStatus}, status = (before.2.process process).status ->
      (status = .exit ↔ (before.2.process process).status = .exit ∨ process ∈ ([] : List Nat)) :=
    fun same => none (same ▸ Iff.rfl)
  cases move with
  | begin state => exact unchanged rfl
  | wait early => exact unchanged rfl
  | @fork forked todo state arrived =>
      cases sound with
      | forking between nodup members passed =>
          have alive := (between.invariant.placed.of_queued
            (State.queued_of_forking (members forked List.mem_cons_self))).2.1
          exact none (State.setStatus_exit alive ProcessStatus.noConfusion process)
  | @leave prio state ready forks =>
      rw [State.farewell_departed]
      exact state.settle_exit process
  | @idle prio state ready forks =>
      have quiet : [Event.idle].filterMap Event.departed = [] := rfl
      rw [List.filterMap_append, State.farewell_departed, quiet, List.append_nil]
      exact state.settle_exit process
  | @choose prio state current readyqueue moved =>
      cases sound with
      | forking between =>
          have alive : (state.settle.process current).status ≠ .exit := by
            rw [(between.settle.placed.ready current (moved.subset List.mem_cons_self)).1]
            exact ProcessStatus.noConfusion
          have dispatched : ((state.dispatched prio (some current) readyqueue).process current).status ≠ .exit := alive
          have running : ProcessStatus.running ≠ .exit := ProcessStatus.noConfusion
          rw [State.farewell_departed, ← state.settle_exit process]
          exact State.setStatus_exit dispatched running process
  | pass notDue => exact unchanged rfl
  | grant prio isDue indexed free => exact unchanged (State.take_status ..)
  | refuse prio isDue indexed owned =>
      cases sound with
      | acquiring acquiring =>
          have blocked : ProcessStatus.blocked ≠ .exit := ProcessStatus.noConfusion
          exact none (State.setStatus_exit acquiring.invariant.placed.of_detached.2.2 blocked process)
  | grow current kept state => exact unchanged (State.grow_status ..)
  | keep remains => exact unchanged (State.hold_status ..)
  | @release state freed current kept todo rs r expires indexed released =>
      cases sound with
      | releasing releasing =>
          let counted := state.hold current (kept ++ rs.countDown :: todo)
          have alive : forall waiter, waiter ∈ counted.waitqueue r -> (counted.process waiter).status ≠ .exit := by
            intro waiter waits
            rw [State.hold_status, (releasing.invariant.placed.waiting r waiter waits).1]
            exact ProcessStatus.noConfusion
          have freed := released.exit_iff alive process
          rw [State.hold_status] at freed
          apply none
          rw [State.hold_status]
          exact freed
  | finish current kept state => exact unchanged rfl

/-- What is recorded of the processes that have exited. -/
theorem Recorded.move {events : List Event} (sound : Sound script before) (recorded : Recorded before)
    (move : Move before events after) : Recorded after := by
  have departed := departed_append move.stderr
  have departing : (events.filterMap Event.departed).Nodup ∧ forall process,
      process ∈ events.filterMap Event.departed -> (before.2.process process).status ≠ .exit := by
    have nobody : ([] : List Nat).Nodup ∧ forall process, process ∈ [] -> (before.2.process process).status ≠ .exit :=
      ⟨List.nodup_nil, fun _ never => absurd never List.not_mem_nil⟩
    have runner : before.2.departing.Nodup ∧ forall process, process ∈ before.2.departing ->
        (before.2.process process).status ≠ .exit := by
      refine ⟨State.departing_nodup _, fun process departs => ?_⟩
      rw [(State.running_eq_some.mp (State.running_of_departing departs)).2]
      exact ProcessStatus.noConfusion
    cases move with
    | leave prio ready forks =>
        rw [State.farewell_departed]
        exact runner
    | @idle prio state ready forks =>
        have quiet : [Event.idle].filterMap Event.departed = [] := rfl
        rw [List.filterMap_append, State.farewell_departed, quiet, List.append_nil]
        exact runner
    | choose prio moved =>
        rw [State.farewell_departed]
        exact runner
    | begin state => exact nobody
    | wait early => exact nobody
    | fork arrived => exact nobody
    | pass notDue => exact nobody
    | grant prio isDue indexed free => exact nobody
    | refuse prio isDue indexed owned => exact nobody
    | grow current kept state => exact nobody
    | keep remains => exact nobody
    | release expires indexed released => exact nobody
    | finish current kept state => exact nobody
  constructor
  case nodup =>
    rw [departed]
    apply List.nodup_append'.mpr
    refine ⟨recorded.nodup, departing.1, ?_⟩
    intro process earlier now
    exact departing.2 process now ((recorded.mem process).mp earlier)
  case mem =>
    intro process
    rw [departed, List.mem_append, recorded.mem, move.exit_iff sound]

end Moves

theorem Recorded.initial (script : Script) : Recorded (.closing false, script.initial) :=
  ⟨List.nodup_nil, fun _ => iff_of_false List.not_mem_nil ProcessStatus.noConfusion⟩

/-- What is said of a process in a state. -/
structure Lives (state : State) (process : Nat) : Prop where
  age : (state.process process).age ≤ (state.process process).lifespan
  stays : state.Present process ∨ process ∈ state.departed
  completed : process ∈ state.departed -> (state.process process).age = (state.process process).lifespan ∧
    ¬ state.Present process

/-- Whoever runs has not lived longer than its lifespan. -/
private theorem Sound.age_le {script : Script} {configuration : Configuration} (sound : Sound script configuration)
    (process : Nat) (runs : configuration.2.running = some process) :
    (configuration.2.process process).age ≤ (configuration.2.process process).lifespan := by
  cases sound with
  | closing between ended => exact (between.running process runs).1
  | forking between nodup members passed => exact (between.running process runs).1
  | acquiring acquiring =>
      cases (State.running_eq_some.mpr ⟨acquiring.isCurrent, acquiring.running⟩).symm.trans runs
      exact Nat.le_of_lt acquiring.young
  | releasing releasing =>
      cases (State.running_eq_some.mpr ⟨releasing.isCurrent, releasing.running⟩).symm.trans runs
      exact releasing.aged

private theorem Sound.lives {script : Script} {configuration : Configuration} (sound : Sound script configuration)
    (recorded : Recorded configuration) {process : Nat} (inside : process < script.length) :
    Lives configuration.2 process := by
  have placed := sound.placed
  have once := placed.once process
  rw [if_pos inside] at once
  have attached : configuration.2.Attached process ↔ 0 < configuration.2.queued process := State.attached_iff
  constructor
  case age => exact placed.age_le sound.age_le inside
  case stays =>
    unfold State.Present
    rw [attached, recorded.mem]
    by_contra gone
    rw [not_or, not_or] at gone
    rw [if_neg gone.1.2, if_neg gone.2] at once
    omega
  case completed =>
    intro departed
    have exited := (recorded.mem process).mp departed
    refine ⟨placed.exited process exited, ?_⟩
    rw [if_pos exited] at once
    rintro (linked | runs)
    · have found := attached.mp linked
      omega
    · rw [if_pos runs] at once
      omega

/-- Each process of the script has its age within its lifespan, is in the system until it
exits, exits once and at the age of its lifespan, and has exited in the end. -/
def Script.ServedOut (script : Script) (configuration : Configuration) : Prop :=
  configuration.2.departed.Nodup ∧
  (forall process, process < script.length -> Lives configuration.2 process) ∧
  (configuration.1 = .closing true -> forall process, process < script.length -> process ∈ configuration.2.departed)

theorem Reaches.servedOut {script : Script} {sched : Scheduler} (plain : script.Plain) (lawful : Lawful sched)
    {reached : Configuration} (reaches : Reaches sched script reached) : script.ServedOut reached := by
  rcases reaches.invariant plain.valid lawful (Recorded.initial script)
    fun sound recorded move => recorded.move sound move with ⟨sound, recorded⟩
  refine ⟨recorded.nodup, fun process inside => sound.lives recorded inside, ?_⟩
  intro left process inside
  rcases reached with ⟨phase, state⟩
  cases left
  cases sound with
  | closing between ended =>
      apply (recorded.mem process).mpr
      by_contra alive
      rcases between.waiting_of_ended (ended rfl) inside alive with ⟨r, waits⟩
      have idle : state.running = none := by
        apply State.running_eq_none
        intro current isCurrent
        rw [(ended rfl).current] at isCurrent
        cases isCurrent
      have invariant := between.invariant
      rw [idle] at invariant
      rw [invariant.unwaited plain r] at waits
      exact absurd waits List.not_mem_nil

end Sched
end OsPa
