import OsPa.Sched.Steps
import OsPa.Library.Service

namespace OsPa
namespace Sched

open Library

/-!
# Scripts without acquires

Without acquires nobody waits for a resource.  A round of the loop then forks the
processes whose time has come, takes leave of the process that ran if it has
completed, and lets the chosen one run for a tick.  `Round` is this effect for
any lawful scheduler.  The ages of the processes are those of jobs that are
served a unit at a time.
-/

/-- No process acquires anything, and all have something to do. -/
structure Script.Plain (script : Script) : Prop where
  acquires : forall description, description ∈ script -> description.acquires = []
  lifespan : forall description, description ∈ script -> 1 ≤ description.lifespan

theorem Script.Plain.valid {script : Script} (plain : script.Plain) : script.Valid := by
  intro description member
  have none : forall rs, rs ∉ description.acquires := by
    rw [plain.acquires description member]
    exact fun _ => List.not_mem_nil
  exact ⟨plain.lifespan description member, fun rs acquired => absurd acquired (none rs),
    fun rs acquired => absurd acquired (none rs), fun rs acquired => absurd acquired (none rs)⟩

/-! ## Forking -/

/-- The process starts at the tick or has started before. -/
def State.Arrived (state : State) (process : Nat) : Prop := (state.process process).startsAt ≤ state.ticks

instance (state : State) : DecidablePred state.Arrived :=
  fun process => inferInstanceAs (Decidable ((state.process process).startsAt ≤ state.ticks))

/-- What the loop over a part of the fork queue does. -/
structure Forks (todo : List Nat) (before after : State) : Prop where
  process : forall process, Exists fun status =>
    after.process process = { before.process process with status := status } ∧
      (process ∉ todo -> status = (before.process process).status)
  forkqueue : after.forkqueue = before.forkqueue.filter fun process => process ∉ todo ∨ ¬ before.Arrived process
  readyqueue : after.readyqueue = before.readyqueue ++ todo.filter fun process => before.Arrived process
  resources : after.resources = before.resources
  current : after.current = before.current
  ticks : after.ticks = before.ticks
  stderr : after.stderr = before.stderr ++
    (todo.filter fun process => before.Arrived process).map fun process => (before.ticks, .forked process)

section Forks

variable {before middle after : State} {process : Nat} {todo : List Nat}

private theorem Forks.nil (state : State) : Forks [] state state := by
  constructor
  case process => exact fun _ => ⟨_, rfl, fun _ => rfl⟩
  case forkqueue =>
    have all : state.forkqueue.filter (fun process => process ∉ [] ∨ ¬ state.Arrived process) = state.forkqueue := by
      apply List.filter_eq_self.mpr
      exact fun process _ => decide_eq_true (Or.inl List.not_mem_nil)
    exact all.symm
  case readyqueue => exact (List.append_nil _).symm
  case resources => rfl
  case current => rfl
  case ticks => rfl
  case stderr => exact (List.append_nil _).symm

/-- A process that starts later is passed. -/
theorem Forks.skip (late : ¬ before.Arrived process) (rest : Forks todo before after) :
    Forks (process :: todo) before after := by
  have remaining : (process :: todo).filter (fun other => before.Arrived other) =
      todo.filter fun other => before.Arrived other :=
    List.filter_cons_of_neg (by rw [decide_eq_true_iff]; exact late)
  constructor
  case process =>
    intro other
    rcases rest.process other with ⟨status, same, untouched⟩
    exact ⟨status, same, fun absent => untouched fun member => absent (List.mem_cons_of_mem _ member)⟩
  case forkqueue =>
    rw [rest.forkqueue]
    apply List.filter_congr
    intro other _
    rw [decide_eq_decide, List.mem_cons, not_or]
    constructor
    · rintro (absent | notArrived)
      · by_cases same : other = process
        · exact Or.inr (same ▸ late)
        · exact Or.inl ⟨same, absent⟩
      · exact Or.inr notArrived
    · exact Or.imp_left And.right
  case readyqueue => rw [rest.readyqueue, remaining]
  case resources => exact rest.resources
  case current => exact rest.current
  case ticks => exact rest.ticks
  case stderr => rw [rest.stderr, remaining]

/-- A process whose time has come goes to the ready queue. -/
theorem Forks.fork (nodup : before.forkqueue.Nodup) (arrived : before.Arrived process)
    (rest : Forks todo ((before.fork process).print (.forked process)) after) :
    Forks (process :: todo) before after := by
  let forked := (before.fork process).print (.forked process)
  have sameArrived : forall other, forked.Arrived other ↔ before.Arrived other := by
    intro other
    have startsAt := congrArg Process.startsAt (before.fork_process process other)
    exact iff_of_eq (congrArg (fun startsAt => startsAt ≤ before.ticks) startsAt)
  have later : todo.filter (fun other => forked.Arrived other) = todo.filter fun other => before.Arrived other := by
    apply List.filter_congr
    exact fun other _ => decide_eq_decide.mpr (sameArrived other)
  have first : (process :: todo).filter (fun other => before.Arrived other) =
      process :: todo.filter fun other => before.Arrived other :=
    List.filter_cons_of_pos (decide_eq_true arrived)
  constructor
  case process =>
    intro other
    rcases rest.process other with ⟨status, same, untouched⟩
    have fork : forked.process other = _ := before.fork_process process other
    refine ⟨status, ?_, ?_⟩
    · rw [same, fork]
    · intro absent
      have different : other ≠ process := fun same => absent (same ▸ List.mem_cons_self)
      rw [untouched fun member => absent (List.mem_cons_of_mem _ member), fork, if_neg different]
  case forkqueue =>
    have erased : forked.forkqueue = before.forkqueue.erase process := rfl
    rw [rest.forkqueue, erased, nodup.erase_eq_filter, List.filter_filter]
    apply List.filter_congr
    intro other _
    rw [Bool.eq_iff_iff, Bool.and_eq_true, decide_eq_true_iff, decide_eq_true_iff, bne_iff_ne, sameArrived,
      List.mem_cons, not_or]
    constructor
    · rintro ⟨absent | late, different⟩
      · exact Or.inl ⟨different, absent⟩
      · exact Or.inr late
    · rintro (⟨different, absent⟩ | late)
      · exact ⟨Or.inl absent, different⟩
      · exact ⟨Or.inr late, fun same => late (same ▸ arrived)⟩
  case readyqueue =>
    have appended : forked.readyqueue = before.readyqueue ++ [process] := rfl
    rw [rest.readyqueue, appended, later, first, List.append_assoc, List.singleton_append]
  case resources => exact rest.resources
  case current => exact rest.current
  case ticks => exact rest.ticks
  case stderr =>
    have printed : forked.stderr = before.stderr ++ [(before.ticks, .forked process)] := rfl
    have clock : forked.ticks = before.ticks := rfl
    rw [rest.stderr, printed, clock, later, first, List.append_assoc, List.map_cons, List.singleton_append]

end Forks

theorem forkOnSchedule_forks (state : State) (nodup : state.forkqueue.Nodup) :
    Forks state.forkqueue state (forkOnSchedule state) := by
  have walk : forall (todo : List Nat) (state : State), state.forkqueue.Nodup ->
      Forks todo state (todo.foldl forkProcess state) := by
    intro todo
    induction todo with
    | nil => exact fun state _ => Forks.nil state
    | cons process todo inductionHypothesis =>
        intro state nodup
        rw [List.foldl_cons, forkProcess_eq]
        split
        case isTrue arrived => exact Forks.fork nodup arrived (inductionHypothesis _ (nodup.erase process))
        case isFalse late => exact Forks.skip late (inductionHypothesis state nodup)
  exact walk _ state nodup

/-! ## A round -/

/-- The process that exits in the next round. -/
def State.departing (state : State) : List Nat :=
  match state.running with
  | none => []
  | some process => if (state.process process).age < (state.process process).lifespan then [] else [process]

theorem State.farewell_eq (state : State) : state.farewell = state.departing.map Event.exited := by
  unfold State.farewell State.departing
  cases state.running with
  | none => rfl
  | some process =>
      dsimp only
      split <;> rfl

/-- The effect of a round after the forks, and what is printed last in it. -/
inductive Round (sched : Scheduler) (forked : State) : Bool -> List Event -> State -> Prop
  | leave (prio : Nat -> Nat) (ready : forked.settle.readyqueue = []) (forks : forked.forkqueue = []) :
      Round sched forked true [] (forked.dispatched prio none [])
  | idle (prio : Nat -> Nat) (ready : forked.settle.readyqueue = []) (forks : forked.forkqueue ≠ []) :
      Round sched forked false [.idle] (((forked.dispatched prio none []).print .idle).tick)
  | run (prio : Nat -> Nat) {current : Nat} {scheduled : State}
      (chosen : sched.schedule forked = (some current, scheduled))
      (moved : (current :: scheduled.readyqueue).Perm forked.settle.readyqueue) :
      Round sched forked false [.ran current]
        ((((forked.dispatched prio (some current) scheduled.readyqueue).setStatus current .running).grow current).tick)

section Plain

variable {script : Script} {sched : Scheduler} {state forked after : State} {left : Bool} {last : List Event}

/-- There is nothing to acquire or to release. -/
theorem Punctual.plain {acquires held pending : List ResourceSchedule} {age : Nat}
    (punctual : Punctual acquires age held pending) (none : acquires = []) : held = [] ∧ pending = [] := by
  have entries := punctual.entries
  rw [none, List.subperm_nil] at entries
  rcases List.append_eq_nil_iff.mp entries with ⟨holds, waits⟩
  exact ⟨List.map_eq_nil_iff.mp holds, waits⟩

theorem Script.Plain.description (plain : script.Plain) (process : Nat) :
    (script.description process).acquires = [] :=
  Script.description_acquires plain.acquires process

/-- A lawful scheduler has rounds of this kind. -/
theorem Between.round (plain : script.Plain) (lawful : Lawful sched) (between : Between script state) :
    Exists fun left => Exists fun last => Exists fun after =>
      Sched.iteration sched state = .ok (left, after) ∧ Round sched (forkOnSchedule state) left last after := by
  have forked := forkOnSchedule_between between
  rcases forked.dispatch plain.valid lawful with ⟨updated, retired, isCurrent, invariant, chosen⟩
  cases choice : sched.schedule (forkOnSchedule state) with
  | mk next scheduled =>
      have first : (sched.schedule (forkOnSchedule state)).1 = next := congrArg Prod.fst choice
      have retired' := retired
      rw [choice] at retired'
      rcases forked.chosen plain.valid lawful choice retired' with ⟨prio, rfl, moved, idle⟩
      cases next with
      | none =>
          have ran := iteration_of_none retired first
          rw [idle rfl] at moved ran
          have ready := moved.symm.eq_nil
          by_cases forks : (forkOnSchedule state).forkqueue = []
          · have empty : ((forkOnSchedule state).dispatched prio none []).readyqueue = [] ∧
              ((forkOnSchedule state).dispatched prio none []).forkqueue = [] :=
                ⟨rfl, (State.settle_forkqueue _).trans forks⟩
            rw [if_pos empty] at ran
            exact ⟨_, _, _, ran, .leave prio ready forks⟩
          · have waits : ¬ (((forkOnSchedule state).dispatched prio none []).readyqueue = [] ∧
                ((forkOnSchedule state).dispatched prio none []).forkqueue = []) :=
              fun empty => forks ((State.settle_forkqueue _).symm.trans empty.2)
            rw [if_neg waits] at ran
            exact ⟨_, _, _, ran, .idle prio ready forks⟩
      | some current =>
          have punctual := (chosen current rfl).2.plain (plain.description current)
          let running := ((forkOnSchedule state).dispatched prio (some current) scheduled.readyqueue).setStatus current
            .running
          have acquired : runCurrentAcquire sched current []
              (((forkOnSchedule state).dispatched prio (some current) scheduled.readyqueue).process
                current).resourcesToAcquire running = .ok (true, running) := by
            rw [punctual.2]
            rfl
          have holding : (running.process current).resourcesHolding = [] := by
            have same := congrArg Process.resourcesHolding (((forkOnSchedule state).dispatched prio (some current)
              scheduled.readyqueue).setStatus_process current .running current)
            exact same.trans punctual.1
          have released : runCurrentRelease sched current [] (running.process current).resourcesHolding
              (running.grow current) = .ok (running.grow current) := by
            rw [holding]
            rfl
          have invariant' : Invariant script (some current) _ _ := invariant
          have executed := execute_of_granted invariant'.placed.of_detached.2.1 acquired released
          exact ⟨_, _, _, iteration_of_some retired first executed, .run prio choice moved⟩

/-! ## Ages -/

/-- The processes of a script as jobs. -/
def Script.workload (script : Script) : Workload Nat where
  jobs := Finset.range script.length
  release := fun process => (script.description process).startsAt
  length := fun process => (script.description process).lifespan

def State.age (state : State) (process : Nat) : Nat := (state.process process).age

/-- What holds at the beginning of a round.  Processes that start at the tick
are still in the fork queue. -/
structure Calm (script : Script) (state : State) : Prop where
  between : Between script state
  startsAt : forall process, (state.process process).startsAt = (script.description process).startsAt
  forkqueue : forall process, process < script.length ->
    (process ∈ state.forkqueue ↔ state.ticks ≤ (script.description process).startsAt)
  early : forall process, process ∈ state.forkqueue -> state.age process = 0

theorem Calm.initial (plain : script.Plain) : Calm script script.initial := by
  constructor
  case between => exact plain.valid.initial
  case startsAt => exact fun _ => rfl
  case forkqueue => exact fun process inside => iff_of_true (List.mem_range.mpr inside) (Nat.zero_le _)
  case early => exact fun _ _ => rfl

/-- Who is in a list still has to run. -/
theorem Placed.young {detached : Option Nat} (placed : Placed script detached state) {process : Nat}
    (found : 0 < state.queued process) : (state.process process).age < (state.process process).lifespan := by
  rcases State.attached_iff.mpr found with forks | ready | ⟨r, waits⟩
  · exact placed.forking process forks
  · exact (placed.ready process ready).2
  · exact (placed.waiting r process waits).2.1

/-- Nobody has become too old, if the detached process has not. -/
theorem Placed.age_le {detached : Option Nat} (placed : Placed script detached state)
    (running : forall process, detached = some process ->
      (state.process process).age ≤ (state.process process).lifespan)
    {process : Nat} (inside : process < script.length) :
    (state.process process).age ≤ (state.process process).lifespan := by
  have once := placed.once process
  rw [if_pos inside] at once
  by_cases runs : detached = some process
  · exact running process runs
  · rw [if_neg runs] at once
    by_cases exited : (state.process process).status = .exit
    · exact Nat.le_of_eq (placed.exited process exited)
    · rw [if_neg exited] at once
      exact Nat.le_of_lt (placed.young (by omega))

private theorem Between.age_le (between : Between script state) {process : Nat} (inside : process < script.length) :
    (state.process process).age ≤ (state.process process).lifespan :=
  between.invariant.placed.age_le (fun process runs => (between.running process runs).1) inside

/-- No process is served before it starts, or for longer than its lifespan. -/
theorem Calm.within (calm : Calm script state) : script.workload.Within state.ticks state.age := by
  constructor
  case early =>
    intro process inside starts
    exact calm.early process ((calm.forkqueue process (Finset.mem_range.mp inside)).mpr starts)
  case bounded =>
    intro process inside
    have bounded := calm.between.age_le (Finset.mem_range.mp inside)
    rw [calm.between.invariant.placed.lifespan process] at bounded
    exact bounded

theorem Forks.age {todo : List Nat} (forks : Forks todo state forked) : forked.age = state.age := by
  funext process
  rcases forks.process process with ⟨status, same, _⟩
  have aged := congrArg Process.age same
  exact aged

private theorem State.settle_age (state : State) : state.settle.age = state.age := by
  funext process
  rcases state.settle_process process with ⟨status, same, _⟩
  have aged := congrArg Process.age same
  exact aged

/-- Without acquires nobody waits. -/
theorem Invariant.unwaited {next : Option Nat} (plain : script.Plain) (invariant : Invariant script none next state)
    (r : Fin nrResources) : state.waitqueue r = [] := by
  apply List.eq_nil_iff_forall_not_mem.mpr
  intro process waits
  have due := (invariant.placed.waiting r process waits).2.2
  have nothing := ((invariant.punctual process (Option.some_ne_none process).symm).plain (plain.description process)).2
  unfold Process.firstDue at due
  rw [nothing] at due
  cases due

/-- After the forks those processes are in the fork queue that start later. -/
theorem Calm.forked_mem (calm : Calm script state) {process : Nat} (inside : process < script.length) :
    process ∈ (forkOnSchedule state).forkqueue ↔ state.ticks < (script.description process).startsAt := by
  have forks := forkOnSchedule_forks state calm.between.invariant.placed.forkqueue_nodup
  have early := calm.forkqueue process inside
  rw [forks.forkqueue, List.mem_filter, decide_eq_true_iff]
  unfold State.Arrived
  rw [calm.startsAt process]
  constructor
  · rintro ⟨member, absent | late⟩
    · exact absurd member absent
    · exact Nat.lt_of_not_le late
  · intro later
    exact ⟨early.mpr (Nat.le_of_lt later), Or.inr (Nat.not_le_of_lt later)⟩

/-- The scheduler chooses among the processes that have started and still have to
run. -/
theorem Calm.available (plain : script.Plain) (calm : Calm script state) (process : Nat) :
    process ∈ (forkOnSchedule state).settle.readyqueue ↔
      process ∈ script.workload.jobs ∧ 1 ≤ script.workload.left state.ticks state.age process := by
  have forks := forkOnSchedule_forks state calm.between.invariant.placed.forkqueue_nodup
  have invariant := (forkOnSchedule_between calm.between).settle
  have placed := invariant.placed
  have age : ((forkOnSchedule state).settle.process process).age = state.age process := by
    have same := congrFun ((forkOnSchedule state).settle_age.trans forks.age) process
    exact same
  have lifespan := placed.lifespan process
  have left : process < script.length -> (1 ≤ script.workload.left state.ticks state.age process ↔
      process ∉ (forkOnSchedule state).settle.forkqueue ∧
        state.age process < (script.description process).lifespan) := by
    intro inside
    rw [State.settle_forkqueue, calm.forked_mem inside]
    unfold Workload.left Script.workload
    dsimp only
    split <;> omega
  rw [← age, ← lifespan] at left
  constructor
  · intro ready
    have inside := placed.lt_length (State.queued_of_ready ready)
    refine ⟨Finset.mem_range.mpr inside, (left inside).mpr ⟨?_, (placed.ready process ready).2⟩⟩
    exact fun forking => placed.not_ready forking ready
  · rintro ⟨isJob, works⟩
    have inside := Finset.mem_range.mp isJob
    rcases (left inside).mp works with ⟨notForking, young⟩
    have once := placed.once process
    have alive : ((forkOnSchedule state).settle.process process).status ≠ .exit := by
      intro exited
      have completed := placed.exited process exited
      omega
    rw [if_pos inside, if_neg alive, if_neg (Option.some_ne_none process).symm] at once
    rcases State.attached_iff.mpr (by omega : 0 < (forkOnSchedule state).settle.queued process) with
      forking | ready | ⟨r, waits⟩
    · exact absurd forking notForking
    · exact ready
    · have none := invariant.unwaited plain r
      unfold State.waitqueue at none
      rw [none] at waits
      exact absurd waits List.not_mem_nil

/-- The process that a round serves. -/
def servedBy : List Event -> Option Nat
  | [.ran process] => some process
  | _ => none

theorem State.dispatched_age (state : State) (prio : Nat -> Nat) (next : Option Nat) (readyqueue : List Nat) :
    (state.dispatched prio next readyqueue).age = state.age := by
  funext process
  rcases state.dispatched_process prio next readyqueue process with ⟨status, same⟩
  have aged := congrArg Process.age same
  exact aged

theorem State.grow_age (state : State) (current : Nat) :
    (state.grow current).age = Function.update state.age current (state.age current + 1) := by
  funext process
  by_cases same : process = current
  · subst process
    rw [Function.update_self]
    exact congrArg Process.age (state.grow_process_self current)
  · rw [Function.update_of_ne same]
    exact congrArg Process.age (state.grow_process_of_ne same)

theorem State.setStatus_age (state : State) (process : Nat) (status : ProcessStatus) :
    (state.setStatus process status).age = state.age := by
  funext other
  have aged := congrArg Process.age (state.setStatus_process process status other)
  exact aged

/-- The chosen process becomes older. -/
theorem Round.run_age (prio : Nat -> Nat) (current : Nat) (readyqueue : List Nat) :
    ((((forked.dispatched prio (some current) readyqueue).setStatus current .running).grow current).tick).age =
      Function.update forked.age current (forked.age current + 1) := by
  have grown := State.grow_age ((forked.dispatched prio (some current) readyqueue).setStatus current .running) current
  rw [State.setStatus_age, State.dispatched_age] at grown
  exact grown

theorem Round.ticks (round : Round sched forked left last after) :
    after.ticks = forked.ticks + if left then 0 else 1 := by
  cases round with
  | leave prio ready forks => rfl
  | idle prio ready forks => rfl
  | run prio chosen moved => rfl

private theorem Round.stderr (round : Round sched forked left last after) :
    after.stderr = forked.stderr ++ (forked.farewell ++ last).map fun event => (forked.ticks, event) := by
  cases round with
  | leave prio ready forks =>
      rw [List.append_nil]
      rfl
  | idle prio ready forks =>
      rw [List.map_append, ← List.append_assoc]
      rfl
  | run prio chosen moved =>
      rw [List.map_append, ← List.append_assoc]
      rfl

/-- The forks do not concern the process that runs. -/
theorem Calm.forked_running (calm : Calm script state) : (forkOnSchedule state).running = state.running := by
  have forks := forkOnSchedule_forks state calm.between.invariant.placed.forkqueue_nodup
  apply State.running_congr forks.current
  intro current isCurrent
  rcases forks.process current with ⟨status, same, untouched⟩
  rw [same]
  apply untouched
  intro member
  exact calm.between.current_ne member isCurrent rfl

/-- What is printed in a round: the forks come first, then the exit. -/
theorem Calm.printed (calm : Calm script state) (round : Round sched (forkOnSchedule state) left last after) :
    after.stderr = state.stderr ++ ((state.forkqueue.filter fun process => state.Arrived process).map Event.forked ++
      (state.departing.map Event.exited ++ last)).map fun event => (state.ticks, event) := by
  have forks := forkOnSchedule_forks state calm.between.invariant.placed.forkqueue_nodup
  have departing : (forkOnSchedule state).departing = state.departing := by
    unfold State.departing
    rw [calm.forked_running]
    cases state.running with
    | none => rfl
    | some process =>
        rcases forks.process process with ⟨status, same, _⟩
        dsimp only
        rw [same]
  rw [round.stderr, forks.stderr, forks.ticks, State.farewell_eq, departing, List.append_assoc, List.map_append,
    List.map_append, List.map_append, List.map_map, List.map_map]
  rfl

/-- A round serves one of the processes that have work left, if there is one. -/
theorem Calm.serves (plain : script.Plain) (calm : Calm script state)
    (round : Round sched (forkOnSchedule state) left last after) :
    script.workload.Serves state.ticks state.age (servedBy last) after.age := by
  have forks := forkOnSchedule_forks state calm.between.invariant.placed.forkqueue_nodup
  have nothing : (forkOnSchedule state).settle.readyqueue = [] ->
      forall process, process ∈ script.workload.jobs -> script.workload.left state.ticks state.age process = 0 := by
    intro empty process isJob
    by_contra works
    have ready := (calm.available plain process).mpr ⟨isJob, Nat.one_le_iff_ne_zero.mpr works⟩
    rw [empty] at ready
    exact absurd ready List.not_mem_nil
  cases round with
  | leave prio ready _ =>
      rw [State.dispatched_age, forks.age]
      exact .idle (nothing ready)
  | idle prio ready _ =>
      have age : (((forkOnSchedule state).dispatched prio none []).print .idle).tick.age = _ :=
        (forkOnSchedule state).dispatched_age prio none []
      rw [age, forks.age]
      exact .idle (nothing ready)
  | @run prio current scheduled chosen moved =>
      have ready := moved.subset List.mem_cons_self
      rcases (calm.available plain current).mp ready with ⟨isJob, works⟩
      rw [Round.run_age, forks.age]
      exact .serve current isJob works

/-- The loop is left when no process is left to be served or to start. -/
theorem Calm.left_iff (calm : Calm script state) (round : Round sched (forkOnSchedule state) left last after) :
    left = true ↔ servedBy last = none ∧
      forall process, process < script.length -> (script.description process).startsAt ≤ state.ticks := by
  have started : (forkOnSchedule state).forkqueue = [] ↔
      forall process, process < script.length -> (script.description process).startsAt ≤ state.ticks := by
    constructor
    · intro empty process inside
      by_contra later
      have member := (calm.forked_mem inside).mpr (Nat.lt_of_not_le later)
      rw [empty] at member
      exact absurd member List.not_mem_nil
    · intro all
      apply List.eq_nil_iff_forall_not_mem.mpr
      intro process member
      have placed := (forkOnSchedule_between calm.between).invariant.placed
      have inside := placed.lt_length (State.queued_of_forking member)
      exact Nat.lt_irrefl _ (Nat.lt_of_lt_of_le ((calm.forked_mem inside).mp member) (all process inside))
  rw [← started]
  cases round with
  | leave prio ready forks => exact iff_of_true rfl ⟨rfl, forks⟩
  | idle prio ready forks => exact iff_of_false Bool.false_ne_true fun both => forks both.2
  | run prio chosen moved => exact iff_of_false Bool.false_ne_true fun both => absurd both.1 (Option.some_ne_none _)

private theorem Round.startsAt (round : Round sched forked left last after) (process : Nat) :
    (after.process process).startsAt = (forked.process process).startsAt := by
  have dispatched : forall (prio : Nat -> Nat) (next : Option Nat) (readyqueue : List Nat),
      ((forked.dispatched prio next readyqueue).process process).startsAt = (forked.process process).startsAt := by
    intro prio next readyqueue
    rcases forked.dispatched_process prio next readyqueue process with ⟨status, same⟩
    rw [same]
  cases round with
  | leave prio ready forks => exact dispatched prio none []
  | idle prio ready forks =>
      have same := dispatched prio none []
      exact same
  | @run prio current scheduled chosen moved =>
      let running := (forked.dispatched prio (some current) scheduled.readyqueue).setStatus current .running
      have runs := congrArg Process.startsAt
        ((forked.dispatched prio (some current) scheduled.readyqueue).setStatus_process current .running process)
      have grown : ((running.grow current).process process).startsAt = (running.process process).startsAt := by
        by_cases same : process = current
        · subst process
          rw [State.grow_process_self]
          rfl
        · rw [running.grow_process_of_ne same]
      exact grown.trans (runs.trans (dispatched prio (some current) scheduled.readyqueue))

theorem Round.forkqueue (round : Round sched forked left last after) : after.forkqueue = forked.forkqueue := by
  cases round with
  | leave prio ready forks => exact forked.settle_forkqueue
  | idle prio ready forks => exact forked.settle_forkqueue
  | run prio chosen moved => exact forked.settle_forkqueue

/-- A round ends where the next one can begin. -/
theorem Calm.next (plain : script.Plain) (calm : Calm script state) (between : Between script after)
    (round : Round sched (forkOnSchedule state) left last after) : Calm script after := by
  have forks := forkOnSchedule_forks state calm.between.invariant.placed.forkqueue_nodup
  have serves := calm.serves plain round
  have clock := round.ticks
  rw [forks.ticks] at clock
  have later : forall process, process < script.length ->
      (process ∈ after.forkqueue ↔ state.ticks < (script.description process).startsAt) := by
    intro process inside
    rw [round.forkqueue]
    exact calm.forked_mem inside
  constructor
  case between => exact between
  case startsAt =>
    intro process
    rcases forks.process process with ⟨status, same, _⟩
    rw [round.startsAt, same]
    exact calm.startsAt process
  case forkqueue =>
    intro process inside
    rw [later process inside]
    cases left with
    | false =>
        rw [if_neg Bool.false_ne_true] at clock
        rw [clock]
        exact Iff.rfl
    | true =>
        -- A process that starts in the last tick would have been served in it.
        rcases (calm.left_iff round).mp rfl with ⟨idle, started⟩
        rw [if_pos rfl] at clock
        rw [clock]
        refine iff_of_false (Nat.not_lt_of_le (started process inside)) ?_
        intro starts
        have young := calm.early process ((calm.forkqueue process inside).mpr starts)
        have worthy := plain.lifespan _ (Script.description_mem inside)
        have none := Finset.sum_eq_zero_iff.mp (serves.idle_iff.mp idle) process (Finset.mem_range.mpr inside)
        unfold Workload.left Script.workload at none
        dsimp only at none
        rw [if_pos (started process inside), young] at none
        omega
  case early =>
    intro process member
    have inside := between.invariant.placed.lt_length (State.queued_of_forking member)
    exact (serves.within calm.within).early process (Finset.mem_range.mpr inside)
      ((later process inside).mp member)

/-- The next round of a lawful scheduler. -/
theorem Calm.round (plain : script.Plain) (lawful : Lawful sched) (calm : Calm script state) :
    Exists fun left => Exists fun last => Exists fun after => Sched.iteration sched state = .ok (left, after) ∧
      Round sched (forkOnSchedule state) left last after ∧ Calm script after := by
  rcases calm.between.round plain lawful with ⟨left, last, after, ran, round⟩
  rcases calm.between.iteration plain.valid lawful with ⟨left', after', ran', between, _⟩
  cases ran.symm.trans ran'
  exact ⟨left, last, after, ran, round, calm.next plain between round⟩

/-- All states that are reached are of this kind. -/
theorem Simulates.calm (plain : script.Plain) (lawful : Lawful sched) {rounds : Nat}
    (simulates : Simulates sched script rounds left state) : Calm script state := by
  have round : forall state, Calm script state -> Exists fun left => Exists fun after =>
      Sched.iteration sched state = .ok (left, after) ∧ Calm script after ∧ (left = true -> True) := by
    intro state calm
    rcases calm.round plain lawful with ⟨left, last, after, ran, _, later⟩
    exact ⟨left, after, ran, later, fun _ => trivial⟩
  exact (simulates.invariant (Calm script) round (Calm.initial plain)).1

end Plain

end Sched
end OsPa
