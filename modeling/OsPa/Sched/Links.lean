import OsPa.Sched.Steps

namespace OsPa
namespace Sched

open Library

/-!
# What holds for every script

A script that makes no sense may run into a fault.  Until it does, every process
is linked into one list at most, the one that runs into none, and who waits for a
resource is blocked.  Faults do not count as steps, so that the callbacks are
looked at where they succeed.
-/

/-! ## Callbacks that succeed -/

theorem resourceIndex_eq_some {resourceId : Nat} {r : Fin nrResources} :
    resourceIndex resourceId = some r ↔ r.val = resourceId := by
  unfold resourceIndex
  constructor
  · intro index
    split at index
    · cases index
      rfl
    · cases index
  · rintro rfl
    exact dif_pos r.isLt

/-- What an acquire leaves behind, when it succeeds. -/
theorem acquireWith_ok {take : Nat -> State -> State} {wait : Nat -> Nat -> State -> State} {resourceId : Nat}
    {state after : State} {granted : Bool} (acquired : acquireWith take wait resourceId state = .ok (granted, after)) :
    Exists fun r : Fin nrResources => Exists fun current => r.val = resourceId ∧ state.current = some current ∧
      ((granted = true ∧ state.owner r = none ∧ after = take current (state.setOwner r (some current))) ∨
        (granted = false ∧ Exists fun owner => state.owner r = some owner ∧
          after = ((wait owner current state).setStatus current .blocked).setWaitqueue r
            ((wait owner current state).waitqueue r ++ [current]))) := by
  unfold acquireWith at acquired
  cases index : resourceIndex resourceId with
  | none =>
      rw [index] at acquired
      cases acquired
  | some r =>
      cases isCurrent : state.current with
      | none =>
          rw [index, isCurrent] at acquired
          cases acquired
      | some current =>
          refine ⟨r, current, resourceIndex_eq_some.mp index, rfl, ?_⟩
          rw [index, isCurrent] at acquired
          dsimp only at acquired
          split at acquired
          case h_1 free =>
            cases acquired
            exact Or.inl ⟨rfl, free, rfl⟩
          case h_2 owner owned =>
            cases acquired
            exact Or.inr ⟨rfl, owner, owned, rfl⟩

theorem acquireWith_guarded {take : Nat -> State -> State} {wait : Nat -> Nat -> State -> State} {resourceId : Nat}
    {state : State} {result : Bool × State} (acquired : acquireWith take wait resourceId state = .ok result) :
    Exists fun r : Fin nrResources => Exists fun current => r.val = resourceId ∧ state.current = some current := by
  rcases acquireWith_ok acquired with ⟨r, current, same, isCurrent, _⟩
  exact ⟨r, current, same, isCurrent⟩

/-- What a release leaves behind, when it succeeds. -/
theorem releaseWith_ok {restore : Nat -> State -> State} {select : State -> List Nat -> Option Nat} {resourceId : Nat}
    {state after : State} (released : releaseWith restore select resourceId state = .ok after) :
    Exists fun r => Exists fun current => r.val = resourceId ∧ state.current = some current ∧
      state.owner r = some current ∧ Exists fun unowned => unowned = (restore current state).setOwner r none ∧
        ((after = unowned ∧ (unowned.waitqueue r = [] ∨ select unowned (unowned.waitqueue r) = none)) ∨
          Exists fun waiter => select unowned (unowned.waitqueue r) = some waiter ∧ after = unowned.wake r waiter) := by
  unfold releaseWith at released
  cases index : resourceIndex resourceId with
  | none =>
      rw [index] at released
      cases released
  | some r =>
      cases isCurrent : state.current with
      | none =>
          rw [index, isCurrent] at released
          cases released
      | some current =>
          rw [index, isCurrent] at released
          dsimp only at released
          have same : r.val = resourceId := resourceIndex_eq_some.mp index
          split at released
          next owned =>
            refine ⟨r, current, same, rfl, owned, (restore current state).setOwner r none, rfl, ?_⟩
            unfold State.wake State.waitqueue
            cases queue : (((restore current state).setOwner r none).resources r).waitqueue with
            | nil =>
                rw [queue] at released
                cases released
                exact Or.inl ⟨rfl, Or.inl rfl⟩
            | cons first rest =>
                rw [queue] at released
                dsimp only at released
                split at released
                next =>
                  split at released
                  next none =>
                    cases released
                    exact Or.inl ⟨rfl, Or.inr none⟩
                  next waiter selected =>
                    cases released
                    exact Or.inr ⟨waiter, selected, rfl⟩
                next => cases released
          next => cases released

/-- The callbacks look at the resource and the current process before they do
anything. -/
structure Guarded (sched : Scheduler) : Prop where
  acquire : forall {resourceId : Nat} {state : State} {result : Bool × State},
    sched.acquire resourceId state = .ok result ->
      Exists fun r : Fin nrResources => Exists fun current => r.val = resourceId ∧ state.current = some current
  release : forall {resourceId : Nat} {state after : State}, sched.release resourceId state = .ok after ->
    Exists fun r : Fin nrResources => Exists fun current => r.val = resourceId ∧ state.current = some current ∧
      state.owner r = some current

theorem releaseWith_guarded {restore : Nat -> State -> State} {select : State -> List Nat -> Option Nat}
    {resourceId : Nat} {state after : State} (released : releaseWith restore select resourceId state = .ok after) :
    Exists fun r : Fin nrResources => Exists fun current => r.val = resourceId ∧ state.current = some current ∧
      state.owner r = some current := by
  rcases releaseWith_ok released with ⟨r, current, same, isCurrent, owned, _⟩
  exact ⟨r, current, same, isCurrent, owned⟩

theorem SchedulerName.guarded (name : SchedulerName) : Guarded name.scheduler := by
  have fcfsAcquires : forall {resourceId : Nat} {state : State} {result : Bool × State},
      fcfsAcquire resourceId state = .ok result ->
        Exists fun r : Fin nrResources => Exists fun current => r.val = resourceId ∧ state.current = some current :=
    fun acquired => acquireWith_guarded acquired
  have fcfsReleases : forall {resourceId : Nat} {state after : State}, fcfsRelease resourceId state = .ok after ->
      Exists fun r : Fin nrResources => Exists fun current => r.val = resourceId ∧ state.current = some current ∧
        state.owner r = some current :=
    fun released => releaseWith_guarded released
  have prioReleases : forall {resourceId : Nat} {state after : State}, prioRelease resourceId state = .ok after ->
      Exists fun r : Fin nrResources => Exists fun current => r.val = resourceId ∧ state.current = some current ∧
        state.owner r = some current :=
    fun released => releaseWith_guarded released
  cases name with
  | fcfs => exact ⟨fcfsAcquires, fcfsReleases⟩
  | sjf => exact ⟨fcfsAcquires, fcfsReleases⟩
  | stcf => exact ⟨fcfsAcquires, fcfsReleases⟩
  | rr => exact ⟨fcfsAcquires, fcfsReleases⟩
  | prio => exact ⟨fcfsAcquires, prioReleases⟩
  | pa => exact ⟨fcfsAcquires, prioReleases⟩
  | pcp =>
      refine ⟨?_, ?_⟩
      · intro resourceId state result acquired
        have asked : pcpAcquire resourceId state = .ok result := acquired
        exact acquireWith_guarded asked
      · intro resourceId state after released
        have asked : pcpRelease resourceId state = .ok after := released
        exact releaseWith_guarded asked
  | pip =>
      refine ⟨?_, ?_⟩
      · intro resourceId state result acquired
        have asked : pipAcquire resourceId state = .ok result := acquired
        exact acquireWith_guarded asked
      · intro resourceId state after released
        have asked : pipRelease resourceId state = .ok after := released
        exact releaseWith_guarded asked

section Answers

variable {sched : Scheduler} {resourceId current : Nat} {state after : State}

/-- An acquire that succeeds is granted or refused. -/
theorem Guarded.acquired (guarded : Guarded sched) (lawful : Lawful sched) (isCurrent : state.current = some current)
    {granted : Bool} (asked : sched.acquire resourceId state = .ok (granted, after)) :
    Exists fun r : Fin nrResources => r.val = resourceId ∧ Acquired current r state granted after := by
  rcases guarded.acquire asked with ⟨r, _, same, _⟩
  rcases lawful.acquire (resourceIndex_eq_some.mpr same) isCurrent with ⟨granted', after', answered, answer⟩
  cases asked.symm.trans answered
  exact ⟨r, same, answer⟩

theorem Guarded.released (guarded : Guarded sched) (lawful : Lawful sched) (isCurrent : state.current = some current)
    (blocked : forall r waiter, waiter ∈ state.waitqueue r -> (state.process waiter).status = .blocked)
    (asked : sched.release resourceId state = .ok after) :
    Exists fun r : Fin nrResources => r.val = resourceId ∧ Released r state after := by
  rcases guarded.release asked with ⟨r, current', same, isCurrent', owned⟩
  cases isCurrent.symm.trans isCurrent'
  have index := resourceIndex_eq_some.mpr same
  rcases lawful.release index isCurrent owned (blocked r) with ⟨after', answered, released⟩
  cases asked.symm.trans answered
  exact ⟨r, same, released⟩

end Answers

/-! ## Links -/

/-- Every process is linked into one list at most, and the detached one into
none. -/
structure Linked (detached : Option Nat) (state : State) : Prop where
  once : forall process, state.queued process + (if detached = some process then 1 else 0) ≤ 1
  waiting : forall r process, process ∈ state.waitqueue r -> (state.process process).status = .blocked

/-- The current process runs, or waits. -/
def State.Attending (state : State) : Prop :=
  forall current, state.current = some current ->
    (state.process current).status = .running ∨ Exists fun r => current ∈ state.waitqueue r

inductive Tied : Configuration -> Prop
  | closing {left : Bool} {state : State} (linked : Linked state.running state) (attending : state.Attending) :
      Tied (.closing left, state)
  | forking {todo : List Nat} {state : State} (linked : Linked state.running state) (attending : state.Attending)
      (nodup : todo.Nodup) (members : forall process, process ∈ todo -> process ∈ state.forkqueue) :
      Tied (.forking todo, state)
  | acquiring {current : Nat} {kept todo : List ResourceSchedule} {state : State}
      (linked : Linked (some current) state) (isCurrent : state.current = some current)
      (running : (state.process current).status = .running) : Tied (.acquiring current kept todo, state)
  | releasing {current : Nat} {kept todo : List ResourceSchedule} {state : State}
      (linked : Linked (some current) state) (isCurrent : state.current = some current)
      (running : (state.process current).status = .running) : Tied (.releasing current kept todo, state)

section Links

variable {detached : Option Nat} {state after : State} {current process : Nat}

theorem Linked.of_queued (linked : Linked detached state) (found : 0 < state.queued process) :
    detached ≠ some process := by
  intro same
  have once := linked.once process
  rw [if_pos same] at once
  omega

/-- The same links, and the same processes wait. -/
theorem Linked.congr (linked : Linked detached state)
    (queued : forall process, after.queued process = state.queued process)
    (waitqueue : after.waitqueue = state.waitqueue)
    (status : forall process, (Exists fun r => process ∈ state.waitqueue r) ->
      (after.process process).status = (state.process process).status) :
    Linked detached after := by
  constructor
  · intro process
    rw [queued]
    exact linked.once process
  · intro r process waits
    rw [waitqueue] at waits
    rw [status process ⟨r, waits⟩]
    exact linked.waiting r process waits

/-- The current process of whom nothing changes. -/
theorem State.Attending.running (attending : state.Attending) (linked : Linked state.running state)
    (isCurrent : state.current = some current) (notBlocked : (state.process current).status ≠ .blocked) :
    state.running = some current := by
  rcases attending current isCurrent with runs | ⟨r, waits⟩
  · exact State.running_eq_some.mpr ⟨isCurrent, runs⟩
  · exact absurd (linked.waiting r current waits) notBlocked

/-- A process that can run on is in no list. -/
theorem State.Attending.count_runnable (attending : state.Attending) (linked : Linked state.running state)
    (process : Nat) : state.runnable.toList.count process ≤ if state.running = some process then 1 else 0 := by
  cases runs : state.runnable with
  | none => exact Nat.zero_le _
  | some current =>
      have chosen := Option.filter_eq_some_iff.mp runs
      have notBlocked : (state.process current).status ≠ .blocked := by
        have both := chosen.2
        rw [Bool.and_eq_true, decide_eq_true_iff] at both
        exact both.1
      rw [attending.running linked chosen.1 notBlocked, Option.toList, List.count_singleton]
      by_cases same : current = process
      · rw [same, beq_self_eq_true, if_pos rfl, if_pos rfl]
      · rw [beq_false_of_ne same, if_neg Bool.false_ne_true]
        exact Nat.zero_le _

/-- A round ends, or begins, with a process that runs. -/
theorem Linked.running (linked : Linked (some current) state) (isCurrent : state.current = some current)
    (running : (state.process current).status = .running) : Linked state.running state ∧ state.Attending := by
  rw [State.running_eq_some.mpr ⟨isCurrent, running⟩]
  refine ⟨linked, ?_⟩
  intro other isOther
  rw [isCurrent] at isOther
  cases isOther
  exact Or.inl running

/-- A round ends without a process that runs. -/
theorem Tied.of_idle {left : Bool} (linked : Linked none state) (idle : state.current = none) :
    Tied (.closing left, state) := by
  have none : state.running = none := by
    apply State.running_eq_none
    intro process isSome
    rw [idle] at isSome
    cases isSome
  refine .closing (none.symm ▸ linked) ?_
  intro process isSome
  rw [idle] at isSome
  cases isSome

/-- A round ends with a process that waits. -/
theorem Tied.of_waiting {left : Bool} (linked : Linked none state) (isCurrent : state.current = some current)
    (waits : Exists fun r => current ∈ state.waitqueue r) : Tied (.closing left, state) := by
  rcases waits with ⟨r, waits⟩
  have none : state.running = none := by
    apply State.running_eq_none
    intro process isSome
    rw [isCurrent] at isSome
    cases isSome
    exact linked.waiting r current waits
  refine .closing (none.symm ▸ linked) ?_
  intro process isSome
  rw [isCurrent] at isSome
  cases isSome
  exact Or.inr ⟨r, waits⟩

/-- A process is forked. -/
theorem Linked.fork (linked : Linked state.running state) (attending : state.Attending)
    (member : process ∈ state.forkqueue) :
    Linked (state.fork process).running (state.fork process) ∧ (state.fork process).Attending := by
  have found := State.queued_of_forking member
  have notCurrent : forall current, state.current = some current -> current ≠ process := by
    rintro current isCurrent rfl
    rcases attending current isCurrent with runs | ⟨r, waits⟩
    · exact linked.of_queued found (State.running_eq_some.mpr ⟨isCurrent, runs⟩)
    · have once := linked.once current
      have copies := copies_pos.mpr ⟨r, waits⟩
      have forks := List.count_pos_iff.mpr member
      unfold State.queued at once
      omega
  have notWaiting : forall r, process ∉ state.waitqueue r := by
    intro r waits
    have once := linked.once process
    have copies := copies_pos.mpr ⟨r, waits⟩
    have forks := List.count_pos_iff.mpr member
    unfold State.queued at once
    omega
  have others : forall other, other ≠ process -> (state.fork process).process other = state.process other :=
    fun other different => State.fork_process_of_ne different
  have running : (state.fork process).running = state.running :=
    State.running_congr rfl fun current isCurrent =>
      congrArg Process.status (others current (notCurrent current isCurrent))
  constructor
  · rw [running]
    apply linked.congr (State.queued_fork member) rfl
    rintro other ⟨r, waits⟩
    rw [others other]
    rintro rfl
    exact notWaiting r waits
  · intro current isCurrent
    rw [others current (notCurrent current isCurrent)]
    exact attending current isCurrent

theorem Linked.forkqueue_nodup (linked : Linked detached state) : state.forkqueue.Nodup := by
  apply List.nodup_iff_count_le_one.mpr
  intro process
  have once := linked.once process
  unfold State.queued at once
  omega

/-- The previous process keeps its links, and is not touched while it waits. -/
structure Kept (state after : State) : Prop where
  queued : forall process, after.queued process = state.queued process
  waitqueue : after.waitqueue = state.waitqueue
  readyqueue : after.readyqueue = state.readyqueue
  current : after.current = state.current
  process : forall process, Exists fun status =>
    after.process process = { state.process process with status := status }
  waiting : forall process, (Exists fun r => process ∈ state.waitqueue r) ->
    (state.process process).status = .blocked -> (after.process process).status = .blocked

private theorem Kept.setStatus (state : State) (status : ProcessStatus)
    (apart : (state.process process).status ≠ .blocked ∨ state.queued process = 0) :
    Kept state (state.setStatus process status) := by
  refine ⟨fun _ => rfl, rfl, rfl, rfl, fun other => ⟨_, state.setStatus_process process status other⟩, ?_⟩
  rintro other ⟨r, waits⟩ blocked
  rw [State.setStatus_process]
  dsimp only
  rw [if_neg, blocked]
  rintro rfl
  rcases apart with notBlocked | unlinked
  · exact notBlocked blocked
  · have found := State.queued_of_waiting waits
    omega

theorem retire_kept {prev : Option Nat} (retired : retire prev state = .ok after) : Kept state after := by
  rcases retire_cases retired with rfl | ⟨process, _, runs, rfl⟩ | ⟨process, _, unlinked, rfl⟩
  · exact ⟨fun _ => rfl, rfl, rfl, rfl, fun _ => ⟨_, rfl⟩, fun _ _ blocked => blocked⟩
  · apply Kept.setStatus state .ready (Or.inl _)
    intro blocked
    exact ProcessStatus.noConfusion (blocked.symm.trans runs)
  · have last := Kept.setStatus state .exit (Or.inr unlinked)
    exact ⟨last.queued, last.waitqueue, last.readyqueue, last.current, last.process, last.waiting⟩

/-- The links after a choice: the current process has been put back, and the chosen
one taken out. -/
theorem Scheduled.queued {next : Option Nat} {scheduled : State} (law : Scheduled state next scheduled)
    (process : Nat) : ({ scheduled with current := next } : State).queued process + next.toList.count process =
      state.queued process + state.runnable.toList.count process := by
  rcases law.others with ⟨prio, others⟩
  have waitqueue : ({ scheduled with current := next } : State).waitqueue = state.waitqueue := by
    rw [others]
    rfl
  have forks : scheduled.forkqueue = state.forkqueue := by
    rw [others]
    rfl
  have moved := law.moved.count_eq process
  rw [List.count_append, List.count_append] at moved
  unfold State.queued
  rw [waitqueue]
  dsimp only
  rw [forks]
  omega

/-- A process is chosen, and the previous one put where it belongs. -/
theorem Linked.dispatch {next : Option Nat} {scheduled updated : State} (linked : Linked state.running state)
    (attending : state.Attending) (law : Scheduled state next scheduled)
    (retired : retire state.current { scheduled with current := next } = .ok updated) : Linked next updated := by
  have kept := retire_kept retired
  rcases law.others with ⟨prio, others⟩
  have waitqueue : ({ scheduled with current := next } : State).waitqueue = state.waitqueue := by
    rw [others]
    rfl
  constructor
  · intro process
    rw [kept.queued]
    have once := linked.once process
    have moved := law.queued process
    have runnable := attending.count_runnable linked process
    have taken : next.toList.count process = if next = some process then 1 else 0 := by
      cases next with
      | none => rfl
      | some next =>
          rw [Option.toList, List.count_singleton]
          simp only [beq_iff_eq, Option.some.injEq]
    omega
  · intro r process waits
    rw [kept.waitqueue, waitqueue] at waits
    apply kept.waiting process ⟨r, waitqueue.symm ▸ waits⟩
    have blocked := linked.waiting r process waits
    have status : (scheduled.process process).status = (state.process process).status := by
      rw [others]
      rfl
    exact status.trans blocked

/-- The detached process alone changes. -/
theorem Linked.modify (linked : Linked (some current) state) (change : Process -> Process) :
    Linked (some current) (state.modify current change) := by
  refine ⟨linked.once, ?_⟩
  intro r process waits
  have earlier : process ∈ state.waitqueue r := waits
  rw [State.process_modify_of_ne]
  · exact linked.waiting r process earlier
  · rintro rfl
    exact linked.of_queued (State.queued_of_waiting earlier) rfl

/-- The answer to a request. -/
theorem Linked.grant {r : Fin nrResources} (linked : Linked (some current) state)
    (answer : Acquired current r state true after) : Linked (some current) after := by
  cases answer with
  | granted prio free =>
      have waitqueue := state.waitqueue_setOwner r (some current)
      refine linked.congr ?_ waitqueue fun _ _ => rfl
      intro process
      unfold State.queued
      have same : (((state.setOwner r (some current)).reprioritized prio)).waitqueue = state.waitqueue := waitqueue
      rw [same]
      rfl

/-- The detached process goes to the end of a wait queue. -/
private theorem Linked.wait (linked : Linked (some current) state) (r : Fin nrResources) :
    Linked none ((state.setStatus current .blocked).setWaitqueue r (state.waitqueue r ++ [current])) ∧
      current ∈ ((state.setStatus current .blocked).setWaitqueue r (state.waitqueue r ++ [current])).waitqueue r := by
  have waitqueue := (state.setStatus current .blocked).waitqueue_setWaitqueue r (state.waitqueue r ++ [current])
  refine ⟨⟨?_, ?_⟩, ?_⟩
  · intro process
    have once := linked.once process
    have changed := (state.setStatus current .blocked).queued_setWaitqueue r (state.waitqueue r ++ [current]) process
    have old : (state.setStatus current .blocked).waitqueue r = state.waitqueue r := rfl
    rw [State.queued_setStatus, List.count_append, List.count_singleton, old] at changed
    simp only [beq_iff_eq] at changed
    simp only [Option.some.injEq] at once
    rw [if_neg (Option.some_ne_none _).symm]
    omega
  · intro other process waiting
    rw [waitqueue] at waiting
    have blocked := congrArg Process.status (state.setStatus_process current .blocked process)
    apply Eq.trans blocked
    dsimp only
    by_cases same : process = current
    · exact if_pos same
    · rw [if_neg same]
      by_cases here : other = r
      · subst other
        rw [Function.update_self] at waiting
        rcases List.mem_append.mp waiting with earlier | last
        · exact linked.waiting r process earlier
        · exact absurd (List.mem_singleton.mp last) same
      · rw [Function.update_of_ne here] at waiting
        exact linked.waiting other process waiting
  · rw [waitqueue, Function.update_self]
    exact List.mem_append_right _ List.mem_cons_self

private theorem Linked.refuse {r : Fin nrResources} (linked : Linked (some current) state)
    (answer : Acquired current r state false after) :
    Linked none after ∧ current ∈ after.waitqueue r ∧ after.current = state.current := by
  cases answer with
  | refused prio owner owned =>
      have waits := linked.wait r
      exact ⟨⟨waits.1.once, waits.1.waiting⟩, waits.2, rfl⟩

/-- The effect of a release on the links. -/
theorem Linked.release {r : Fin nrResources} (linked : Linked (some current) state)
    (released : Released r state after) : Linked (some current) after := by
  have freed : Linked (some current) (state.setOwner r none) := by
    have waitqueue := state.waitqueue_setOwner r none
    refine linked.congr ?_ waitqueue fun _ _ => rfl
    intro process
    unfold State.queued
    rw [waitqueue]
    rfl
  cases released with
  | unwanted prio empty => exact ⟨freed.once, freed.waiting⟩
  | woken prio waiter member =>
      rw [Released.woken_eq]
      have waits : waiter ∈ (state.setOwner r none).waitqueue r := by
        rw [State.waitqueue_setOwner]
        exact member
      have woken : Linked (some current) ((state.setOwner r none).wake r waiter) := by
        constructor
        · intro process
          rw [State.queued_wake waits]
          exact freed.once process
        · intro other process waiting
          have earlier := State.mem_of_mem_wake waiting
          rw [State.wake_process]
          dsimp only
          rw [if_neg, freed.waiting other process earlier]
          rintro rfl
          have once := freed.once process
          exact State.wake_not_waiting (by omega) waits other waiting
      exact ⟨woken.once, woken.waiting⟩

end Links

section Steps

variable {sched : Scheduler} {before after : Configuration}

/-- A step keeps the links, whatever the script is. -/
theorem Tied.step (lawful : Lawful sched) (guarded : Guarded sched) (tied : Tied before)
    (step : Step sched before after) : Tied after := by
  cases step with
  | begin state =>
      cases tied with
      | closing linked attending => exact .forking linked attending linked.forkqueue_nodup fun _ member => member
  | visit process todo state =>
      cases tied with
      | forking linked attending nodup members =>
          rcases List.nodup_cons.mp nodup with ⟨new, rest⟩
          have remaining : forall other, other ∈ todo -> other ∈ (forkProcess state process).forkqueue :=
            fun other later => forkProcess_mem (fun same => new (same ▸ later))
              (members other (List.mem_cons_of_mem _ later))
          rw [forkProcess_eq] at remaining ⊢
          split
          case isTrue arrived =>
            rw [if_pos arrived] at remaining
            have forked := linked.fork attending (members process List.mem_cons_self)
            exact .forking ⟨forked.1.once, forked.1.waiting⟩ forked.2 rest remaining
          case isFalse early =>
            exact .forking linked attending rest fun other later => members other (List.mem_cons_of_mem _ later)
  | @leave state scheduled updated chosen retired empty =>
      cases tied with
      | forking linked attending =>
          have law := lawful.schedule state
          rw [chosen] at law
          exact .of_idle (linked.dispatch attending law retired) (retire_kept retired).current
  | @idle state scheduled updated chosen retired waits =>
      cases tied with
      | forking linked attending =>
          have law := lawful.schedule state
          rw [chosen] at law
          have idle := linked.dispatch attending law retired
          exact .of_idle ⟨idle.once, idle.waiting⟩ (retire_kept retired).current
  | @choose state scheduled updated current chosen retired unlinked =>
      cases tied with
      | forking linked attending =>
          have law := lawful.schedule state
          rw [chosen] at law
          have dispatched := linked.dispatch attending law retired
          refine .acquiring (dispatched.modify _) (retire_kept retired).current ?_
          rw [State.setStatus_process]
          exact if_pos rfl
  | pass notDue =>
      cases tied with
      | acquiring linked isCurrent running => exact .acquiring linked isCurrent running
  | @grant state granted current kept todo rs isDue asked =>
      cases tied with
      | acquiring linked isCurrent running =>
          rcases guarded.acquired lawful isCurrent asked with ⟨r, _, answer⟩
          have taken := (linked.grant answer).modify fun process => process.take kept todo rs
          refine .acquiring ⟨taken.once, taken.waiting⟩ ?_ ?_
          · cases answer with
            | granted prio free => exact isCurrent
          · rw [State.take_process_self]
            cases answer with
            | granted prio free => exact running
  | refuse isDue asked =>
      cases tied with
      | acquiring linked isCurrent running =>
          rcases guarded.acquired lawful isCurrent asked with ⟨r, _, answer⟩
          rcases linked.refuse answer with ⟨blocked, waits, same⟩
          exact .of_waiting ⟨blocked.once, blocked.waiting⟩ (same.trans isCurrent) ⟨r, waits⟩
  | grow current kept state =>
      cases tied with
      | acquiring linked isCurrent running =>
          have grown := linked.modify Process.grow
          refine .releasing ⟨grown.once, grown.waiting⟩ isCurrent ?_
          rw [State.grow_process_self]
          exact running
  | @keep state current kept todo rs remains =>
      cases tied with
      | releasing linked isCurrent running =>
          refine .releasing (linked.modify _) isCurrent ?_
          rw [State.hold_process_self]
          exact running
  | @release state released current kept todo rs expires asked =>
      cases tied with
      | releasing linked isCurrent running =>
          have counted := linked.modify fun process => process.hold (kept ++ rs.countDown :: todo)
          have sameCurrent : (state.hold current (kept ++ rs.countDown :: todo)).current = some current := isCurrent
          rcases guarded.released lawful sameCurrent counted.waiting asked with ⟨r, _, effect⟩
          have freed := (counted.release effect).modify fun process => process.hold (kept ++ todo)
          refine .releasing ⟨freed.once, freed.waiting⟩ (effect.current.trans isCurrent) ?_
          have notWaiting : current ∉ (state.hold current (kept ++ rs.countDown :: todo)).waitqueue r :=
            fun waits => counted.of_queued (State.queued_of_waiting waits) rfl
          rcases effect.process current with ⟨status, prio, changed, unchanged⟩
          have still := unchanged notWaiting
          rw [State.hold_process_self] at still
          have printed : (released.print (.released current rs.resourceId)).process current =
            released.process current := rfl
          rw [State.hold_process_self, printed, changed]
          exact still.trans running
  | finish current kept state =>
      cases tied with
      | releasing linked isCurrent running =>
          have both := linked.running isCurrent running
          exact .closing ⟨both.1.once, both.1.waiting⟩ both.2

theorem Tied.initial (script : Script) : Tied (.closing false, script.initial) := by
  refine .of_idle ⟨?_, fun _ _ never => absurd never List.not_mem_nil⟩ rfl
  intro process
  rw [script.queued_initial, if_neg (Option.some_ne_none _).symm]
  exact List.nodup_iff_count_le_one.mp List.nodup_range process

theorem Reaches.tied (lawful : Lawful sched) (guarded : Guarded sched) {script : Script} {reached : Configuration}
    (reaches : Reaches sched script reached) : Tied reached := by
  induction reaches with
  | refl => exact Tied.initial script
  | tail _ step inductionHypothesis => exact inductionHypothesis.step lawful guarded step

/-- As long as the current process is not blocked, it is in no list. -/
theorem Tied.current_unlinked {phase : Phase} {state : State} {current : Nat} (tied : Tied (phase, state))
    (isCurrent : state.current = some current) (notBlocked : (state.process current).status ≠ .blocked) :
    state.queued current = 0 := by
  have detached : forall {detached : Option Nat}, Linked detached state -> detached = some current ->
      state.queued current = 0 := by
    intro detached linked same
    have once := linked.once current
    rw [if_pos same] at once
    omega
  cases tied with
  | closing linked attending => exact detached linked (attending.running linked isCurrent notBlocked)
  | forking linked attending nodup members => exact detached linked (attending.running linked isCurrent notBlocked)
  | acquiring linked isCurrent' running => exact detached linked (isCurrent'.symm.trans isCurrent)
  | releasing linked isCurrent' running => exact detached linked (isCurrent'.symm.trans isCurrent)

end Steps

end Sched
end OsPa
