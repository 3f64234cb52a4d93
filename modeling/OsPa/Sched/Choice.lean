import OsPa.Sched.Links

namespace OsPa
namespace Sched

open Library

/-!
# Whom the schedulers choose

The selection loops of `pa2.c` start with the first process of a queue in hand
and replace it only by a process that is strictly better.  What they end with is
therefore the earliest of the best, and it is the only process that leaves the
queue.

The schedulers that put the current process back into the queue put it at the
end.  In a tie it gives way to everybody who has been there before.
-/

section Queues

variable {Key : Type} [LinearOrder Key] {state : State} {replaces : State -> Nat -> Nat -> Bool}

/-- A process is chosen from the ready queue. -/
theorem pickNext_takes (key : Nat -> Key)
    (compares : forall pos next, replaces state pos next = true ↔ key next < key pos) :
    Exists fun next => Exists fun rest => TakesEarliest key state.readyqueue next rest ∧
      pickNext (fun state => scan (replaces state)) state = (next, { state with readyqueue := rest }) := by
  unfold pickNext
  dsimp only
  cases found : scan (replaces state) state.readyqueue with
  | none =>
      have empty := scan_eq_none.mp found
      refine ⟨none, state.readyqueue, ?_, rfl⟩
      rw [empty]
      exact .nothing
  | some next => exact ⟨some next, _, (scan_earliestMax key compares found).takes, rfl⟩

/-- A process is chosen from the ready queue with the current process at its end. -/
theorem preemptive_takes (key : Nat -> Key)
    (compares : forall pos next, replaces state.requeue pos next = true ↔ key next < key pos) :
    Exists fun next => Exists fun rest =>
      TakesEarliest key (state.readyqueue ++ state.runnable.toList) next rest ∧
        preemptive (fun state => scan (replaces state)) state = (next, { state with readyqueue := rest }) := by
  rcases pickNext_takes key compares with ⟨next, rest, takes, picked⟩
  rw [State.requeue_readyqueue] at takes
  refine ⟨next, rest, takes, ?_⟩
  unfold preemptive
  rw [picked, State.requeue_eq]

end Queues

section Choices

variable (state : State)

/-- `sjf_schedule`, when nobody runs on. -/
private theorem sjfSchedule_takes (idle : state.runnable = none) : Exists fun next => Exists fun rest =>
    TakesEarliest (fun process => OrderDual.toDual (state.process process).lifespan) state.readyqueue next rest ∧
      sjfSchedule state = (next, { state with readyqueue := rest }) := by
  unfold sjfSchedule nonpreemptive
  rw [idle]
  exact pickNext_takes _ fun pos next => decide_eq_true_iff.trans OrderDual.toDual_lt_toDual.symm

theorem stcfSchedule_takes : Exists fun next => Exists fun rest =>
    TakesEarliest (fun process => OrderDual.toDual (state.process process).remaining)
      (state.readyqueue ++ state.runnable.toList) next rest ∧
        stcfSchedule state = (next, { state with readyqueue := rest }) := by
  apply preemptive_takes
  intro pos next
  rw [State.requeue_process]
  exact decide_eq_true_iff.trans OrderDual.toDual_lt_toDual.symm

private theorem prioSchedule_takes : Exists fun next => Exists fun rest =>
    TakesEarliest (fun process => (state.process process).prio) (state.readyqueue ++ state.runnable.toList) next rest ∧
      prioSchedule state = (next, { state with readyqueue := rest }) := by
  apply preemptive_takes
  intro pos next
  rw [State.requeue_process]
  exact decide_eq_true_iff

/-- As long as a process has not become older than its lifespan, nothing wraps. -/
private theorem Process.remaining_eq {process : Process} (young : process.age ≤ process.lifespan) :
    process.remaining = process.lifespan - process.age := if_pos young

end Choices

/-! ## Waking up -/

/-- A resource without an owner wakes up the first of its waiters that have the
largest priority, and nothing else changes. -/
def Wakes (unowned : State) (r : Fin nrResources) (result : Except Fault State) : Prop :=
  Exists fun next => Exists fun rest =>
    TakesEarliest (fun process => (unowned.process process).prio) (unowned.waitqueue r) next rest ∧
      result = .ok (match next with
        | none => unowned
        | some waiter => ((unowned.setWaitqueue r rest).setStatus waiter .ready).addReady waiter)

private theorem releaseWith_wakes {restore : Nat -> State -> State} {state unowned : State} {r : Fin nrResources}
    {current : Nat} (isCurrent : state.current = some current) (owned : state.owner r = some current)
    (restored : unowned = (restore current state).setOwner r none)
    (blocked : forall waiter, waiter ∈ unowned.waitqueue r -> (unowned.process waiter).status = .blocked) :
    Wakes unowned r (releaseWith restore highestPrio r.val state) := by
  have index : resourceIndex r.val = some r := resourceIndex_eq_some.mpr rfl
  have owns : (state.resources r).owner = some current := owned
  unfold releaseWith
  rw [index, isCurrent]
  dsimp only
  rw [if_pos owns, ← restored]
  unfold Wakes
  cases queue : unowned.waitqueue r with
  | nil =>
      have empty : (unowned.resources r).waitqueue = [] := queue
      rw [empty]
      exact ⟨none, [], .nothing, rfl⟩
  | cons first rest =>
      have waiters : (unowned.resources r).waitqueue = first :: rest := queue
      rw [waiters]
      dsimp only
      rw [if_pos (blocked first (queue ▸ List.mem_cons_self))]
      cases found : highestPrio unowned (first :: rest) with
      | none => exact absurd (scan_eq_none.mp found) (List.cons_ne_nil _ _)
      | some waiter =>
          have earliest := scan_earliestMax (fun process => (unowned.process process).prio)
            (fun pos next => decide_eq_true_iff) found
          exact ⟨some waiter, _, earliest.takes, rfl⟩

/-- Each selection takes the earliest of the best out of its queue.  For a release,
`unowned` is the state in which the loop looks at the waiters. -/
theorem selections_take_earliest (state : State) :
    (state.runnable = none -> Exists fun next => Exists fun rest =>
      TakesEarliest (fun process => OrderDual.toDual (state.process process).lifespan) state.readyqueue next rest ∧
        sjfSchedule state = (next, { state with readyqueue := rest })) ∧
    (Exists fun next => Exists fun rest =>
      TakesEarliest (fun process => OrderDual.toDual (state.process process).remaining)
        (state.readyqueue ++ state.runnable.toList) next rest ∧
          stcfSchedule state = (next, { state with readyqueue := rest })) ∧
    (forall process, (state.process process).age ≤ (state.process process).lifespan ->
      (state.process process).remaining = (state.process process).lifespan - (state.process process).age) ∧
    (Exists fun next => Exists fun rest =>
      TakesEarliest (fun process => (state.process process).prio) (state.readyqueue ++ state.runnable.toList)
        next rest ∧ prioSchedule state = (next, { state with readyqueue := rest })) ∧
    forall r current, state.current = some current -> state.owner r = some current ->
      (forall waiter, waiter ∈ state.waitqueue r -> (state.process waiter).status = .blocked) ->
        Wakes (state.setOwner r none) r (prioRelease r.val state) ∧
          forall unowned, unowned = (restorePrio current state).setOwner r none ->
            Wakes unowned r (pcpRelease r.val state) ∧ Wakes unowned r (pipRelease r.val state) := by
  refine ⟨sjfSchedule_takes state, stcfSchedule_takes state, fun process => Process.remaining_eq,
    prioSchedule_takes state, ?_⟩
  intro r current isCurrent owned blocked
  have prioBlocked : forall waiter, waiter ∈ (state.setOwner r none).waitqueue r ->
      ((state.setOwner r none).process waiter).status = .blocked := by
    intro waiter waits
    rw [State.waitqueue_setOwner] at waits
    exact blocked waiter waits
  refine ⟨releaseWith_wakes isCurrent owned rfl prioBlocked, ?_⟩
  rintro unowned rfl
  have restoredBlocked : forall waiter, waiter ∈ ((restorePrio current state).setOwner r none).waitqueue r ->
      (((restorePrio current state).setOwner r none).process waiter).status = .blocked := by
    intro waiter waits
    rcases restorePrio_prioOnly current state with ⟨prio, restored⟩
    rw [restored] at waits ⊢
    rw [State.waitqueue_setOwner] at waits
    exact blocked waiter waits
  exact ⟨releaseWith_wakes isCurrent owned rfl restoredBlocked, releaseWith_wakes isCurrent owned rfl restoredBlocked⟩

/-- Two processes of the same priority wait for the first one. -/
def contended : Script :=
  [⟨1, 4, 1, 0, [⟨1, 0, 4⟩]⟩, ⟨2, 2, 7, 1, [⟨1, 0, 1⟩]⟩, ⟨3, 2, 7, 2, [⟨1, 0, 1⟩]⟩]

theorem selections_take_earliest_contended : Exists fun state => Simulates prioScheduler contended 4 false state ∧
    state.waitqueue 1 = [1, 2] ∧ Wakes (state.setOwner 1 none) 1 (prioRelease 1 state) := by
  have simulates : Exists fun state => Simulates prioScheduler contended 4 false state ∧ state.waitqueue 1 = [1, 2] ∧
      state.current = some 0 ∧ state.owner 1 = some 0 ∧
        forall waiter, waiter ∈ state.waitqueue 1 -> (state.process waiter).status = .blocked :=
    ⟨_, ⟨_, rfl, rfl⟩, rfl, rfl, rfl, by decide⟩
  rcases simulates with ⟨state, simulates, queue, isCurrent, owned, blocked⟩
  exact ⟨state, simulates, queue, ((selections_take_earliest state).2.2.2.2 1 0 isCurrent owned blocked).1⟩

/-! ## Ties -/

/-- Nobody in the ready queue has less to do than the current process, but somebody
has as much to do. -/
def State.TiedWith (state : State) (current : Nat) : Prop :=
  (forall process, process ∈ state.readyqueue ->
    (state.process current).remaining ≤ (state.process process).remaining) ∧
  Exists fun process => process ∈ state.readyqueue ∧
    (state.process process).remaining = (state.process current).remaining

instance (state : State) (current : Nat) : Decidable (state.TiedWith current) :=
  inferInstanceAs (Decidable ((forall process, process ∈ state.readyqueue ->
    (state.process current).remaining ≤ (state.process process).remaining) ∧
      Exists fun process => process ∈ state.readyqueue ∧
        (state.process process).remaining = (state.process current).remaining))

section Stcf

variable {script : Script} {phase : Phase} {state : State} {current : Nat}

/-- The current process is chosen again when it has less to do than everybody else. -/
private theorem stcfSchedule_keeps_iff (runnable : state.runnable = some current)
    (unlinked : current ∉ state.readyqueue) :
    (stcfSchedule state).1 = some current ↔ forall process, process ∈ state.readyqueue ->
      (state.process current).remaining < (state.process process).remaining := by
  rcases stcfSchedule_takes state with ⟨next, rest, takes, chosen⟩
  rw [runnable] at takes
  rw [chosen]
  exact takes.last_iff unlinked

private theorem State.runnable_of_young (isCurrent : state.current = some current)
    (notBlocked : (state.process current).status ≠ .blocked)
    (young : (state.process current).age < (state.process current).lifespan) : state.runnable = some current := by
  unfold State.runnable
  rw [isCurrent, Option.filter_some, if_pos]
  rw [Bool.and_eq_true, decide_eq_true_iff, decide_eq_true_iff]
  exact ⟨notBlocked, young⟩

/-- A process that can run on is chosen again when nobody has less to do, except in a
tie: then it gives way. -/
theorem stcf_keeps_current_iff (reaches : Reaches stcfScheduler script (phase, state))
    (isCurrent : state.current = some current) (notBlocked : (state.process current).status ≠ .blocked)
    (young : (state.process current).age < (state.process current).lifespan) :
    ((forall process, process ∈ state.readyqueue ->
        ¬ (state.process process).remaining < (state.process current).remaining) ->
      (stcfScheduler.schedule state).1 = some current) ↔ ¬ state.TiedWith current := by
  have tied := reaches.tied SchedulerName.stcf.lawful SchedulerName.stcf.guarded
  have unlinked : current ∉ state.readyqueue := by
    intro ready
    have queued := State.queued_of_ready ready
    rw [tied.current_unlinked isCurrent notBlocked] at queued
    exact Nat.lt_irrefl 0 queued
  have keeps := stcfSchedule_keeps_iff (State.runnable_of_young isCurrent notBlocked young) unlinked
  constructor
  · rintro kept ⟨least, process, ready, same⟩
    have chosen := kept fun process ready => Nat.not_lt_of_le (least process ready)
    exact Nat.ne_of_gt (keeps.mp chosen process ready) same
  · intro untied least
    apply keeps.mpr
    intro process ready
    apply Nat.lt_of_le_of_ne (Nat.le_of_not_lt (least process ready))
    intro same
    exact untied ⟨fun process ready => Nat.le_of_not_lt (least process ready), process, ready, same.symm⟩

/-- When the second process arrives, the first one has as much to do. -/
def arriving : Script := [⟨1, 4, 0, 0, []⟩, ⟨2, 2, 0, 2, []⟩]

/-- The first process is not blocked and has two ticks left, nobody has less, and it is
not chosen again. -/
theorem stcf_preempts_in_tie : Exists fun state => Reaches stcfScheduler arriving (.forking [], state) ∧
    state.current = some 0 ∧ (state.process 0).status ≠ .blocked ∧ (state.process 0).age < (state.process 0).lifespan ∧
      (forall process, process ∈ state.readyqueue ->
        ¬ (state.process process).remaining < (state.process 0).remaining) ∧
      (stcfScheduler.schedule state).1 = some 1 := by
  have simulates : Simulates stcfScheduler arriving 2 false _ := ⟨_, rfl, rfl⟩
  exact ⟨_, simulates.scheduling, rfl, by decide, by decide, by decide, rfl⟩

/-- It is chosen again when the second process has more to do. -/
theorem stcf_keeps_current_iff_longer : Exists fun state =>
    Reaches stcfScheduler [⟨1, 4, 0, 0, []⟩, ⟨2, 3, 0, 2, []⟩] (.forking [], state) ∧ state.readyqueue = [1] ∧
      (stcfScheduler.schedule state).1 = some 0 := by
  have simulates : Simulates stcfScheduler [⟨1, 4, 0, 0, []⟩, ⟨2, 3, 0, 2, []⟩] 2 false _ := ⟨_, rfl, rfl⟩
  have kept := stcf_keeps_current_iff simulates.scheduling rfl (by decide) (by decide)
  exact ⟨_, simulates.scheduling, rfl, kept.mpr (by decide) (by decide)⟩

end Stcf

end Sched
end OsPa
