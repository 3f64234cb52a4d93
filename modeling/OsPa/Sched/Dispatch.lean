import OsPa.Sched.Invariant

namespace OsPa
namespace Sched

open Library

/-!
# From the beginning of a round to the choice of a process

First the processes whose time has come are forked.  Then the scheduler chooses
the next process before the status of the previous one is brought up to date.
The proofs take these two steps in the other order: the previous process is
put where it belongs, which is `State.settle`, and the next one is taken out of
the ready queue after that.  `retire_eq` says that the outcome is the same.
-/

@[simp] theorem State.setStatus_process (state : State) (process : Nat) (status : ProcessStatus) (other : Nat) :
    (state.setStatus process status).process other =
      { state.process other with
        status := if other = process then status else (state.process other).status } := by
  by_cases same : other = process
  · subst other
    rw [if_pos rfl]
    exact state.process_modify_self process _
  · rw [if_neg same]
    exact state.process_modify_of_ne same _

@[simp] theorem State.queued_setStatus (state : State) (process : Nat) (status : ProcessStatus) (other : Nat) :
    (state.setStatus process status).queued other = state.queued other := rfl

theorem State.queued_addReady (state : State) (process other : Nat) :
    (state.addReady process).queued other = state.queued other + if other = process then 1 else 0 := by
  unfold State.queued State.addReady
  dsimp only
  rw [List.count_append, List.count_singleton]
  have waits : copies ({ state with readyqueue := state.readyqueue ++ [process] } : State).waitqueue other =
      copies state.waitqueue other := rfl
  by_cases same : other = process
  · subst other
    rw [if_pos rfl, beq_self_eq_true, if_pos rfl]
    omega
  · rw [if_neg same, if_neg (fun equal => same (beq_iff_eq.mp equal).symm)]
    omega

/-- One process changes its status and its place.  Everybody else stays where
it is. -/
theorem Placed.move {script : Script} {detached detached' : Option Nat} {before after : State} {process : Nat}
    {status : ProcessStatus} (placed : Placed script detached before)
    (inside : process < script.length)
    (fields : forall other, after.process other =
      { before.process other with
        status := if other = process then status else (before.process other).status })
    (stays : forall other, other ≠ process ->
      after.queued other + (if detached' = some other then 1 else 0) =
        before.queued other + if detached = some other then 1 else 0)
    (arrives : after.queued process + (if detached' = some process then 1 else 0) +
      (if status = .exit then 1 else 0) = 1)
    (forking : forall other, other ∈ after.forkqueue -> other ∈ before.forkqueue)
    (ready : forall other, other ∈ after.readyqueue -> other ≠ process ∧ other ∈ before.readyqueue ∨
      other = process ∧ status = .ready ∧ (before.process process).age < (before.process process).lifespan)
    (waiting : forall r other, other ∈ after.waitqueue r -> other ≠ process ∧ other ∈ before.waitqueue r ∨
      other = process ∧ status = .blocked ∧ (before.process process).age < (before.process process).lifespan ∧
        (before.process process).firstDue = some r.val)
    (exited : status = .exit -> (before.process process).age = (before.process process).lifespan) :
    Placed script detached' after := by
  constructor
  case lifespan =>
    intro other
    rw [fields]
    exact placed.lifespan other
  case once =>
    intro other
    have once := placed.once other
    rw [fields]
    dsimp only
    by_cases same : other = process
    · subst other
      rw [if_pos rfl, arrives, if_pos inside]
    · rw [if_neg same, stays other same]
      exact once
  case forking =>
    intro other member
    rw [fields]
    exact placed.forking other (forking other member)
  case ready =>
    intro other member
    rw [fields]
    rcases ready other member with ⟨different, earlier⟩ | ⟨rfl, isReady, young⟩
    · rw [if_neg different]
      exact placed.ready other earlier
    · exact ⟨(if_pos rfl).trans isReady, young⟩
  case waiting =>
    intro r other member
    rw [fields]
    rcases waiting r other member with ⟨different, earlier⟩ | ⟨rfl, isBlocked, young, isDue⟩
    · rw [if_neg different]
      exact placed.waiting r other earlier
    · exact ⟨(if_pos rfl).trans isBlocked, young, isDue⟩
  case exited =>
    intro other gone
    rw [fields] at gone ⊢
    by_cases same : other = process
    · subst other
      exact exited ((if_pos rfl).symm.trans gone)
    · exact placed.exited other ((if_neg same).symm.trans gone)

/-! ## Fork -/

/-- A process leaves the fork queue. -/
def State.fork (state : State) (process : Nat) : State :=
  (({ state with forkqueue := state.forkqueue.erase process } : State).addReady process).setStatus process .ready

theorem forkProcess_eq (state : State) (process : Nat) :
    forkProcess state process =
      if (state.process process).startsAt ≤ state.ticks then (state.fork process).print (.forked process)
      else state := rfl

@[simp] theorem State.fork_process (state : State) (process other : Nat) :
    (state.fork process).process other =
      { state.process other with
        status := if other = process then .ready else (state.process other).status } :=
  State.setStatus_process _ process .ready other

theorem State.fork_process_of_ne {state : State} {process other : Nat} (different : other ≠ process) :
    (state.fork process).process other = state.process other := by
  rw [State.fork_process, if_neg different]

theorem State.queued_fork {state : State} {process : Nat} (member : process ∈ state.forkqueue) (other : Nat) :
    (state.fork process).queued other = state.queued other := by
  have moved := ({ state with forkqueue := state.forkqueue.erase process } : State).queued_addReady process other
  have erased := (List.perm_cons_erase member).count_eq other
  rw [List.count_cons] at erased
  have same : (state.fork process).queued other =
    (({ state with forkqueue := state.forkqueue.erase process } : State).addReady process).queued other := rfl
  rw [same, moved]
  have waits : copies ({ state with forkqueue := state.forkqueue.erase process } : State).waitqueue other =
    copies state.waitqueue other := rfl
  unfold State.queued
  by_cases itself : other = process
  · subst other
    rw [beq_self_eq_true, if_pos rfl] at erased
    rw [if_pos rfl]
    dsimp only
    omega
  · rw [if_neg (fun equal => itself (beq_iff_eq.mp equal).symm)] at erased
    rw [if_neg itself]
    dsimp only
    omega

section Fork

variable {script : Script} {detached : Option Nat} {state : State} {process : Nat}

private theorem Placed.fork (placed : Placed script detached state) (member : process ∈ state.forkqueue) :
    Placed script detached (state.fork process) := by
  have queued := State.queued_of_forking member
  have found := placed.of_queued queued
  apply placed.move (placed.lt_length queued) (state.fork_process process)
  case stays =>
    intro other _
    rw [State.queued_fork member]
  case arrives =>
    rw [State.queued_fork member, found.2.2, if_neg found.1, if_neg ProcessStatus.noConfusion]
  case forking => exact fun _ still => List.mem_of_mem_erase still
  case ready =>
    intro other ready
    rcases List.mem_append.mp ready with earlier | new
    · refine Or.inl ⟨?_, earlier⟩
      rintro rfl
      exact placed.not_ready member earlier
    · exact Or.inr ⟨List.mem_singleton.mp new, rfl, placed.forking process member⟩
  case waiting =>
    intro r other waits
    refine Or.inl ⟨?_, waits⟩
    rintro rfl
    exact placed.not_waiting member r waits
  case exited => exact fun never => ProcessStatus.noConfusion never

private theorem Invariant.fork (invariant : Invariant script detached none state) (member : process ∈ state.forkqueue) :
    Invariant script detached none (state.fork process) := by
  refine ⟨invariant.placed.fork member, ?_, ?_, ?_⟩
  · intro r other
    rw [State.fork_process]
    exact invariant.owned r other
  · intro other different
    rw [State.fork_process]
    exact invariant.punctual other different
  · refine invariant.attended.mono (fun _ owned => owned) (fun _ _ waits => waits) ?_
    rintro other r (⟨ready, retries⟩ | ⟨_, never⟩)
    · refine Or.inl ⟨List.mem_append_left _ ready, ?_⟩
      rw [State.fork_process]
      exact retries
    · cases never

/-- The current process is not in the fork queue. -/
theorem Between.current_ne (between : Between script state) (member : process ∈ state.forkqueue) {current : Nat}
    (isCurrent : state.current = some current) : current ≠ process := by
  intro same
  subst current
  rcases between.current process isCurrent with runs | ⟨r, waits⟩
  · have detached := State.running_eq_some.mpr ⟨isCurrent, runs⟩
    exact (between.invariant.placed.of_queued (State.queued_of_forking member)).1 detached
  · exact between.invariant.placed.not_waiting member r waits

theorem Between.fork (between : Between script state) (member : process ∈ state.forkqueue) :
    Between script (state.fork process) := by
  have others : forall current, state.current = some current ->
      (state.fork process).process current = state.process current := by
    intro current isCurrent
    exact State.fork_process_of_ne (between.current_ne member isCurrent)
  have running : (state.fork process).running = state.running := by
    ext current
    rw [State.running_eq_some, State.running_eq_some]
    constructor
    · rintro ⟨isCurrent, runs⟩
      exact ⟨isCurrent, others current isCurrent ▸ runs⟩
    · rintro ⟨isCurrent, runs⟩
      exact ⟨isCurrent, (others current isCurrent).symm ▸ runs⟩
  constructor
  case invariant =>
    rw [running]
    exact between.invariant.fork member
  case current =>
    intro current isCurrent
    rw [others current isCurrent]
    exact between.current current isCurrent
  case running =>
    intro current runs
    rw [others current (State.running_eq_some.mp runs).1]
    exact between.running current (running ▸ runs)

theorem Between.besides_stderr (between : Between script state) (stderr : List (Nat × Event)) :
    Between script { state with stderr := stderr } :=
  ⟨between.invariant.besides, between.current, between.running⟩

theorem forkProcess_mem {other : Nat} (different : other ≠ process) (member : other ∈ state.forkqueue) :
    other ∈ (forkProcess state process).forkqueue := by
  rw [forkProcess_eq]
  split
  · exact (List.mem_erase_of_ne different).mpr member
  · exact member

theorem Placed.forkqueue_nodup (placed : Placed script detached state) : state.forkqueue.Nodup := by
  apply List.nodup_iff_count_le_one.mpr
  intro other
  by_cases member : other ∈ state.forkqueue
  · have once := (placed.of_queued (State.queued_of_forking member)).2.2
    unfold State.queued at once
    omega
  · rw [List.count_eq_zero.mpr member]
    exact Nat.zero_le 1

/-- The invariant rule for the loop over the fork queue, which has a list of its own
of the entries still to visit. -/
theorem forkOnSchedule_rule (invariant : State -> Prop)
    (step : forall state process, process ∈ state.forkqueue -> invariant state ->
      invariant ((state.fork process).print (.forked process)))
    (nodup : state.forkqueue.Nodup) (start : invariant state) : invariant (forkOnSchedule state) := by
  have walk : forall (todo : List Nat) (state : State), invariant state -> todo.Nodup ->
      (forall other, other ∈ todo -> other ∈ state.forkqueue) -> invariant (todo.foldl forkProcess state) := by
    intro todo
    induction todo with
    | nil => exact fun _ holds _ _ => holds
    | cons process todo inductionHypothesis =>
        intro state holds nodup members
        rw [List.foldl_cons]
        rcases List.nodup_cons.mp nodup with ⟨new, rest⟩
        apply inductionHypothesis _ _ rest
        · intro other later
          apply forkProcess_mem
          · intro same
            exact new (same ▸ later)
          · exact members other (List.mem_cons_of_mem _ later)
        · rw [forkProcess_eq]
          split
          · exact step state process (members process List.mem_cons_self) holds
          · exact holds
  exact walk _ state start nodup fun _ member => member

theorem forkOnSchedule_between (between : Between script state) : Between script (forkOnSchedule state) := by
  apply forkOnSchedule_rule (Between script) _ between.invariant.placed.forkqueue_nodup between
  exact fun _ _ member between => (between.fork member).besides_stderr _

end Fork

/-! ## The previous process -/

/-- The process that ran in the previous tick goes to the end of the ready
queue, or exits. -/
def State.settle (state : State) : State :=
  match state.running with
  | none => state
  | some process =>
      if (state.process process).age < (state.process process).lifespan then
        (state.setStatus process .ready).addReady process
      else state.setStatus process .exit

@[simp] theorem State.settle_forkqueue (state : State) : state.settle.forkqueue = state.forkqueue := by
  unfold State.settle
  split
  · rfl
  · split <;> rfl

@[simp] theorem State.settle_resources (state : State) : state.settle.resources = state.resources := by
  unfold State.settle
  split
  · rfl
  · split <;> rfl

@[simp] theorem State.settle_owner (state : State) : state.settle.owner = state.owner := by
  unfold State.owner
  rw [State.settle_resources]

@[simp] theorem State.settle_waitqueue (state : State) : state.settle.waitqueue = state.waitqueue := by
  unfold State.waitqueue
  rw [State.settle_resources]

/-- Only the status of the process that ran changes. -/
theorem State.settle_process (state : State) (process : Nat) :
    Exists fun status => state.settle.process process = { state.process process with status := status } ∧
      (state.running ≠ some process -> status = (state.process process).status) := by
  unfold State.settle
  split
  case h_1 idle => exact ⟨_, rfl, fun _ => rfl⟩
  case h_2 current runs =>
    have other : state.running ≠ some process -> process ≠ current :=
      fun different same => different (same ▸ runs)
    split
    · exact ⟨_, state.setStatus_process current .ready process, fun different => if_neg (other different)⟩
    · exact ⟨_, state.setStatus_process current .exit process, fun different => if_neg (other different)⟩

/-- What is printed when the process that ran in the previous tick exits. -/
def State.farewell (state : State) : List Event :=
  match state.running with
  | none => []
  | some process =>
      if (state.process process).age < (state.process process).lifespan then [] else [.exited process]

section Settle

variable {script : Script} {state : State} {process : Nat}

private theorem Placed.requeue (placed : Placed script (some process) state)
    (young : (state.process process).age < (state.process process).lifespan) :
    Placed script none ((state.setStatus process .ready).addReady process) := by
  have detached := placed.of_detached
  apply placed.move detached.1
  case fields => exact state.setStatus_process process .ready
  case stays =>
    intro other different
    rw [State.queued_addReady, State.queued_setStatus, if_neg different,
      if_neg (fun same => different (Option.some.inj same).symm), if_neg (Option.some_ne_none _).symm]
  case arrives =>
    rw [State.queued_addReady, State.queued_setStatus, detached.2.1, if_pos rfl,
      if_neg (Option.some_ne_none _).symm, if_neg ProcessStatus.noConfusion]
  case forking => exact fun _ member => member
  case ready =>
    intro other ready
    rcases List.mem_append.mp ready with earlier | new
    · exact Or.inl ⟨placed.ne_of_queued (State.queued_of_ready earlier), earlier⟩
    · exact Or.inr ⟨List.mem_singleton.mp new, rfl, young⟩
  case waiting =>
    intro r other waits
    have earlier : other ∈ state.waitqueue r := waits
    exact Or.inl ⟨placed.ne_of_queued (State.queued_of_waiting earlier), earlier⟩
  case exited => exact fun never => ProcessStatus.noConfusion never

private theorem Placed.exit (placed : Placed script (some process) state)
    (completed : (state.process process).age = (state.process process).lifespan) :
    Placed script none (state.setStatus process .exit) := by
  have detached := placed.of_detached
  apply placed.move detached.1 (state.setStatus_process process .exit)
  case stays =>
    intro other different
    rw [State.queued_setStatus, if_neg (fun same => different (Option.some.inj same).symm),
      if_neg (Option.some_ne_none _).symm]
  case arrives =>
    rw [State.queued_setStatus, detached.2.1, if_neg (Option.some_ne_none _).symm, if_pos rfl]
  case forking => exact fun _ member => member
  case ready => exact fun other member => Or.inl ⟨placed.ne_of_queued (State.queued_of_ready member), member⟩
  case waiting => exact fun r other waits => Or.inl ⟨placed.ne_of_queued (State.queued_of_waiting waits), waits⟩
  case exited => exact fun _ => completed

theorem Between.settle (between : Between script state) : Invariant script none none state.settle := by
  have invariant := between.invariant
  unfold State.settle
  cases runs : state.running with
  | none =>
      rw [runs] at invariant
      exact invariant
  | some process =>
      have facts := between.running process runs
      rw [runs] at invariant
      have punctual : forall other, Punctual (script.description other).acquires (state.process other).age
          (state.process other).resourcesHolding (state.process other).resourcesToAcquire := by
        intro other
        by_cases same : other = process
        · subst other
          exact facts.2
        · exact invariant.punctual other fun equal => same (Option.some.inj equal).symm
      have attended : forall (status : ProcessStatus) (later : State),
          later.process = (state.setStatus process status).process -> later.resources = state.resources ->
          (forall other, other ∈ state.readyqueue -> other ∈ later.readyqueue) ->
            (later.locks none none).Attended := by
        intro status later processes resources ready
        have owner : later.owner = state.owner := by
          unfold State.owner
          rw [resources]
        have waitqueue : later.waitqueue = state.waitqueue := by
          unfold State.waitqueue
          rw [resources]
        refine invariant.attended.mono ?_ ?_ ?_
        · intro r owned
          exact (congrFun owner r).trans_ne owned
        · intro other r waits
          have member : other ∈ later.waitqueue r := waits
          rw [waitqueue] at member
          exact member
        · rintro other r (⟨member, retries⟩ | ⟨_, never⟩)
          · refine Or.inl ⟨ready other member, ?_⟩
            rw [processes, State.setStatus_process]
            exact retries
          · cases never
      dsimp only
      split
      next young =>
          refine ⟨invariant.placed.requeue young, ?_, ?_, ?_⟩
          · intro r other
            rw [State.addReady, State.setStatus_process]
            exact invariant.owned r other
          · intro other _
            rw [State.addReady, State.setStatus_process]
            exact punctual other
          · exact attended .ready _ rfl rfl fun _ member => List.mem_append_left _ member
      next old =>
          refine ⟨invariant.placed.exit (by omega), ?_, ?_, ?_⟩
          · intro r other
            rw [State.setStatus_process]
            exact invariant.owned r other
          · intro other _
            rw [State.setStatus_process]
            exact punctual other
          · exact attended .exit _ rfl rfl fun _ member => member

/-- Who runs can run on unless it has completed. -/
theorem Between.runnable_eq (between : Between script state) :
    state.runnable = state.running.filter fun current =>
      (state.process current).age < (state.process current).lifespan := by
  unfold State.runnable State.running
  cases isCurrent : state.current with
  | none => rfl
  | some current =>
      have awake : (state.process current).status ≠ .blocked ↔ (state.process current).status = .running := by
        rcases between.current current isCurrent with runs | ⟨r, waits⟩
        · exact iff_of_true (fun blocked => ProcessStatus.noConfusion (runs.symm.trans blocked)) runs
        · have blocked := (between.invariant.placed.waiting r current waits).1
          exact iff_of_false (not_not_intro blocked)
            fun runs => ProcessStatus.noConfusion (blocked.symm.trans runs)
      rw [Option.filter_filter, Option.filter_some, Option.filter_some]
      apply if_congr _ rfl rfl
      rw [Bool.and_eq_true, Bool.and_eq_true, decide_eq_true_iff, decide_eq_true_iff, decide_eq_true_iff, awake]

/-- The settled queue is the one that the scheduler chooses from. -/
theorem Between.settle_readyqueue (between : Between script state) :
    state.settle.readyqueue = state.readyqueue ++ state.runnable.toList := by
  rw [between.runnable_eq]
  unfold State.settle
  cases state.running with
  | none => exact (List.append_nil _).symm
  | some current =>
      rw [Option.filter_some]
      dsimp only
      split
      case isTrue young =>
        rw [if_pos (decide_eq_true young)]
        rfl
      case isFalse old =>
        rw [if_neg fun young => old (of_decide_eq_true young)]
        exact (List.append_nil _).symm

/-! ## The next process -/

def State.setReadyqueue (state : State) (readyqueue : List Nat) : State := { state with readyqueue := readyqueue }

private theorem Placed.pick {next : Option Nat} {readyqueue : List Nat} (placed : Placed script none state)
    (moved : (next.toList ++ readyqueue).Perm state.readyqueue) :
    Placed script next (state.setReadyqueue readyqueue) := by
  constructor
  case lifespan => exact placed.lifespan
  case once =>
    intro other
    have once := placed.once other
    have counts := moved.count_eq other
    rw [List.count_append] at counts
    rw [if_neg (Option.some_ne_none _).symm] at once
    have taken : next.toList.count other = if next = some other then 1 else 0 := by
      cases next with
      | none => rfl
      | some next =>
          dsimp only [Option.toList]
          rw [List.count_singleton]
          by_cases same : next = other
          · rw [if_pos (beq_iff_eq.mpr same), if_pos (congrArg some same)]
          · rw [if_neg (fun equal => same (beq_iff_eq.mp equal)), if_neg (fun equal => same (Option.some.inj equal))]
    have queued : (state.setReadyqueue readyqueue).queued other + next.toList.count other = state.queued other := by
      have waits : copies (state.setReadyqueue readyqueue).waitqueue other = copies state.waitqueue other := rfl
      unfold State.queued
      dsimp only [State.setReadyqueue] at waits ⊢
      omega
    have unchanged : (state.setReadyqueue readyqueue).process other = state.process other := rfl
    rw [unchanged]
    omega
  case forking => exact placed.forking
  case ready =>
    intro other member
    exact placed.ready other (moved.subset (List.mem_append_right _ member))
  case waiting => exact placed.waiting
  case exited => exact placed.exited

theorem Invariant.pick {next : Option Nat} {readyqueue : List Nat} (invariant : Invariant script none none state)
    (moved : (next.toList ++ readyqueue).Perm state.readyqueue) :
    Invariant script next (next.bind fun process => (state.process process).firstDue)
      (state.setReadyqueue readyqueue) := by
  refine ⟨invariant.placed.pick moved, invariant.owned, ?_, ?_⟩
  · intro other _
    exact invariant.punctual other (Option.some_ne_none _).symm
  · refine invariant.attended.mono (fun _ owned => owned) (fun _ _ waits => waits) ?_
    rintro other r (⟨member, retries⟩ | ⟨_, never⟩)
    · rcases List.mem_append.mp (moved.symm.subset member) with taken | stays
      · have same := Option.mem_toList.mp taken
        refine Or.inr ⟨same, ?_⟩
        rw [same]
        exact retries
      · exact Or.inl ⟨stays, retries⟩
    · cases never

private theorem State.setStatus_besides (state : State) (prio : Nat -> Nat) (current : Option Nat) (ticks : Nat)
    (stderr : List (Nat × Event)) (process : Nat) (status : ProcessStatus) :
    (state.besides prio current ticks stderr).setStatus process status =
      (state.setStatus process status).besides prio current ticks stderr :=
  congrArg (fun changed : State => { changed with current := current, ticks := ticks, stderr := stderr })
    (state.setStatus_reprioritized prio process status)

@[simp] theorem State.setStatus_setStatus (state : State) (process : Nat) (first second : ProcessStatus) :
    (state.setStatus process first).setStatus process second = state.setStatus process second := by
  simp only [State.setStatus, State.modify, Function.update_self, Function.update_idem]

section Retire

variable {state after : State} {process : Nat}

/-- A process that exits is not linked into a list. -/
theorem exitProcess_ok (exited : exitProcess process state = .ok after) :
    state.queued process = 0 ∧ after = state.print (.exited process) := by
  unfold exitProcess at exited
  split at exited
  case isTrue attached => cases exited
  case isFalse unattached =>
    split at exited
    case isTrue holds => cases exited
    case isFalse =>
      split at exited
      case isTrue pending => cases exited
      case isFalse =>
        cases exited
        rw [State.attached_iff] at unattached
        exact ⟨Nat.eq_zero_of_not_pos unattached, rfl⟩

/-- What happens to the process that ran: nothing, or it is ready, or it exits. -/
theorem retire_cases {prev : Option Nat} (retired : retire prev state = .ok after) :
    after = state ∨
      (Exists fun process => prev = some process ∧ (state.process process).status = .running ∧
        after = state.setStatus process .ready) ∨
      Exists fun process => prev = some process ∧ state.queued process = 0 ∧
        after = (state.setStatus process .exit).print (.exited process) := by
  cases prev with
  | none =>
      cases retired
      exact Or.inl rfl
  | some process =>
      unfold retire at retired
      dsimp only at retired
      by_cases runs : (state.process process).status = .running
      · rw [if_pos runs, State.setStatus_setStatus] at retired
        split at retired
        case isTrue => exact Or.inr (Or.inr ⟨process, rfl, exitProcess_ok retired⟩)
        case isFalse =>
          cases retired
          exact Or.inr (Or.inl ⟨process, rfl, runs, rfl⟩)
      · rw [if_neg runs] at retired
        split at retired
        case isTrue => exact Or.inr (Or.inr ⟨process, rfl, exitProcess_ok retired⟩)
        case isFalse =>
          cases retired
          exact Or.inl rfl

end Retire

private theorem retire_waiting (state : State) (waits : (state.process process).status ≠ .running)
    (young : (state.process process).age ≠ (state.process process).lifespan) :
    retire (some process) state = .ok state := by
  unfold retire
  dsimp only
  rw [if_neg waits, if_neg young]

theorem retire_young (state : State) (runs : (state.process process).status = .running)
    (young : (state.process process).age ≠ (state.process process).lifespan) :
    retire (some process) state = .ok (state.setStatus process .ready) := by
  unfold retire
  dsimp only
  rw [if_pos runs, State.setStatus_process]
  exact if_neg young

theorem retire_completed (state : State) (runs : (state.process process).status = .running)
    (completed : (state.process process).age = (state.process process).lifespan) (unlinked : state.queued process = 0)
    (releasedAll : (state.process process).resourcesHolding = [])
    (acquiredAll : (state.process process).resourcesToAcquire = []) :
    retire (some process) state = .ok ((state.setStatus process .exit).print (.exited process)) := by
  have unattached : ¬ (state.setStatus process .exit).Attached process := by
    rw [State.attached_iff, State.queued_setStatus, unlinked]
    exact Nat.lt_irrefl 0
  unfold retire
  dsimp only
  rw [if_pos runs, State.setStatus_setStatus, State.setStatus_process]
  dsimp only
  rw [if_pos completed]
  unfold exitProcess
  rw [if_neg unattached, State.setStatus_process]
  dsimp only
  rw [if_neg (fun holding => holding releasedAll), if_neg (fun pending => pending acquiredAll)]

/-- The system after the choice of a process.  The previous one is where it
belongs and the ready queue is what is left of it. -/
def State.dispatched (state : State) (prio : Nat -> Nat) (next : Option Nat) (readyqueue : List Nat) : State :=
  (state.settle.setReadyqueue readyqueue).besides prio next state.ticks
    (state.stderr ++ state.farewell.map fun event => (state.ticks, event))

theorem State.dispatched_process (state : State) (prio : Nat -> Nat) (next : Option Nat) (readyqueue : List Nat)
    (process : Nat) : Exists fun status =>
      (state.dispatched prio next readyqueue).process process =
        { state.process process with status := status, prio := prio process } := by
  rcases state.settle_process process with ⟨status, settled, _⟩
  exact ⟨status, congrArg (fun record : Process => { record with prio := prio process }) settled⟩

/-- Bringing the previous process up to date after the choice is the same as
doing it before.  A process that exits passes the assertions. -/
theorem Between.retire_eq {next : Option Nat} {readyqueue : List Nat} (valid : script.Valid)
    (between : Between script state) (prio : Nat -> Nat)
    (moved : (next.toList ++ readyqueue).Perm (state.readyqueue ++ state.runnable.toList)) :
    retire state.current ((state.setReadyqueue readyqueue).besides prio next state.ticks state.stderr) =
      .ok (state.dispatched prio next readyqueue) := by
  rw [← between.settle_readyqueue] at moved
  have picked := (between.settle.pick moved).placed
  unfold State.dispatched State.farewell
  unfold State.settle at picked ⊢
  cases isCurrent : state.current with
  | none =>
      rw [State.running_eq_none fun process isSome => by rw [isCurrent] at isSome; cases isSome]
      dsimp only
      rw [List.map_nil, List.append_nil]
      rfl
  | some current =>
      let chosen := (state.setReadyqueue readyqueue).besides prio next state.ticks state.stderr
      rcases between.current current isCurrent with runs | ⟨r, waits⟩
      · have detached := State.running_eq_some.mpr ⟨isCurrent, runs⟩
        have facts := between.running current detached
        rw [detached] at picked ⊢
        dsimp only at picked ⊢
        by_cases young : (state.process current).age < (state.process current).lifespan
        · rw [if_pos young, if_pos young, List.map_nil, List.append_nil,
            retire_young chosen runs (Nat.ne_of_lt young), State.setStatus_besides]
          rfl
        · have completed : (state.process current).age = (state.process current).lifespan := by omega
          rw [if_neg young] at picked
          rw [if_neg young, if_neg young]
          have inside := (detached ▸ between.invariant.placed).of_detached.1
          have punctual := facts.2
          rw [completed, between.invariant.placed.lifespan current] at punctual
          have finished := punctual.completed (valid.description inside)
          have exited :
              (((state.setStatus current .exit).setReadyqueue readyqueue).process current).status = .exit := by
            unfold State.setReadyqueue
            rw [State.setStatus_process]
            exact if_pos rfl
          have unlinked : chosen.queued current = 0 := by
            by_contra linked
            exact (picked.of_queued (Nat.pos_of_ne_zero linked)).2.1 exited
          rw [retire_completed chosen runs completed unlinked finished.1 finished.2, State.setStatus_besides]
          rfl
      · have waiting := between.invariant.placed.waiting r current waits
        have idle : state.running = none := by
          apply State.running_eq_none
          intro process isSome
          rw [isCurrent] at isSome
          cases isSome
          exact waiting.1
        rw [idle]
        dsimp only
        rw [List.map_nil, List.append_nil]
        exact retire_waiting chosen (fun runs => ProcessStatus.noConfusion (waiting.1.symm.trans runs))
          (Nat.ne_of_lt waiting.2.1)

/-- The process that has been chosen is ready to run. -/
theorem Between.dispatched {next : Option Nat} {readyqueue : List Nat} (between : Between script state)
    (prio : Nat -> Nat) (moved : (next.toList ++ readyqueue).Perm state.settle.readyqueue) :
    Invariant script next (next.bind fun process => ((state.dispatched prio next readyqueue).process process).firstDue)
      (state.dispatched prio next readyqueue) ∧
    forall process, next = some process ->
      ((state.dispatched prio next readyqueue).process process).age <
        ((state.dispatched prio next readyqueue).process process).lifespan ∧
      Punctual (script.description process).acquires ((state.dispatched prio next readyqueue).process process).age
        ((state.dispatched prio next readyqueue).process process).resourcesHolding
        ((state.dispatched prio next readyqueue).process process).resourcesToAcquire := by
  refine ⟨(between.settle.pick moved).besides, ?_⟩
  intro process chosen
  have ready : process ∈ state.settle.readyqueue :=
    moved.subset (List.mem_append_left _ (Option.mem_toList.mpr chosen))
  exact ⟨(between.settle.placed.ready process ready).2,
    between.settle.punctual process (Option.some_ne_none _).symm⟩

/-- The process that a lawful scheduler has chosen is ready to run. -/
theorem Between.dispatch {sched : Scheduler} (valid : script.Valid) (lawful : Lawful sched)
    (between : Between script state) :
    Exists fun updated =>
      retire state.current { (sched.schedule state).2 with current := (sched.schedule state).1 } = .ok updated ∧
        updated.current = (sched.schedule state).1 ∧
        Invariant script updated.current (updated.current.bind fun next => (updated.process next).firstDue) updated ∧
        forall next, updated.current = some next ->
          (updated.process next).age < (updated.process next).lifespan ∧
            Punctual (script.description next).acquires (updated.process next).age
              (updated.process next).resourcesHolding (updated.process next).resourcesToAcquire := by
  rcases lawful.schedule state with ⟨⟨prio, scheduled⟩, moved, _⟩
  have retired := between.retire_eq valid prio moved
  rw [← between.settle_readyqueue] at moved
  refine ⟨state.dispatched prio (sched.schedule state).1 (sched.schedule state).2.readyqueue, ?_, rfl,
    between.dispatched prio moved⟩
  rw [scheduled]
  exact retired

end Settle

end Sched
end OsPa
