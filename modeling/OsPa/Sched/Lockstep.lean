import OsPa.Sched.Links

namespace OsPa
namespace Sched

open Library

/-!
# Runs in lockstep with round robin

The framework does not look at priorities.  Where a scheduler does what round
robin does, except for priorities, its whole run is that of round robin with
other priorities.  Which priorities make it do so depends on the scheduler and
on the ready queue.  `Mirrors` is what has to be shown of a scheduler.
-/

/-! ## The framework does not look at priorities -/

section Reprioritized

variable (state : State) (prio : Nat -> Nat)

theorem State.modify_reprioritized (process : Nat) {change : Process -> Process}
    (blind : forall record value, change { record with prio := value } = { change record with prio := value }) :
    (state.reprioritized prio).modify process change = (state.modify process change).reprioritized prio := by
  simp only [State.modify, State.reprioritized, State.mk.injEq, and_true]
  funext other
  by_cases same : other = process
  · subst other
    simp only [Function.update_self]
    exact blind _ _
  · simp only [Function.update_of_ne same]

private theorem forkProcess_reprioritized (process : Nat) :
    forkProcess (state.reprioritized prio) process = (forkProcess state process).reprioritized prio := by
  rw [forkProcess_eq, forkProcess_eq]
  by_cases arrived : (state.process process).startsAt ≤ state.ticks
  · have ready := State.setStatus_reprioritized
      (({ state with forkqueue := state.forkqueue.erase process } : State).addReady process) prio process .ready
    rw [if_pos arrived]
    exact (if_pos arrived).trans (congrArg (fun forked : State => forked.print (.forked process)) ready)
  · rw [if_neg arrived]
    exact if_neg arrived

private theorem forkOnSchedule_reprioritized :
    forkOnSchedule (state.reprioritized prio) = (forkOnSchedule state).reprioritized prio := by
  unfold forkOnSchedule
  apply List.foldl_hom fun state : State => state.reprioritized prio
  intro state process
  exact forkProcess_reprioritized state prio process

variable {state} {after : State}

private theorem exitProcess_reprioritized {process : Nat} (exited : exitProcess process state = .ok after) :
    exitProcess process (state.reprioritized prio) = .ok (after.reprioritized prio) := by
  unfold exitProcess at exited ⊢
  split at exited
  case isTrue attached => cases exited
  case isFalse unattached =>
    split at exited
    case isTrue holds => cases exited
    case isFalse released =>
      split at exited
      case isTrue pending => cases exited
      case isFalse acquired =>
        cases exited
        exact (if_neg unattached).trans ((if_neg released).trans (if_neg acquired))

private theorem retire_reprioritized {prev : Option Nat} (retired : retire prev state = .ok after) :
    retire prev (state.reprioritized prio) = .ok (after.reprioritized prio) := by
  cases prev with
  | none =>
      cases retired
      rfl
  | some process =>
      unfold retire at retired ⊢
      dsimp only at retired ⊢
      have updated : (if ((state.reprioritized prio).process process).status = .running then
            (state.reprioritized prio).setStatus process .ready else state.reprioritized prio) =
          (if (state.process process).status = .running then
            state.setStatus process .ready else state).reprioritized prio := by
        by_cases runs : (state.process process).status = .running
        · rw [if_pos runs]
          exact (if_pos runs).trans (state.setStatus_reprioritized prio process .ready)
        · rw [if_neg runs]
          exact if_neg runs
      rw [updated]
      generalize (if (state.process process).status = .running then
        state.setStatus process .ready else state) = settled at retired ⊢
      split at retired
      case isTrue completed =>
        apply (if_pos completed).trans
        rw [State.setStatus_reprioritized]
        exact exitProcess_reprioritized prio retired
      case isFalse young =>
        cases retired
        exact if_neg young

end Reprioritized

/-! ## Schedulers that mirror round robin -/

/-- The priorities that a queue has to have for the scheduler, in a state in which
nobody's original priority has changed. -/
structure Level (script : Script) (graded : List Nat -> (Nat -> Nat) -> Prop) (state : State) (prio : Nat -> Nat) :
    Prop where
  prioOrig : forall process, (state.process process).prioOrig = (script.description process).prio
  queue : graded state.readyqueue prio

/-- With graded priorities the scheduler does what round robin does, and grades
the priorities of the queue that it leaves. -/
structure Mirrors (script : Script) (sched : Scheduler) (graded : List Nat -> (Nat -> Nat) -> Prop) : Prop where
  append : forall {queue : List Nat} {prio : Nat -> Nat} {process : Nat}, graded queue prio ->
    process < script.length -> process ∉ queue -> graded (queue ++ [process]) prio
  schedule : forall {state : State} {prio : Nat -> Nat}, Between script state ->
    Level script graded state.requeue prio -> Exists fun prio' =>
      sched.schedule (state.reprioritized prio) = ((rrSchedule state).1, (rrSchedule state).2.reprioritized prio') ∧
        graded (rrSchedule state).2.readyqueue prio'
  acquire : forall {current : Nat} {kept todo : List ResourceSchedule} {rs : ResourceSchedule} {granted : Bool}
      {state after : State} {prio : Nat -> Nat}, Acquiring script current kept (rs :: todo) state ->
    Level script graded state prio -> fcfsAcquire rs.resourceId state = .ok (granted, after) ->
      sched.acquire rs.resourceId (state.reprioritized prio) = .ok (granted, after.reprioritized prio)
  release : forall {current : Nat} {rs : ResourceSchedule} {state after : State} {prio : Nat -> Nat},
    Invariant script (some current) none state -> state.current = some current ->
    Level script graded state prio -> fcfsRelease rs.resourceId state = .ok after ->
      sched.release rs.resourceId (state.reprioritized prio) = .ok (after.reprioritized prio)

section Mirror

variable {script : Script} {sched : Scheduler} {graded : List Nat -> (Nat -> Nat) -> Prop} {prio : Nat -> Nat}
  {state after : State} {current : Nat} {kept todo : List ResourceSchedule}

/-- A step that leaves the ready queue and what is original. -/
theorem Level.congr (level : Level script graded state prio) (readyqueue : after.readyqueue = state.readyqueue)
    (prioOrig : forall process, (after.process process).prioOrig = (state.process process).prioOrig) :
    Level script graded after prio := by
  constructor
  case prioOrig => exact fun process => (prioOrig process).trans (level.prioOrig process)
  case queue =>
    rw [readyqueue]
    exact level.queue

theorem Level.modify (level : Level script graded state prio) (current : Nat) (change : Process -> Process)
    (keeps : forall record, (change record).prioOrig = record.prioOrig) :
    Level script graded (state.modify current change) prio := by
  have readyqueue : (state.modify current change).readyqueue = state.readyqueue := rfl
  apply level.congr readyqueue
  intro process
  by_cases same : process = current
  · subst process
    rw [State.process_modify_self]
    exact keeps _
  · rw [state.process_modify_of_ne same]

private theorem Level.acquired {resourceId : Nat} {granted : Bool} (level : Level script graded state prio)
    (asked : fcfsAcquire resourceId state = .ok (granted, after)) : Level script graded after prio := by
  rcases acquireWith_ok asked with ⟨r, current, _, _, ⟨_, _, rfl⟩ | ⟨_, owner, _, rfl⟩⟩
  · exact level.congr rfl fun _ => rfl
  · exact (level.modify current (fun record => { record with status := .blocked }) fun _ => rfl).congr rfl fun _ => rfl

/-- The loop of acquires takes the same course. -/
theorem Mirrors.runCurrentAcquire (mirrors : Mirrors script sched graded) (valid : script.Valid) {granted : Bool}
    (acquiring : Acquiring script current kept todo state) (level : Level script graded state prio)
    (ran : runCurrentAcquire rrScheduler current kept todo state = .ok (granted, after)) :
    runCurrentAcquire sched current kept todo (state.reprioritized prio) = .ok (granted, after.reprioritized prio) ∧
      Level script graded after prio := by
  induction todo generalizing kept state with
  | nil =>
      cases ran
      exact ⟨rfl, level⟩
  | cons rs todo inductionHypothesis =>
      rw [runCurrentAcquire_cons] at ran ⊢
      have sameAge : ((state.reprioritized prio).process current).age = (state.process current).age := rfl
      rw [sameAge]
      by_cases isDue : rs.at_ = (state.process current).age
      · rw [if_pos isDue] at ran ⊢
        rcases acquiring.ask valid SchedulerName.rr.lawful kept rs todo state isDue with
          ⟨taken, asked, next⟩ | ⟨refused, asked, between⟩
        · have answered : rrScheduler.acquire rs.resourceId state = .ok (true, taken) := asked
          rw [answered] at ran
          rw [mirrors.acquire acquiring level asked]
          have moved := (level.acquired asked).modify current (fun record => record.take kept todo rs) fun _ => rfl
          have same : (taken.reprioritized prio).modify current (fun record => record.take kept todo rs) = _ :=
            taken.modify_reprioritized prio current fun _ _ => rfl
          have printed : (taken.reprioritized prio).take current kept todo rs =
              (taken.take current kept todo rs).reprioritized prio :=
            congrArg (fun taken : State => taken.print (.acquired current rs.resourceId)) same
          dsimp only
          rw [printed]
          exact inductionHypothesis next (moved.congr rfl fun _ => rfl) ran
        · have answered : rrScheduler.acquire rs.resourceId state = .ok (false, refused) := asked
          rw [answered] at ran
          rw [mirrors.acquire acquiring level asked]
          cases ran
          exact ⟨rfl, (level.acquired asked).congr rfl fun _ => rfl⟩
      · rw [if_neg isDue] at ran ⊢
        exact inductionHypothesis (acquiring.skip isDue) level ran

/-- A process that is woken up was in no other list before. -/
theorem Mirrors.released (mirrors : Mirrors script sched graded) {detached next : Option Nat}
    (invariant : Invariant script detached next state) (level : Level script graded state prio)
    {r : Fin nrResources} (released : Released r state after) : Level script graded after prio := by
  constructor
  case prioOrig =>
    intro process
    rcases released.process process with ⟨status, prio, changed, _⟩
    rw [changed]
    exact level.prioOrig process
  case queue =>
    cases released with
    | unwanted prio empty => exact level.queue
    | woken prio waiter member =>
        have inside := invariant.placed.lt_length (State.queued_of_waiting member)
        exact mirrors.append level.queue inside (invariant.placed.waiting_not_ready member)

/-- The loop of releases takes the same course. -/
theorem Mirrors.runCurrentRelease (mirrors : Mirrors script sched graded) (valid : script.Valid)
    (releasing : Releasing script current kept todo state) (level : Level script graded state prio)
    (ran : runCurrentRelease rrScheduler current kept todo state = .ok after) :
    runCurrentRelease sched current kept todo (state.reprioritized prio) = .ok (after.reprioritized prio) ∧
      Level script graded after prio := by
  have held : forall (state : State) (holding : List ResourceSchedule),
      (state.reprioritized prio).hold current holding = (state.hold current holding).reprioritized prio :=
    fun state holding => state.modify_reprioritized prio current fun _ _ => rfl
  have levelled : forall {state : State} (holding : List ResourceSchedule), Level script graded state prio ->
      Level script graded (state.hold current holding) prio :=
    fun holding level => level.modify current (fun record => record.hold holding) fun _ => rfl
  induction todo generalizing kept state with
  | nil =>
      cases ran
      exact ⟨rfl, level⟩
  | cons rs todo inductionHypothesis =>
      rw [runCurrentRelease_cons] at ran ⊢
      rw [held]
      by_cases remains : rs.countDown.duration ≠ 0
      · rw [if_pos remains] at ran ⊢
        exact inductionHypothesis (releasing.keep remains) (levelled _ level) ran
      · rw [if_neg remains] at ran ⊢
        rcases releasing.released valid SchedulerName.rr.lawful with ⟨r, released, indexed, asked, effect⟩
        have answered : rrScheduler.release rs.resourceId (state.hold current (kept ++ rs.countDown :: todo)) =
          .ok released := asked
        have isCurrent : (state.hold current (kept ++ rs.countDown :: todo)).current = some current :=
          releasing.isCurrent
        have counted := levelled (kept ++ rs.countDown :: todo) level
        have freed : Level script graded (released.print (.released current rs.resourceId)) prio :=
          (mirrors.released releasing.count counted effect).congr rfl fun _ => rfl
        have printed : (released.reprioritized prio).print (.released current rs.resourceId) =
          (released.print (.released current rs.resourceId)).reprioritized prio := rfl
        rw [answered] at ran
        rw [mirrors.release releasing.count isCurrent counted asked]
        dsimp only at ran ⊢
        rw [printed, held]
        exact inductionHypothesis (releasing.dropped indexed effect _) (levelled _ freed) ran

/-- The execution of a process takes the same course. -/
theorem Mirrors.execute (mirrors : Mirrors script sched graded) (valid : script.Valid)
    (invariant : Invariant script (some current) (state.process current).firstDue state)
    (isCurrent : state.current = some current) (young : (state.process current).age < (state.process current).lifespan)
    (punctual : Punctual (script.description current).acquires (state.process current).age
      (state.process current).resourcesHolding (state.process current).resourcesToAcquire)
    (level : Level script graded state prio) :
    Exists fun after => execute rrScheduler current state = .ok after ∧
      execute sched current (state.reprioritized prio) = .ok (after.reprioritized prio) ∧
        Level script graded after prio := by
  have unlinked := invariant.placed.of_detached.2.1
  have unlinked' : (state.reprioritized prio).queued current = 0 := unlinked
  have running : Level script graded (state.setStatus current .running) prio :=
    level.modify current (fun record => { record with status := .running }) fun _ => rfl
  have starts := invariant.start isCurrent young punctual
  have pending : ((state.reprioritized prio).process current).resourcesToAcquire =
    (state.process current).resourcesToAcquire := rfl
  rcases runCurrentAcquire_rule (Acquiring script current) (Between script)
      (fun _ _ _ _ acquiring notDue => acquiring.skip notDue) (Acquiring.ask valid SchedulerName.rr.lawful) starts with
    ⟨passed, acquired, ran, acquiring⟩ | ⟨blocked, ran, _⟩
  · rcases mirrors.runCurrentAcquire valid starts running ran with ⟨ran', acquired'⟩
    have releasing := acquiring.grow
    rcases runCurrentRelease_rule (Releasing script current) (fun _ _ _ _ releasing remains => releasing.keep remains)
        (fun _ _ _ _ releasing _ => releasing.expire valid SchedulerName.rr.lawful) releasing with
      ⟨left, after, released, _⟩
    have grown : Level script graded (acquired.grow current) prio :=
      (acquired'.modify current Process.grow fun _ => rfl).congr rfl fun _ => rfl
    rcases mirrors.runCurrentRelease valid releasing grown released with ⟨released', after'⟩
    have sameGrown : (acquired.reprioritized prio).grow current = (acquired.grow current).reprioritized prio :=
      (acquired.print (.ran current)).modify_reprioritized prio current fun _ _ => rfl
    rw [← State.setStatus_reprioritized] at ran'
    rw [← sameGrown] at released'
    exact ⟨after, execute_of_granted unlinked ran released, execute_of_granted unlinked' ran' released', after'⟩
  · rcases mirrors.runCurrentAcquire valid starts running ran with ⟨ran', blocked'⟩
    rw [← State.setStatus_reprioritized] at ran'
    exact ⟨blocked, execute_of_refused unlinked ran, execute_of_refused unlinked' ran', blocked'⟩

/-- Processes that are forked come to the end of the ready queue. -/
theorem Mirrors.forkOnSchedule (mirrors : Mirrors script sched graded) (between : Between script state)
    (level : Level script graded state prio) : Level script graded (forkOnSchedule state) prio := by
  have nodup := between.invariant.placed.forkqueue_nodup
  have forked :
      Between script (Sched.forkOnSchedule state) ∧ Level script graded (Sched.forkOnSchedule state) prio := by
    apply forkOnSchedule_rule (fun state => Between script state ∧ Level script graded state prio) _ nodup
      ⟨between, level⟩
    rintro state process member ⟨between, level⟩
    have placed := between.invariant.placed
    have inside := placed.lt_length (State.queued_of_forking member)
    refine ⟨(between.fork member).besides_stderr _, ?_, mirrors.append level.queue inside (placed.not_ready member)⟩
    exact fun other => (congrArg Process.prioOrig (state.fork_process process other)).trans (level.prioOrig other)
  exact forked.2

/-- The current process comes to the end of the ready queue. -/
theorem Mirrors.requeue (mirrors : Mirrors script sched graded) (between : Between script state)
    (level : Level script graded state prio) : Level script graded state.requeue prio := by
  have settled := between.settle_readyqueue
  have placed := between.settle.placed
  rw [State.requeue_eq]
  refine ⟨level.prioOrig, ?_⟩
  dsimp only
  cases runnable : state.runnable with
  | none =>
      rw [Option.toList, List.append_nil]
      exact level.queue
  | some current =>
      rw [runnable] at settled
      have member : current ∈ state.settle.readyqueue := by
        rw [settled]
        exact List.mem_append_right _ List.mem_cons_self
      apply mirrors.append level.queue (placed.lt_length (State.queued_of_ready member))
      intro earlier
      have once := (placed.of_queued (State.queued_of_ready member)).2.2
      have ready := List.count_pos_iff.mpr earlier
      have last : [current].count current = 1 := List.count_singleton_self
      unfold State.queued at once
      rw [settled, Option.toList, List.count_append, last] at once
      omega

/-- A round takes the same course, and ends with other priorities. -/
theorem Mirrors.iteration (mirrors : Mirrors script sched graded) (valid : script.Valid)
    (between : Between script state) (level : Level script graded state prio) :
    Exists fun left => Exists fun after => Exists fun prio' =>
      iteration rrScheduler state = .ok (left, after) ∧
        iteration sched (state.reprioritized prio) = .ok (left, after.reprioritized prio') ∧
          Level script graded after prio' := by
  have forked := forkOnSchedule_between between
  have level := mirrors.forkOnSchedule between level
  have sameForked := forkOnSchedule_reprioritized state prio
  rcases mirrors.schedule forked (mirrors.requeue forked level) with ⟨prio', scheduled, queue⟩
  rcases forked.dispatch valid SchedulerName.rr.lawful with ⟨updated, retired, isCurrent, invariant, chosen⟩
  have retired' : retire (Sched.forkOnSchedule (state.reprioritized prio)).current
      { (sched.schedule (Sched.forkOnSchedule (state.reprioritized prio))).2 with
        current := (sched.schedule (Sched.forkOnSchedule (state.reprioritized prio))).1 } =
      .ok (updated.reprioritized prio') := by
    rw [sameForked, scheduled]
    exact retire_reprioritized prio' retired
  have next' : (sched.schedule (Sched.forkOnSchedule (state.reprioritized prio))).1 =
      (rrScheduler.schedule (Sched.forkOnSchedule state)).1 := by
    rw [sameForked, scheduled]
    rfl
  have kept := retire_kept retired
  have dispatched : Level script graded updated prio' := by
    constructor
    case prioOrig =>
      intro process
      rcases kept.process process with ⟨status, changed⟩
      rcases (SchedulerName.rr.lawful.schedule (Sched.forkOnSchedule state)).others with ⟨prio, others⟩
      have original := congrArg (fun after : State => (after.process process).prioOrig) others
      rw [changed]
      exact original.trans (level.prioOrig process)
    case queue =>
      rw [kept.readyqueue]
      exact queue
  cases next : (rrScheduler.schedule (Sched.forkOnSchedule state)).1 with
  | none =>
      have round := iteration_of_none retired next
      have round' := iteration_of_none retired' (next'.trans next)
      by_cases empty : updated.readyqueue = [] ∧ updated.forkqueue = []
      · rw [if_pos empty] at round
        exact ⟨true, updated, prio', round, round'.trans (congrArg Except.ok (if_pos empty)), dispatched⟩
      · rw [if_neg empty] at round
        exact ⟨false, _, prio', round, round'.trans (congrArg Except.ok (if_neg empty)),
          dispatched.congr rfl fun _ => rfl⟩
  | some current =>
      have isCurrent : updated.current = some current := isCurrent.trans next
      rw [isCurrent] at invariant
      have facts := chosen current isCurrent
      rcases mirrors.execute valid invariant isCurrent facts.1 facts.2 dispatched with
        ⟨after, executed, executed', level'⟩
      exact ⟨false, after.tick, prio', iteration_of_some retired next executed,
        iteration_of_some retired' (next'.trans next) executed', level'.congr rfl fun _ => rfl⟩

/-- A whole run takes the same course. -/
theorem Mirrors.simulates (mirrors : Mirrors script sched graded) (valid : script.Valid)
    (initially : graded [] fun process => (script.description process).prio) {rounds : Nat} {left : Bool}
    (simulates : Simulates rrScheduler script rounds left state) :
    Exists fun prio => Simulates sched script rounds left (state.reprioritized prio) := by
  let related := fun state state' : State => Between script state ∧
    Exists fun prio => state' = state.reprioritized prio ∧ Level script graded state prio
  have round : forall state state', related state state' -> Exists fun left => Exists fun after =>
      Exists fun after' => Sched.iteration rrScheduler state = .ok (left, after) ∧
        Sched.iteration sched state' = .ok (left, after') ∧ related after after' := by
    rintro state state' ⟨between, prio, rfl, level⟩
    rcases mirrors.iteration valid between level with ⟨left, after, prio', ran, ran', level'⟩
    rcases between.iteration valid SchedulerName.rr.lawful with ⟨_, _, ran'', later, _⟩
    cases ran.symm.trans ran''
    exact ⟨left, after, _, ran, ran', later, prio', rfl, level'⟩
  have start : related script.initial script.initial :=
    ⟨valid.initial, _, script.initial.reprioritized_self, fun _ => rfl, initially⟩
  rcases simulates.lockstep related round start with ⟨state', simulates', _, prio, rfl, _⟩
  exact ⟨prio, simulates'⟩

end Mirror

end Sched
end OsPa
