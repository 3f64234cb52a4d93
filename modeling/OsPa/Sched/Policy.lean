import OsPa.Sched.Framework

namespace OsPa
namespace Sched

open Library

/-!
# What all schedulers have in common

The schedulers differ in whom they choose and in the priorities they assign.
Neither matters for where processes are and who owns what.  `Lawful` says what
a scheduler may do at all: it runs one of the processes that could run, it
grants a resource exactly when it is free, and it wakes one waiter when a
resource is released.  The eight schedulers are lawful.
-/

/-- The same state with other priorities. -/
def State.reprioritized (state : State) (prio : Nat -> Nat) : State :=
  { state with process := fun process => { state.process process with prio := prio process } }

theorem State.reprioritized_self (state : State) :
    state = state.reprioritized fun process => (state.process process).prio := rfl

theorem State.setPrio_eq (state : State) (process prio : Nat) :
    state.setPrio process prio =
      state.reprioritized (Function.update (fun other => (state.process other).prio) process prio) := by
  simp only [State.setPrio, State.modify, State.reprioritized, State.mk.injEq, and_true]
  funext other
  by_cases same : other = process
  · subst other
    simp only [Function.update_self]
  · simp only [Function.update_of_ne same]

theorem State.setStatus_reprioritized (state : State) (prio : Nat -> Nat) (process : Nat)
    (status : ProcessStatus) :
    (state.reprioritized prio).setStatus process status =
      (state.setStatus process status).reprioritized prio := by
  simp only [State.setStatus, State.modify, State.reprioritized, State.mk.injEq, and_true]
  funext other
  by_cases same : other = process
  · subst other
    simp only [Function.update_self]
  · simp only [Function.update_of_ne same]

/-- A change of priorities. -/
def PrioOnly (change : State -> State) : Prop :=
  forall state, Exists fun prio => change state = state.reprioritized prio

theorem PrioOnly.id : PrioOnly fun state => state := fun state => ⟨_, state.reprioritized_self⟩

theorem PrioOnly.setPrio (process : Nat) (prio : State -> Nat) :
    PrioOnly fun state => state.setPrio process (prio state) :=
  fun state => ⟨_, state.setPrio_eq process (prio state)⟩

/-! ## The laws -/

/-- Either a process that could run is taken from the queue, or there is none. -/
structure Scheduled (before : State) (next : Option Nat) (after : State) : Prop where
  others : Exists fun prio =>
    after = ({ before with readyqueue := after.readyqueue } : State).reprioritized prio
  moved : (next.toList ++ after.readyqueue).Perm (before.readyqueue ++ before.runnable.toList)
  idle : next = none -> after.readyqueue = []

/-- A resource is granted when it is free.  Otherwise the process waits for it. -/
inductive Acquired (current : Nat) (r : Fin nrResources) (before : State) : Bool -> State -> Prop
  | granted (prio : Nat -> Nat) (free : (before.resources r).owner = none) :
      Acquired current r before true ((before.setOwner r (some current)).reprioritized prio)
  | refused (prio : Nat -> Nat) (owner : Nat) (owned : (before.resources r).owner = some owner) :
      Acquired current r before false
        (((before.setStatus current .blocked).setWaitqueue r
          ((before.resources r).waitqueue ++ [current])).reprioritized prio)

/-- A resource that is released becomes free, and one waiter becomes ready. -/
inductive Released (r : Fin nrResources) (before : State) : State -> Prop
  | unwanted (prio : Nat -> Nat) (empty : (before.resources r).waitqueue = []) :
      Released r before ((before.setOwner r none).reprioritized prio)
  | woken (prio : Nat -> Nat) (waiter : Nat) (member : waiter ∈ (before.resources r).waitqueue) :
      Released r before
        (((((before.setOwner r none).setWaitqueue r ((before.resources r).waitqueue.erase waiter)).setStatus
          waiter .ready).addReady waiter).reprioritized prio)

structure Lawful (sched : Scheduler) : Prop where
  schedule : forall before, Scheduled before (sched.schedule before).1 (sched.schedule before).2
  acquire : forall {resourceId : Nat} {r : Fin nrResources} {current : Nat} {before : State},
    resourceIndex resourceId = some r -> before.current = some current ->
      Exists fun granted => Exists fun after =>
        sched.acquire resourceId before = .ok (granted, after) ∧ Acquired current r before granted after
  release : forall {resourceId : Nat} {r : Fin nrResources} {current : Nat} {before : State},
    resourceIndex resourceId = some r -> before.current = some current ->
    (before.resources r).owner = some current ->
    (forall waiter, waiter ∈ (before.resources r).waitqueue -> (before.process waiter).status = .blocked) ->
      Exists fun after => sched.release resourceId before = .ok after ∧ Released r before after

/-! ## Acquire and release -/

theorem acquireWith_lawful {take : Nat -> State -> State} {wait : Nat -> Nat -> State -> State}
    (takes : forall current, PrioOnly (take current)) (waits : forall owner current, PrioOnly (wait owner current))
    {resourceId : Nat} {r : Fin nrResources} {current : Nat} {before : State}
    (indexed : resourceIndex resourceId = some r) (running : before.current = some current) :
    Exists fun granted => Exists fun after =>
      acquireWith take wait resourceId before = .ok (granted, after) ∧ Acquired current r before granted after := by
  unfold acquireWith
  rw [indexed, running]
  dsimp only
  cases owned : (before.resources r).owner with
  | none =>
      rcases takes current (before.setOwner r (some current)) with ⟨prio, taken⟩
      refine ⟨true, _, rfl, ?_⟩
      rw [taken]
      exact .granted prio owned
  | some owner =>
      rcases waits owner current before with ⟨prio, waiting⟩
      refine ⟨false, _, rfl, ?_⟩
      rw [waiting, State.setStatus_reprioritized]
      exact .refused prio owner owned

/-- What a waiter is selected by has to find one when there is one. -/
def Selects (select : State -> List Nat -> Option Nat) : Prop :=
  forall state queue, (select state queue = none -> queue = []) ∧
    forall selected, select state queue = some selected -> selected ∈ queue

theorem Selects.head : Selects fun _ queue => queue.head? :=
  fun _ _ => ⟨List.head?_eq_none_iff.mp, fun _ first => List.mem_of_head? first⟩

theorem Selects.scan (replaces : State -> Nat -> Nat -> Bool) :
    Selects fun state => Library.scan (replaces state) :=
  fun _ _ => ⟨scan_eq_none.mp, fun _ found => mem_of_scan found⟩

theorem releaseWith_lawful {restore : Nat -> State -> State} {select : State -> List Nat -> Option Nat}
    (restores : forall current, PrioOnly (restore current)) (selects : Selects select)
    {resourceId : Nat} {r : Fin nrResources} {current : Nat} {before : State}
    (indexed : resourceIndex resourceId = some r) (running : before.current = some current)
    (owned : (before.resources r).owner = some current)
    (blocked : forall waiter, waiter ∈ (before.resources r).waitqueue -> (before.process waiter).status = .blocked) :
    Exists fun after => releaseWith restore select resourceId before = .ok after ∧ Released r before after := by
  unfold releaseWith
  rw [indexed, running]
  dsimp only
  rw [if_pos owned]
  rcases restores current before with ⟨prio, restored⟩
  rw [restored]
  have waiters : (((before.reprioritized prio).setOwner r none).resources r).waitqueue =
      (before.resources r).waitqueue := by
    simp only [State.setOwner, Function.update_self, State.reprioritized]
  rw [waiters]
  cases queue : (before.resources r).waitqueue with
  | nil => exact ⟨_, rfl, .unwanted prio queue⟩
  | cons first rest =>
      have firstBlocked : (((before.reprioritized prio).setOwner r none).process first).status = .blocked :=
        blocked first (queue ▸ List.mem_cons_self)
      dsimp only
      rw [if_pos firstBlocked]
      have choice := selects ((before.reprioritized prio).setOwner r none) (first :: rest)
      cases selected : select ((before.reprioritized prio).setOwner r none) (first :: rest) with
      | none => exact absurd (choice.1 selected) (List.cons_ne_nil _ _)
      | some waiter =>
          refine ⟨_, rfl, ?_⟩
          have member : waiter ∈ (before.resources r).waitqueue := queue ▸ choice.2 waiter selected
          have ready := State.setStatus_reprioritized
            ((before.setOwner r none).setWaitqueue r ((before.resources r).waitqueue.erase waiter)) prio waiter .ready
          rw [← queue]
          exact (congrArg (fun state : State => state.addReady waiter) ready).symm ▸ .woken prio waiter member

/-! ## Schedule -/

theorem Scheduled.pickNext {select : State -> List Nat -> Option Nat} (selects : Selects select)
    {before queued : State} (readyqueue : queued.readyqueue.Perm (before.readyqueue ++ before.runnable.toList))
    (others : Exists fun prio =>
      queued = ({ before with readyqueue := queued.readyqueue } : State).reprioritized prio) :
    Scheduled before (pickNext select queued).1 (pickNext select queued).2 := by
  rcases others with ⟨prio, others⟩
  have choice := selects queued queued.readyqueue
  unfold Sched.pickNext
  cases selected : select queued queued.readyqueue with
  | none => exact ⟨⟨prio, others⟩, readyqueue, fun _ => choice.1 selected⟩
  | some next =>
      refine ⟨⟨prio, ?_⟩, ?_, nofun⟩
      · exact congrArg (fun now : State => { now with readyqueue := queued.readyqueue.erase next }) others
      · exact (List.perm_cons_erase (choice.2 next selected)).symm.trans readyqueue

theorem State.requeue_eq (state : State) :
    state.requeue = { state with readyqueue := state.readyqueue ++ state.runnable.toList } := by
  unfold State.requeue
  cases state.runnable with
  | none =>
      dsimp only [Option.toList]
      rw [List.append_nil]
  | some current => rfl

theorem State.requeue_process (state : State) : state.requeue.process = state.process := by
  rw [State.requeue_eq]

theorem State.requeue_readyqueue (state : State) :
    state.requeue.readyqueue = state.readyqueue ++ state.runnable.toList := by
  rw [State.requeue_eq]

theorem preemptive_lawful {select : State -> List Nat -> Option Nat} (selects : Selects select) (before : State) :
    Scheduled before (preemptive select before).1 (preemptive select before).2 := by
  unfold preemptive
  rw [State.requeue_eq]
  exact Scheduled.pickNext selects (List.Perm.refl _) ⟨_, State.reprioritized_self _⟩

/-- What a preemptive scheduler selects is taken out of the queue. -/
theorem preemptive_some {select : State -> List Nat -> Option Nat} {state scheduled : State} {next : Nat}
    (chosen : preemptive select state = (some next, scheduled)) :
    select state.requeue (state.readyqueue ++ state.runnable.toList) = some next ∧
      scheduled.readyqueue = (state.readyqueue ++ state.runnable.toList).erase next := by
  unfold preemptive pickNext at chosen
  rw [State.requeue_eq] at chosen ⊢
  dsimp only at chosen
  split at chosen
  case h_1 none => cases chosen
  case h_2 selected found =>
    cases chosen
    exact ⟨found, rfl⟩

theorem preemptive_none {select : State -> List Nat -> Option Nat} (selects : Selects select) {state scheduled : State}
    (chosen : preemptive select state = (none, scheduled)) : state.readyqueue ++ state.runnable.toList = [] := by
  unfold preemptive pickNext at chosen
  rw [State.requeue_eq] at chosen
  dsimp only at chosen
  split at chosen
  case h_1 none => exact (selects _ _).1 none
  case h_2 selected found => cases chosen

theorem nonpreemptive_lawful {select : State -> List Nat -> Option Nat} (selects : Selects select)
    (before : State) : Scheduled before (nonpreemptive select before).1 (nonpreemptive select before).2 := by
  unfold nonpreemptive
  cases runnable : before.runnable with
  | none =>
      apply Scheduled.pickNext selects
      · rw [runnable]
        dsimp only [Option.toList]
        rw [List.append_nil]
      · exact ⟨_, State.reprioritized_self _⟩
  | some current =>
      refine ⟨⟨_, State.reprioritized_self _⟩, ?_, nofun⟩
      rw [runnable]
      exact List.perm_append_comm

/-- A nonpreemptive scheduler selects only when nobody can run on. -/
theorem nonpreemptive_some {select : State -> List Nat -> Option Nat} {state scheduled : State} {next : Nat}
    (chosen : nonpreemptive select state = (some next, scheduled)) :
    (state.runnable = some next ∧ scheduled = state) ∨
      (state.runnable = none ∧ select state state.readyqueue = some next ∧
        scheduled.readyqueue = state.readyqueue.erase next) := by
  unfold nonpreemptive pickNext at chosen
  split at chosen
  case h_1 current runnable =>
    cases chosen
    exact Or.inl ⟨runnable, rfl⟩
  case h_2 idle =>
    right
    split at chosen
    case h_1 nobody => cases chosen
    case h_2 selected found =>
      cases chosen
      exact ⟨idle, found, rfl⟩

/-- The loop of `pa_schedule` changes priorities and ends with a process that it
has walked past. -/
theorem paRound_foldl (queue : List Nat) (walked : Nat × State) :
    (queue.foldl paRound walked).1 ∈ walked.1 :: queue ∧
      Exists fun prio => (queue.foldl paRound walked).2 = walked.2.reprioritized prio := by
  induction queue generalizing walked with
  | nil => exact ⟨List.mem_cons_self, _, State.reprioritized_self _⟩
  | cons pos queue inductionHypothesis =>
      rw [List.foldl_cons]
      rcases inductionHypothesis (paRound walked pos) with ⟨member, prio, changed⟩
      constructor
      · rcases List.mem_cons.mp member with same | later
        · rw [same]
          unfold paRound
          dsimp only
          split
          · exact List.mem_cons_of_mem _ List.mem_cons_self
          · exact List.mem_cons_self
        · exact List.mem_cons_of_mem _ (List.mem_cons_of_mem _ later)
      · rw [changed]
        unfold paRound
        dsimp only
        rw [State.setPrio_eq]
        exact ⟨_, rfl⟩

theorem paSchedule_lawful (before : State) :
    Scheduled before (paSchedule before).1 (paSchedule before).2 := by
  unfold paSchedule
  rw [State.requeue_eq]
  dsimp only
  cases queue : before.readyqueue ++ before.runnable.toList with
  | nil =>
      refine ⟨⟨_, State.reprioritized_self _⟩, ?_, fun _ => rfl⟩
      rw [queue]
      exact List.Perm.refl _
  | cons first rest =>
      rcases paRound_foldl (first :: rest) (first, { before with readyqueue := first :: rest }) with
        ⟨member, prio, changed⟩
      dsimp only
      rw [changed, State.setPrio_eq]
      have chosen : (List.foldl paRound (first, { before with readyqueue := first :: rest }) (first :: rest)).1 ∈
          first :: rest := by
        rcases List.mem_cons.mp member with same | later
        · rw [same]
          exact List.mem_cons_self
        · exact later
      refine ⟨⟨_, rfl⟩, ?_, nofun⟩
      rw [queue]
      exact (List.perm_cons_erase chosen).symm

/-! ## The eight schedulers -/

theorem restorePrio_prioOnly (owner : Nat) : PrioOnly (restorePrio owner) :=
  PrioOnly.setPrio owner fun state => (state.process owner).prioOrig

theorem SchedulerName.lawful (name : SchedulerName) : Lawful name.scheduler := by
  have byPrio : Selects highestPrio := Selects.scan fun state pos next =>
    decide ((state.process next).prio < (state.process pos).prio)
  have keeps : forall current : Nat, PrioOnly fun state => state := fun _ => PrioOnly.id
  have inherits : forall owner current : Nat, PrioOnly fun state =>
      if (state.process owner).prio < (state.process current).prio then
        state.setPrio owner (state.process current).prio
      else state := by
    intro owner current state
    dsimp only
    split
    · exact ⟨_, state.setPrio_eq owner _⟩
    · exact ⟨_, state.reprioritized_self⟩
  have fcfsAcquires : forall {resourceId : Nat} {r : Fin nrResources} {current : Nat} {before : State},
      resourceIndex resourceId = some r -> before.current = some current ->
        Exists fun granted => Exists fun after =>
          fcfsAcquire resourceId before = .ok (granted, after) ∧ Acquired current r before granted after :=
    acquireWith_lawful keeps fun _ => keeps
  cases name with
  | fcfs =>
      exact ⟨nonpreemptive_lawful Selects.head, fcfsAcquires, releaseWith_lawful keeps Selects.head⟩
  | sjf =>
      exact ⟨nonpreemptive_lawful (Selects.scan _), fcfsAcquires, releaseWith_lawful keeps Selects.head⟩
  | stcf =>
      exact ⟨preemptive_lawful (Selects.scan _), fcfsAcquires, releaseWith_lawful keeps Selects.head⟩
  | rr =>
      exact ⟨preemptive_lawful Selects.head, fcfsAcquires, releaseWith_lawful keeps Selects.head⟩
  | prio =>
      exact ⟨preemptive_lawful byPrio, fcfsAcquires, releaseWith_lawful keeps byPrio⟩
  | pa =>
      exact ⟨paSchedule_lawful, fcfsAcquires, releaseWith_lawful keeps byPrio⟩
  | pcp =>
      exact ⟨preemptive_lawful byPrio,
        acquireWith_lawful (fun current => PrioOnly.setPrio current fun _ => maxPrio) fun _ => keeps,
        releaseWith_lawful restorePrio_prioOnly byPrio⟩
  | pip =>
      exact ⟨preemptive_lawful byPrio, acquireWith_lawful keeps inherits,
        releaseWith_lawful restorePrio_prioOnly byPrio⟩

end Sched
end OsPa
