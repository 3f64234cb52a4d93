import OsPa.Library.Selection
import OsPa.Sched.Types

namespace OsPa
namespace Sched

open Library

/-!
# The schedulers

The callbacks of `pa2.c`, in its order.  Most of them repeat one of a few
bodies with another comparison, so that each is an instance of a definition with
that comparison as a parameter.  `pa_schedule` changes priorities while it looks
for the best one and has a body of its own.
-/

/-- The callbacks that the framework uses.  The others are NULL in all
schedulers, or do nothing. -/
structure Scheduler where
  schedule : State -> Option Nat × State
  acquire : Nat -> State -> Except Fault (Bool × State)
  release : Nat -> State -> Except Fault State

/-! ## Acquire -/

/-- The common body of the acquire functions.  `take` is what happens to the
priorities when the resource is free, `wait` when the given process owns it. -/
def acquireWith (take : Nat -> State -> State) (wait : Nat -> Nat -> State -> State) (resourceId : Nat)
    (state : State) : Except Fault (Bool × State) :=
  match resourceIndex resourceId with
  | none => .error .resourcesOutOfBounds
  | some r =>
      match state.current with
      | none => .error .nullCurrent
      | some current =>
          match (state.resources r).owner with
          | none => .ok (true, take current (state.setOwner r (some current)))
          | some owner =>
              let blocked := (wait owner current state).setStatus current .blocked
              .ok (false, blocked.setWaitqueue r ((blocked.resources r).waitqueue ++ [current]))

def fcfsAcquire : Nat -> State -> Except Fault (Bool × State) :=
  acquireWith (fun _ state => state) (fun _ _ state => state)

/-- The process that takes a resource gets the largest priority. -/
def pcpAcquire : Nat -> State -> Except Fault (Bool × State) :=
  acquireWith (fun current state => state.setPrio current maxPrio) (fun _ _ state => state)

/-- The owner of a resource gets the priority of the process it keeps waiting. -/
def pipAcquire : Nat -> State -> Except Fault (Bool × State) :=
  acquireWith (fun _ state => state) (fun owner current state =>
    if (state.process owner).prio < (state.process current).prio then
      state.setPrio owner (state.process current).prio
    else state)

/-! ## Release -/

/-- The common body of the release functions.  `restore` is what happens to the
priority of the owner, and `select` picks the waiter to wake up. -/
def releaseWith (restore : Nat -> State -> State) (select : State -> List Nat -> Option Nat) (resourceId : Nat)
    (state : State) : Except Fault State :=
  match resourceIndex resourceId with
  | none => .error .resourcesOutOfBounds
  | some r =>
      match state.current with
      | none => .error .nullCurrent
      | some current =>
          if (state.resources r).owner = some current then
            let unowned := (restore current state).setOwner r none
            match (unowned.resources r).waitqueue with
            | [] => .ok unowned
            | first :: rest =>
                if (unowned.process first).status = .blocked then
                  match select unowned (first :: rest) with
                  | none => .ok unowned
                  | some waiter =>
                      .ok (((unowned.setWaitqueue r ((first :: rest).erase waiter)).setStatus waiter .ready).addReady
                        waiter)
                else .error .waiterNotBlocked
          else .error .notOwner

/-- The first process of largest priority. -/
def highestPrio (state : State) : List Nat -> Option Nat :=
  scan fun pos next => decide ((state.process next).prio < (state.process pos).prio)

def fcfsRelease : Nat -> State -> Except Fault State :=
  releaseWith (fun _ state => state) (fun _ waitqueue => waitqueue.head?)

def prioRelease : Nat -> State -> Except Fault State :=
  releaseWith (fun _ state => state) highestPrio

/-- The owner gets its original priority back. -/
def restorePrio (owner : Nat) (state : State) : State := state.setPrio owner (state.process owner).prioOrig

def pcpRelease : Nat -> State -> Except Fault State := releaseWith restorePrio highestPrio

def pipRelease : Nat -> State -> Except Fault State := releaseWith restorePrio highestPrio

/-! ## Schedule -/

/-- The current process, unless it is blocked or has completed. -/
def State.runnable (state : State) : Option Nat :=
  state.current.filter fun current =>
    (state.process current).status ≠ .blocked && (state.process current).age < (state.process current).lifespan

/-- Detach the selected process from the ready queue. -/
def pickNext (select : State -> List Nat -> Option Nat) (state : State) : Option Nat × State :=
  match select state state.readyqueue with
  | none => (none, state)
  | some next => (some next, { state with readyqueue := state.readyqueue.erase next })

/-- Let the current process run on as long as it can. -/
def nonpreemptive (select : State -> List Nat -> Option Nat) (state : State) : Option Nat × State :=
  match state.runnable with
  | some current => (some current, state)
  | none => pickNext select state

/-- Put the current process to the end of the ready queue first. -/
def State.requeue (state : State) : State :=
  match state.runnable with
  | some current => state.addReady current
  | none => state

def preemptive (select : State -> List Nat -> Option Nat) (state : State) : Option Nat × State :=
  pickNext select state.requeue

def fcfsSchedule : State -> Option Nat × State := nonpreemptive fun _ readyqueue => readyqueue.head?

def sjfSchedule : State -> Option Nat × State :=
  nonpreemptive fun state =>
    scan fun pos next => decide ((state.process pos).lifespan < (state.process next).lifespan)

/-- The ticks a process still has to run. -/
def Process.remaining (process : Process) : Nat := Word.sub process.lifespan process.age

def stcfSchedule : State -> Option Nat × State :=
  preemptive fun state =>
    scan fun pos next => decide ((state.process pos).remaining < (state.process next).remaining)

def rrSchedule : State -> Option Nat × State := preemptive fun _ readyqueue => readyqueue.head?

def prioSchedule : State -> Option Nat × State := preemptive highestPrio

/-- One round of the loop of `pa_schedule`: the candidate is replaced by a
process of the same priority too, and the process looked at is promoted. -/
def paRound (walked : Nat × State) (pos : Nat) : Nat × State :=
  (if (walked.2.process walked.1).prio ≤ (walked.2.process pos).prio then pos else walked.1,
    walked.2.setPrio pos (Word.succ (walked.2.process pos).prio))

def paSchedule (state : State) : Option Nat × State :=
  let queued := state.requeue
  match queued.readyqueue with
  | [] => (none, queued)
  | first :: rest =>
      let (next, promoted) := (first :: rest).foldl paRound (first, queued)
      let chosen := promoted.setPrio next (promoted.process next).prioOrig
      (some next, { chosen with readyqueue := chosen.readyqueue.erase next })

/-! ## The schedulers -/

def fcfsScheduler : Scheduler := ⟨fcfsSchedule, fcfsAcquire, fcfsRelease⟩

def sjfScheduler : Scheduler := ⟨sjfSchedule, fcfsAcquire, fcfsRelease⟩

def stcfScheduler : Scheduler := ⟨stcfSchedule, fcfsAcquire, fcfsRelease⟩

def rrScheduler : Scheduler := ⟨rrSchedule, fcfsAcquire, fcfsRelease⟩

def prioScheduler : Scheduler := ⟨prioSchedule, fcfsAcquire, prioRelease⟩

def paScheduler : Scheduler := ⟨paSchedule, fcfsAcquire, prioRelease⟩

def pcpScheduler : Scheduler := ⟨prioSchedule, pcpAcquire, pcpRelease⟩

def pipScheduler : Scheduler := ⟨prioSchedule, pipAcquire, pipRelease⟩

/-- The schedulers of the program. -/
inductive SchedulerName
  | fcfs
  | sjf
  | stcf
  | rr
  | prio
  | pa
  | pcp
  | pip
  deriving DecidableEq

def SchedulerName.scheduler : SchedulerName -> Scheduler
  | .fcfs => fcfsScheduler
  | .sjf => sjfScheduler
  | .stcf => stcfScheduler
  | .rr => rrScheduler
  | .prio => prioScheduler
  | .pa => paScheduler
  | .pcp => pcpScheduler
  | .pip => pipScheduler

end Sched
end OsPa
