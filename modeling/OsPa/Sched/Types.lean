import Mathlib.Logic.Function.Basic
import OsPa.Library.Word

namespace OsPa
namespace Sched

open Library

/-!
# The data of the process scheduler

These are the structures and globals of `process.h`, `resource.h` and
`sched.c`.  A process is named by its position in the script, which stands for
the pointer to it; its `pid` is a number like any other, and two processes may
have the same.  A list head with the processes linked into it is the list of
their names.  The counter `ticks` is a natural number.

What is printed for an event is kept in `stderr`, with the tick at which it
happens.
-/

/-- The number of resources of the system. -/
abbrev nrResources : Nat := 16

/-- The largest value of a priority. -/
def maxPrio : Nat := 64

inductive ProcessStatus
  | ready
  | running
  | blocked
  | exit
  deriving DecidableEq

/-- An entry of the schedule by which a process acquires resources.  While the
resource is held, `duration` counts down. -/
structure ResourceSchedule where
  resourceId : Nat
  at_ : Nat
  duration : Nat
  deriving DecidableEq

structure Process where
  pid : Nat
  status : ProcessStatus
  age : Nat
  lifespan : Nat
  prio : Nat
  prioOrig : Nat
  startsAt : Nat
  resourcesToAcquire : List ResourceSchedule
  resourcesHolding : List ResourceSchedule

/-- A resource.  Without an owner it is free. -/
structure Resource where
  owner : Option Nat
  waitqueue : List Nat

/-- How a step leaves the defined behaviour of the program. -/
inductive Fault
  /-- `resources[]` is indexed at or past `NR_RESOURCES`. -/
  | resourcesOutOfBounds
  /-- A field is read through `current` while it is NULL. -/
  | nullCurrent
  /-- The process that is about to run is attached to a list. -/
  | currentAttached
  /-- A resource is released by another process than its owner. -/
  | notOwner
  /-- A process in a wait queue is not blocked. -/
  | waiterNotBlocked
  /-- A process exits while attached to a list. -/
  | exitAttached
  /-- A process exits while it holds a resource. -/
  | exitHolding
  /-- A process exits before it has acquired all its resources. -/
  | exitPending
  deriving DecidableEq

/-- What the simulator prints, by the process it prints it for. -/
inductive Event
  | forked (process : Nat)
  | exited (process : Nat)
  | blocked (process : Nat) (resourceId : Nat)
  | acquired (process : Nat) (resourceId : Nat)
  | released (process : Nat) (resourceId : Nat)
  | ran (process : Nat)
  | idle
  deriving DecidableEq

structure State where
  process : Nat -> Process
  forkqueue : List Nat
  readyqueue : List Nat
  resources : Fin nrResources -> Resource
  current : Option Nat
  ticks : Nat
  stderr : List (Nat × Event)

/-- The place of a resource in `resources[]`, if there is one. -/
def resourceIndex (resourceId : Nat) : Option (Fin nrResources) :=
  if inside : resourceId < nrResources then some ⟨resourceId, inside⟩ else none

namespace State

/-- Change the record of one process. -/
def modify (state : State) (process : Nat) (change : Process -> Process) : State :=
  { state with process := Function.update state.process process (change (state.process process)) }

def setStatus (state : State) (process : Nat) (status : ProcessStatus) : State :=
  state.modify process fun record => { record with status := status }

def setPrio (state : State) (process : Nat) (prio : Nat) : State :=
  state.modify process fun record => { record with prio := prio }

def setOwner (state : State) (r : Fin nrResources) (owner : Option Nat) : State :=
  { state with resources := Function.update state.resources r { state.resources r with owner := owner } }

def setWaitqueue (state : State) (r : Fin nrResources) (waitqueue : List Nat) : State :=
  { state with resources := Function.update state.resources r { state.resources r with waitqueue := waitqueue } }

/-- `list_add_tail` to the ready queue. -/
def addReady (state : State) (process : Nat) : State :=
  { state with readyqueue := state.readyqueue ++ [process] }

/-- `__print_event` -/
def print (state : State) (event : Event) : State :=
  { state with stderr := state.stderr ++ [(state.ticks, event)] }

/-- The process is linked into some list. -/
def Attached (state : State) (process : Nat) : Prop :=
  process ∈ state.forkqueue ∨ process ∈ state.readyqueue ∨
    Exists fun r => process ∈ (state.resources r).waitqueue

instance (state : State) (process : Nat) : Decidable (state.Attached process) :=
  inferInstanceAs (Decidable (_ ∨ _ ∨ Exists fun r => process ∈ (state.resources r).waitqueue))

end State
end Sched
end OsPa
