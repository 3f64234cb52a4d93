import OsPa.LinkedLists.ListHead
import OsPa.Sched.Framework

namespace OsPa
namespace Sched

open Library LinkedLists

/-!
# The scheduler with its list heads

In `Types` a list head with the processes linked into it is the list of their
names.  Here the functions of `pa2.c` and `sched.c` work on the list heads
themselves: `readyqueue`, `__forkqueue`, the `waitqueue` of each resource and the
member `list` of each process are cells of one `Memory`, and a process is used only
while it is allocated.  `__exit_process` frees it.  The schedules by which a process
acquires and holds resources stay lists.

The loops over lists are run with `fuel`.
-/

/-- The heads of the lists that processes are linked into. -/
inductive Queue
  | forkqueue
  | readyqueue
  | waitqueue (r : Fin nrResources)
  deriving DecidableEq

/-- How a step with list heads leaves the defined behaviour of the program. -/
inductive PointerFault
  | sched (fault : Fault)
  | list (fault : LinkedLists.Fault)
  deriving DecidableEq

structure PointerState where
  process : Nat -> Process
  owner : Fin nrResources -> Option Nat
  memory : Memory Queue Nat
  current : Option Nat
  ticks : Nat
  stderr : List (Nat × Event)

namespace PointerState

/-- Read the record of a process. -/
def read (state : PointerState) (process : Nat) : Except PointerFault Process :=
  if state.memory.live process then .ok (state.process process) else .error (.list .dangling)

/-- Change the record of a process. -/
def modify (state : PointerState) (process : Nat) (change : Process -> Process) : Except PointerFault PointerState :=
  if state.memory.live process then
    .ok { state with process := Function.update state.process process (change (state.process process)) }
  else .error (.list .dangling)

def setStatus (state : PointerState) (process : Nat) (status : ProcessStatus) : Except PointerFault PointerState :=
  state.modify process fun record => { record with status := status }

def setPrio (state : PointerState) (process : Nat) (prio : Nat) : Except PointerFault PointerState :=
  state.modify process fun record => { record with prio := prio }

def setOwner (state : PointerState) (r : Fin nrResources) (owner : Option Nat) : PointerState :=
  { state with owner := Function.update state.owner r owner }

/-- `__print_event` -/
def print (state : PointerState) (event : Event) : PointerState :=
  { state with stderr := state.stderr ++ [(state.ticks, event)] }

def tick (state : PointerState) : PointerState := { state with ticks := state.ticks + 1 }

end PointerState

/-- Do something to the list heads. -/
def onList (change : Memory Queue Nat -> Except LinkedLists.Fault (Memory Queue Nat)) (state : PointerState) :
    Except PointerFault PointerState :=
  match change state.memory with
  | .error fault => .error (.list fault)
  | .ok memory => .ok { state with memory := memory }

/-- Look something up in the list heads. -/
def askList {Answer : Type} (question : Memory Queue Nat -> Except LinkedLists.Fault Answer) (state : PointerState) :
    Except PointerFault Answer :=
  match question state.memory with
  | .error fault => .error (.list fault)
  | .ok answer => .ok answer

structure PointerScheduler where
  schedule : PointerState -> Except PointerFault (Option Nat × PointerState)
  acquire : Nat -> PointerState -> Except PointerFault (Bool × PointerState)
  release : Nat -> PointerState -> Except PointerFault PointerState

namespace Pointers

/-! ## Acquire -/

/-- The common body of the acquire functions, as `Sched.acquireWith`. -/
def acquireWith (take : Nat -> PointerState -> Except PointerFault PointerState)
    (wait : Nat -> Nat -> PointerState -> Except PointerFault PointerState) (resourceId : Nat)
    (state : PointerState) : Except PointerFault (Bool × PointerState) :=
  match resourceIndex resourceId with
  | none => .error (.sched .resourcesOutOfBounds)
  | some r =>
      match state.current with
      | none => .error (.sched .nullCurrent)
      | some current =>
          match state.owner r with
          | none => do
              let taken ← take current (state.setOwner r (some current))
              return (true, taken)
          | some owner => do
              let state ← wait owner current state
              let state ← state.setStatus current .blocked
              let state ← onList (listAddTail (.item current) (.head (.waitqueue r))) state
              return (false, state)

def fcfsAcquire : Nat -> PointerState -> Except PointerFault (Bool × PointerState) :=
  acquireWith (fun _ state => .ok state) (fun _ _ state => .ok state)

def pcpAcquire : Nat -> PointerState -> Except PointerFault (Bool × PointerState) :=
  acquireWith (fun current state => state.setPrio current maxPrio) (fun _ _ state => .ok state)

def pipAcquire : Nat -> PointerState -> Except PointerFault (Bool × PointerState) :=
  acquireWith (fun _ state => .ok state) (fun owner current state => do
    let owning ← state.read owner
    let waiting ← state.read current
    if owning.prio < waiting.prio then state.setPrio owner waiting.prio else .ok state)

/-! ## Walking through a queue -/

/-- The loop that looks through a queue for the best process, with the first one in
hand. -/
def scanQueue (fuel : Nat) (replaces : Process -> Process -> Bool) (queue : Queue) (state : PointerState)
    (first : Nat) : Except PointerFault Nat := do
  let start ← askList (fun memory => memory.next (.head queue)) state
  listForEachEntry .list (fun pos next => do
      let looked ← state.read pos
      let best ← state.read next
      return (false, if replaces looked best then pos else next))
    (.head queue) state.memory fuel start first

/-- A larger priority is better. -/
def largerPrio (pos next : Process) : Bool := decide (next.prio < pos.prio)

/-! ## Release -/

/-- The common body of the release functions, as `Sched.releaseWith`. -/
def releaseWith (restore : Nat -> PointerState -> Except PointerFault PointerState)
    (select : Queue -> PointerState -> Nat -> Except PointerFault Nat) (resourceId : Nat)
    (state : PointerState) : Except PointerFault PointerState :=
  match resourceIndex resourceId with
  | none => .error (.sched .resourcesOutOfBounds)
  | some r =>
      match state.current with
      | none => .error (.sched .nullCurrent)
      | some current =>
          if state.owner r = some current then do
            let restored ← restore current state
            let state := restored.setOwner r none
            let empty ← askList (listEmpty (.head (.waitqueue r))) state
            if empty then return state
            let first ← askList (listFirstEntry (.head (.waitqueue r))) state
            let record ← state.read first
            if record.status = .blocked then
              let waiter ← select (.waitqueue r) state first
              let state ← onList (listDelInit (.item waiter)) state
              let state ← state.setStatus waiter .ready
              onList (listAddTail (.item waiter) (.head .readyqueue)) state
            else throw (.sched .waiterNotBlocked)
          else .error (.sched .notOwner)

def fcfsRelease : Nat -> PointerState -> Except PointerFault PointerState :=
  releaseWith (fun _ state => .ok state) (fun _ _ first => .ok first)

def prioRelease (fuel : Nat) : Nat -> PointerState -> Except PointerFault PointerState :=
  releaseWith (fun _ state => .ok state) (scanQueue fuel largerPrio)

def restorePrio (owner : Nat) (state : PointerState) : Except PointerFault PointerState := do
  let record ← state.read owner
  state.setPrio owner record.prioOrig

def pcpRelease (fuel : Nat) : Nat -> PointerState -> Except PointerFault PointerState :=
  releaseWith restorePrio (scanQueue fuel largerPrio)

def pipRelease (fuel : Nat) : Nat -> PointerState -> Except PointerFault PointerState :=
  releaseWith restorePrio (scanQueue fuel largerPrio)

/-! ## Schedule -/

/-- The current process, unless it is blocked or has completed. -/
def runnable (state : PointerState) : Except PointerFault (Option Nat) :=
  match state.current with
  | none => .ok none
  | some current => do
      let record ← state.read current
      return if record.status ≠ .blocked && record.age < record.lifespan then some current else none

/-- Detach the selected process from the ready queue. -/
def pickNext (select : Queue -> PointerState -> Nat -> Except PointerFault Nat) (state : PointerState) :
    Except PointerFault (Option Nat × PointerState) := do
  let empty ← askList (listEmpty (.head .readyqueue)) state
  if empty then return (none, state)
  let first ← askList (listFirstEntry (.head .readyqueue)) state
  let next ← select .readyqueue state first
  let state ← onList (listDelInit (.item next)) state
  return (some next, state)

def nonpreemptive (select : Queue -> PointerState -> Nat -> Except PointerFault Nat) (state : PointerState) :
    Except PointerFault (Option Nat × PointerState) := do
  match ← runnable state with
  | some current => return (some current, state)
  | none => pickNext select state

/-- Put the current process to the end of the ready queue first. -/
def requeue (state : PointerState) : Except PointerFault PointerState := do
  match ← runnable state with
  | some current => onList (listAddTail (.item current) (.head .readyqueue)) state
  | none => return state

def preemptive (select : Queue -> PointerState -> Nat -> Except PointerFault Nat) (state : PointerState) :
    Except PointerFault (Option Nat × PointerState) := do
  let queued ← requeue state
  pickNext select queued

def fcfsSchedule : PointerState -> Except PointerFault (Option Nat × PointerState) :=
  nonpreemptive fun _ _ first => .ok first

def sjfSchedule (fuel : Nat) : PointerState -> Except PointerFault (Option Nat × PointerState) :=
  nonpreemptive (scanQueue fuel fun pos next => decide (pos.lifespan < next.lifespan))

def stcfSchedule (fuel : Nat) : PointerState -> Except PointerFault (Option Nat × PointerState) :=
  preemptive (scanQueue fuel fun pos next => decide (pos.remaining < next.remaining))

def rrSchedule : PointerState -> Except PointerFault (Option Nat × PointerState) :=
  preemptive fun _ _ first => .ok first

def prioSchedule (fuel : Nat) : PointerState -> Except PointerFault (Option Nat × PointerState) :=
  preemptive (scanQueue fuel largerPrio)

/-- The loop of `pa_schedule`, which promotes the processes that it passes. -/
def paLoop (fuel : Nat) (state : PointerState) (first : Nat) : Except PointerFault (Nat × PointerState) := do
  let start ← askList (fun memory => memory.next (.head .readyqueue)) state
  listForEachEntry .list (fun pos walked => do
      let best ← walked.2.read walked.1
      let looked ← walked.2.read pos
      let promoted ← walked.2.setPrio pos (Word.succ looked.prio)
      return (false, if best.prio ≤ looked.prio then pos else walked.1, promoted))
    (.head .readyqueue) state.memory fuel start (first, state)

def paSchedule (fuel : Nat) (state : PointerState) : Except PointerFault (Option Nat × PointerState) := do
  let queued ← requeue state
  let empty ← askList (listEmpty (.head .readyqueue)) queued
  if empty then return (none, queued)
  let first ← askList (listFirstEntry (.head .readyqueue)) queued
  let (next, promoted) ← paLoop fuel queued first
  let record ← promoted.read next
  let chosen ← promoted.setPrio next record.prioOrig
  let detached ← onList (listDelInit (.item next)) chosen
  return (some next, detached)

/-! ## The schedulers -/

def scheduler (fuel : Nat) : SchedulerName -> PointerScheduler
  | .fcfs => ⟨fcfsSchedule, fcfsAcquire, fcfsRelease⟩
  | .sjf => ⟨sjfSchedule fuel, fcfsAcquire, fcfsRelease⟩
  | .stcf => ⟨stcfSchedule fuel, fcfsAcquire, fcfsRelease⟩
  | .rr => ⟨rrSchedule, fcfsAcquire, fcfsRelease⟩
  | .prio => ⟨prioSchedule fuel, fcfsAcquire, prioRelease fuel⟩
  | .pa => ⟨paSchedule fuel, fcfsAcquire, prioRelease fuel⟩
  | .pcp => ⟨prioSchedule fuel, pcpAcquire, pcpRelease fuel⟩
  | .pip => ⟨prioSchedule fuel, pipAcquire, pipRelease fuel⟩

/-! ## The start of the program -/

/-- `__initialize` -/
def initializeQueues (memory : Memory Queue Nat) : Except LinkedLists.Fault (Memory Queue Nat) := do
  let memory ← initListHead (.head .readyqueue) memory
  let memory ← (List.finRange nrResources).foldlM (fun memory r => initListHead (.head (.waitqueue r)) memory) memory
  initListHead (.head .forkqueue) memory

/-- The parts of `__load_script` that allocate a process and put it into the fork
queue. -/
def loadProcess (memory : Memory Queue Nat) (process : Nat) : Except LinkedLists.Fault (Memory Queue Nat) := do
  let memory ← initListHead (.item process) (memory.allocate process)
  listAddTail (.item process) (.head .forkqueue) memory

/-- The system after `__load_script`.  At first no process is allocated and the links
may be any. -/
def load (script : Script) (links : Links (Cell Queue Nat)) : Except PointerFault PointerState := do
  let initially : PointerState :=
    { process := fun process => (script.description process).load
      owner := fun _ => none
      memory := ⟨links, fun _ => false⟩
      current := none
      ticks := 0
      stderr := [] }
  let initialized ← onList initializeQueues initially
  onList (fun memory => (List.range script.length).foldlM loadProcess memory) initialized

/-! ## The simulation loop -/

/-- The body of the loop that forks processes. -/
def forkProcess (process : Nat) (state : PointerState) : Except PointerFault PointerState := do
  let record ← state.read process
  if record.startsAt ≤ state.ticks then
    let state ← onList (listMoveTail (.item process) (.head .readyqueue)) state
    let state ← state.setStatus process .ready
    return state.print (.forked process)
  else return state

/-- `list_for_each_entry_safe` over the fork queue.  The cell behind `pos` is read
before its body runs. -/
def forkLoop : Nat -> Cell Queue Nat -> Cell Queue Nat -> PointerState -> Except PointerFault PointerState
  | 0, _, _, _ => .error (.list .endless)
  | fuel + 1, pos, tmp, state =>
      if pos = .head .forkqueue then .ok state
      else
        match listEntry pos with
        | .error fault => .error (.list fault)
        | .ok process => do
            let state ← forkProcess process state
            let next ← askList (fun memory => memory.next tmp) state
            forkLoop fuel tmp next state

/-- `__fork_on_schedule` -/
def forkOnSchedule (fuel : Nat) (state : PointerState) : Except PointerFault PointerState := do
  let pos ← askList (fun memory => memory.next (.head .forkqueue)) state
  let tmp ← askList (fun memory => memory.next pos) state
  forkLoop fuel pos tmp state

/-- `__exit_process` -/
def exitProcess (process : Nat) (state : PointerState) : Except PointerFault PointerState := do
  let detached ← askList (listEmpty (.item process)) state
  if detached = false then throw (.sched .exitAttached)
  let record ← state.read process
  if record.resourcesHolding ≠ [] then throw (.sched .exitHolding)
  if record.resourcesToAcquire ≠ [] then throw (.sched .exitPending)
  onList (fun memory => memory.free process) (state.print (.exited process))

/-- `__run_current_acquire`, from the entry that the loop has come to. -/
def runCurrentAcquire (sched : PointerScheduler) (current : Nat) (kept : List ResourceSchedule) :
    List ResourceSchedule -> PointerState -> Except PointerFault (Bool × PointerState)
  | [], state => .ok (true, state)
  | rs :: todo, state => do
      let record ← state.read current
      if rs.at_ = record.age then
        let (granted, state) ← sched.acquire rs.resourceId state
        if granted then
          let state ← state.modify current fun process =>
            { process with
              resourcesToAcquire := kept ++ todo
              resourcesHolding := process.resourcesHolding ++ [rs] }
          runCurrentAcquire sched current kept todo (state.print (.acquired current rs.resourceId))
        else return (false, state.print (.blocked current rs.resourceId))
      else runCurrentAcquire sched current (kept ++ [rs]) todo state

/-- `__run_current_release`, from the entry that the loop has come to. -/
def runCurrentRelease (sched : PointerScheduler) (current : Nat) (kept : List ResourceSchedule) :
    List ResourceSchedule -> PointerState -> Except PointerFault PointerState
  | [], state => .ok state
  | rs :: todo, state => do
      let left := { rs with duration := Word.pred rs.duration }
      let counted ← state.modify current fun process => { process with resourcesHolding := kept ++ left :: todo }
      if left.duration ≠ 0 then runCurrentRelease sched current (kept ++ [left]) todo counted
      else
        let released ← sched.release rs.resourceId counted
        let state ← (released.print (.released current rs.resourceId)).modify current fun process =>
          { process with resourcesHolding := kept ++ todo }
        runCurrentRelease sched current kept todo state

/-- What happens to the process that ran in the previous tick, once the next one has
been chosen. -/
def retire (prev : Option Nat) (state : PointerState) : Except PointerFault PointerState :=
  match prev with
  | none => .ok state
  | some process => do
      let record ← state.read process
      let state ← if record.status = .running then state.setStatus process .ready else .ok state
      let record ← state.read process
      if record.age = record.lifespan then
        let state ← state.setStatus process .exit
        exitProcess process state
      else return state

/-- Execute the current process for a tick. -/
def execute (sched : PointerScheduler) (current : Nat) (state : PointerState) :
    Except PointerFault PointerState := do
  let state ← state.setStatus current .running
  let detached ← askList (listEmpty (.item current)) state
  if detached = false then throw (.sched .currentAttached)
  let record ← state.read current
  let (granted, state) ← runCurrentAcquire sched current [] record.resourcesToAcquire state
  if granted then
    let aged ← (state.print (.ran current)).modify current fun process => { process with age := process.age + 1 }
    let record ← aged.read current
    runCurrentRelease sched current [] record.resourcesHolding aged
  else return state

/-- One round of the loop of `__do_simulation`, and whether it is left. -/
def iteration (fuel : Nat) (sched : PointerScheduler) (state : PointerState) :
    Except PointerFault (Bool × PointerState) := do
  let forked ← forkOnSchedule fuel state
  let (next, scheduled) ← sched.schedule forked
  let updated ← retire forked.current { scheduled with current := next }
  match next with
  | none =>
      let ready ← askList (listEmpty (.head .readyqueue)) updated
      let forks ← askList (listEmpty (.head .forkqueue)) updated
      if ready && forks then return (true, updated)
      else return (false, (updated.print .idle).tick)
  | some current =>
      let executed ← execute sched current updated
      return (false, executed.tick)

/-- `__do_simulation` with list heads. -/
def simulation (fuel : Nat) (name : SchedulerName) : Machine Unit PointerState Bool PointerFault where
  step := fun _ => iteration fuel (scheduler fuel name)
  stops := id

end Pointers
end Sched
end OsPa
