import OsPa.Library.Machine
import OsPa.Sched.Pa2

namespace OsPa
namespace Sched

open Library

/-!
# The simulation loop

The functions of `sched.c` that run a script.  One round of the loop is
`iteration`, and the loop is a `Machine` that reads nothing and says in each
round whether it is left.

`list_for_each_entry_safe` walks along a list whose entries are unlinked or
changed on the way.  The entries it has passed and left in the list are `kept`,
those in front of it are `todo`, and the list in between is `kept ++ todo`.
-/

/-- The body of the loop that forks processes. -/
def forkProcess (state : State) (process : Nat) : State :=
  if (state.process process).startsAt ≤ state.ticks then
    (({ state with
        forkqueue := state.forkqueue.erase process
        readyqueue := state.readyqueue ++ [process] } : State).setStatus process .ready).print (.forked process)
  else state

/-- `__fork_on_schedule` -/
def forkOnSchedule (state : State) : State := state.forkqueue.foldl forkProcess state

/-- `__exit_process` -/
def exitProcess (process : Nat) (state : State) : Except Fault State :=
  if state.Attached process then .error .exitAttached
  else if (state.process process).resourcesHolding ≠ [] then .error .exitHolding
  else if (state.process process).resourcesToAcquire ≠ [] then .error .exitPending
  else .ok (state.print (.exited process))

/-- `__run_current_acquire`, from the entry that the loop has come to. -/
def runCurrentAcquire (sched : Scheduler) (current : Nat) (kept : List ResourceSchedule) :
    List ResourceSchedule -> State -> Except Fault (Bool × State)
  | [], state => .ok (true, state)
  | rs :: todo, state =>
      if rs.at_ = (state.process current).age then
        match sched.acquire rs.resourceId state with
        | .error fault => .error fault
        | .ok (false, refused) => .ok (false, refused.print (.blocked current rs.resourceId))
        | .ok (true, granted) =>
            runCurrentAcquire sched current kept todo
              ((granted.modify current fun process =>
                { process with
                  resourcesToAcquire := kept ++ todo
                  resourcesHolding := process.resourcesHolding ++ [rs] }).print (.acquired current rs.resourceId))
      else runCurrentAcquire sched current (kept ++ [rs]) todo state

/-- `__run_current_release`, from the entry that the loop has come to. -/
def runCurrentRelease (sched : Scheduler) (current : Nat) (kept : List ResourceSchedule) :
    List ResourceSchedule -> State -> Except Fault State
  | [], state => .ok state
  | rs :: todo, state =>
      let left := { rs with duration := Word.pred rs.duration }
      let counted := state.modify current fun process =>
        { process with resourcesHolding := kept ++ left :: todo }
      if left.duration ≠ 0 then runCurrentRelease sched current (kept ++ [left]) todo counted
      else
        match sched.release rs.resourceId counted with
        | .error fault => .error fault
        | .ok released =>
            runCurrentRelease sched current kept todo
              ((released.print (.released current rs.resourceId)).modify current fun process =>
                { process with resourcesHolding := kept ++ todo })

/-- What happens to the process that ran in the previous tick, once the next
one has been chosen. -/
def retire (prev : Option Nat) (state : State) : Except Fault State :=
  match prev with
  | none => .ok state
  | some process =>
      let updated :=
        if (state.process process).status = .running then state.setStatus process .ready else state
      if (updated.process process).age = (updated.process process).lifespan then
        exitProcess process (updated.setStatus process .exit)
      else .ok updated

/-- Execute the current process for a tick. -/
def execute (sched : Scheduler) (current : Nat) (state : State) : Except Fault State :=
  let running := state.setStatus current .running
  if running.Attached current then .error .currentAttached
  else
    match runCurrentAcquire sched current [] (running.process current).resourcesToAcquire running with
    | .error fault => .error fault
    | .ok (false, refused) => .ok refused
    | .ok (true, granted) =>
        let aged := (granted.print (.ran current)).modify current fun process =>
          { process with age := process.age + 1 }
        runCurrentRelease sched current [] (aged.process current).resourcesHolding aged

def State.tick (state : State) : State := { state with ticks := state.ticks + 1 }

/-- One round of the loop of `__do_simulation`, and whether it is left. -/
def iteration (sched : Scheduler) (state : State) : Except Fault (Bool × State) :=
  let forked := forkOnSchedule state
  let (next, scheduled) := sched.schedule forked
  match retire forked.current { scheduled with current := next } with
  | .error fault => .error fault
  | .ok updated =>
      match next with
      | none =>
          if updated.readyqueue = [] ∧ updated.forkqueue = [] then .ok (true, updated)
          else .ok (false, (updated.print .idle).tick)
      | some current =>
          match execute sched current updated with
          | .error fault => .error fault
          | .ok executed => .ok (false, executed.tick)

/-- `__do_simulation`.  The number of inputs bounds the number of rounds. -/
def simulation (sched : Scheduler) : Machine Unit State Bool Fault where
  step := fun _ => iteration sched
  stops := id

/-! ## Scripts -/

/-- The description of a process in a script. -/
structure Description where
  pid : Nat
  lifespan : Nat
  prio : Nat
  startsAt : Nat
  acquires : List ResourceSchedule
  deriving DecidableEq

/-- The process that a description is loaded into. -/
def Description.load (description : Description) : Process where
  pid := description.pid
  status := .ready
  age := 0
  lifespan := description.lifespan
  prio := description.prio
  prioOrig := description.prio
  startsAt := description.startsAt
  resourcesToAcquire := description.acquires
  resourcesHolding := []

/-- The processes of a script in their order. -/
abbrev Script := List Description

/-- The description of a process.  There is none outside the script. -/
def Script.description (script : Script) (process : Nat) : Description :=
  script.getD process ⟨0, 0, 0, 0, []⟩

/-- The system after `__load_script`. -/
def Script.initial (script : Script) : State where
  process := fun process => (script.description process).load
  forkqueue := List.range script.length
  readyqueue := []
  resources := fun _ => ⟨none, []⟩
  current := none
  ticks := 0
  stderr := []

/-- The lifespans and acquires of the script make sense. -/
structure Description.Valid (description : Description) : Prop where
  lifespan : 1 ≤ description.lifespan
  resourceId : forall rs, rs ∈ description.acquires -> rs.resourceId < nrResources
  duration : forall rs, rs ∈ description.acquires -> 1 ≤ rs.duration
  within : forall rs, rs ∈ description.acquires -> rs.at_ + rs.duration ≤ description.lifespan

instance (description : Description) : Decidable description.Valid :=
  decidable_of_iff
    (1 ≤ description.lifespan ∧ (forall rs, rs ∈ description.acquires -> rs.resourceId < nrResources) ∧
      (forall rs, rs ∈ description.acquires -> 1 ≤ rs.duration) ∧
        forall rs, rs ∈ description.acquires -> rs.at_ + rs.duration ≤ description.lifespan)
    ⟨fun valid => ⟨valid.1, valid.2.1, valid.2.2.1, valid.2.2.2⟩,
      fun valid => ⟨valid.lifespan, valid.resourceId, valid.duration, valid.within⟩⟩

def Script.Valid (script : Script) : Prop := forall description, description ∈ script -> description.Valid

instance (script : Script) : Decidable script.Valid :=
  inferInstanceAs (Decidable (forall description, description ∈ script -> description.Valid))

/-- The state that a number of rounds leads to.  The loop has been left in the
last of them, or goes on. -/
def Simulates (sched : Scheduler) (script : Script) (rounds : Nat) (left : Bool) (state : State) : Prop :=
  Exists fun outputs => (simulation sched).run (List.replicate rounds ()) script.initial = .ok (outputs, state) ∧
    outputs.any id = left

end Sched
end OsPa
