import OsPa.Library.Locks
import OsPa.Library.Placement
import OsPa.Sched.Policy
import Mathlib.Data.List.Count
import Mathlib.Data.List.Perm.Subperm

namespace OsPa
namespace Sched

open Library

/-!
# What holds while a script runs

The invariant has four parts.  `Placed` says where processes are, `Owned` that
the owners of resources agree with the lists of what processes hold, `Punctual`
that acquires and releases of a process happen at the ages its script gives,
and the last part that a resource is attended while processes wait for it.

A process that runs is in no list.  The invariant knows it as the `detached`
one, and leaves its punctuality to the loops that change it.  Priorities, the
clock and what has been printed do not matter.
-/

/-! ## Views of a state -/

namespace State

def owner (state : State) (r : Fin nrResources) : Option Nat := (state.resources r).owner

def waitqueue (state : State) (r : Fin nrResources) : List Nat := (state.resources r).waitqueue

@[simp] theorem owner_setOwner (state : State) (r : Fin nrResources) (owner : Option Nat) :
    (state.setOwner r owner).owner = Function.update state.owner r owner := by
  funext other
  by_cases same : other = r
  · subst other
    simp only [State.owner, setOwner, Function.update_self]
  · simp only [State.owner, setOwner, Function.update_of_ne same]

@[simp] theorem waitqueue_setOwner (state : State) (r : Fin nrResources) (owner : Option Nat) :
    (state.setOwner r owner).waitqueue = state.waitqueue := by
  funext other
  by_cases same : other = r
  · subst other
    simp only [waitqueue, setOwner, Function.update_self]
  · simp only [waitqueue, setOwner, Function.update_of_ne same]

@[simp] theorem owner_setWaitqueue (state : State) (r : Fin nrResources) (waitqueue : List Nat) :
    (state.setWaitqueue r waitqueue).owner = state.owner := by
  funext other
  by_cases same : other = r
  · subst other
    simp only [owner, setWaitqueue, Function.update_self]
  · simp only [owner, setWaitqueue, Function.update_of_ne same]

@[simp] theorem waitqueue_setWaitqueue (state : State) (r : Fin nrResources) (waitqueue : List Nat) :
    (state.setWaitqueue r waitqueue).waitqueue = Function.update state.waitqueue r waitqueue := by
  funext other
  by_cases same : other = r
  · subst other
    simp only [State.waitqueue, setWaitqueue, Function.update_self]
  · simp only [State.waitqueue, setWaitqueue, Function.update_of_ne same]

@[simp] theorem process_modify_self (state : State) (process : Nat) (change : Process -> Process) :
    (state.modify process change).process process = change (state.process process) := Function.update_self ..

theorem process_modify_of_ne (state : State) {process other : Nat} (different : other ≠ process)
    (change : Process -> Process) : (state.modify process change).process other = state.process other :=
  Function.update_of_ne different ..

/-- A field that the change of a process leaves alone. -/
theorem field_modify {Field : Type} {field : Process -> Field} (state : State) (process : Nat)
    (change : Process -> Process) (keeps : forall record, field (change record) = field record) (other : Nat) :
    field ((state.modify process change).process other) = field (state.process other) := by
  by_cases same : other = process
  · subst other
    rw [process_modify_self]
    exact keeps _
  · rw [state.process_modify_of_ne same]

/-- How often a process is linked into lists. -/
def queued (state : State) (process : Nat) : Nat :=
  state.forkqueue.count process + state.readyqueue.count process + copies state.waitqueue process

theorem attached_iff {state : State} {process : Nat} : state.Attached process ↔ 0 < state.queued process := by
  have waits : (Exists fun r => process ∈ (state.resources r).waitqueue) ↔ 0 < copies state.waitqueue process :=
    copies_pos.symm
  have forks : 0 < state.forkqueue.count process ↔ process ∈ state.forkqueue := List.count_pos_iff
  have readies : 0 < state.readyqueue.count process ↔ process ∈ state.readyqueue := List.count_pos_iff
  unfold Attached queued
  rw [waits, ← forks, ← readies]
  omega

/-- The current process, while it runs. -/
def running (state : State) : Option Nat :=
  state.current.filter fun current => (state.process current).status = .running

end State

/-! ## Acquires -/

/-- The resource of the first entry that is due at an age. -/
def due (age : Nat) (entries : List ResourceSchedule) : Option Nat :=
  (entries.find? fun rs => rs.at_ = age).map ResourceSchedule.resourceId

/-- The resource that a process asks for first when it runs. -/
def Process.firstDue (process : Process) : Option Nat := due process.age process.resourcesToAcquire

/-- The entry of the script that is left of after some time of holding. -/
def ResourceSchedule.restore (age : Nat) (held : ResourceSchedule) : ResourceSchedule :=
  { held with duration := age + held.duration - held.at_ }

/-- What a process of some age holds and still has to acquire is in its script.
It has acquired what was due before. -/
structure Punctual (acquires : List ResourceSchedule) (age : Nat) (held pending : List ResourceSchedule) : Prop where
  entries : (held.map (ResourceSchedule.restore age) ++ pending).Subperm acquires
  held : forall rs, rs ∈ held -> rs.at_ ≤ age ∧ 1 ≤ rs.duration
  pending : forall rs, rs ∈ pending -> age ≤ rs.at_

/-- How often a process holds a resource. -/
def Process.holds (process : Process) (r : Fin nrResources) : Nat :=
  process.resourcesHolding.countP fun rs => rs.resourceId = r.val

/-! ## The invariant -/

structure Placed (script : Script) (detached : Option Nat) (state : State) : Prop where
  lifespan : forall process, (state.process process).lifespan = (script.description process).lifespan
  once : forall process,
    state.queued process + (if detached = some process then 1 else 0) +
      (if (state.process process).status = .exit then 1 else 0) = if process < script.length then 1 else 0
  forking : forall process, process ∈ state.forkqueue ->
    (state.process process).age < (state.process process).lifespan
  ready : forall process, process ∈ state.readyqueue ->
    (state.process process).status = .ready ∧ (state.process process).age < (state.process process).lifespan
  waiting : forall r process, process ∈ state.waitqueue r ->
    (state.process process).status = .blocked ∧
      (state.process process).age < (state.process process).lifespan ∧
        (state.process process).firstDue = some r.val
  exited : forall process, (state.process process).status = .exit ->
    (state.process process).age = (state.process process).lifespan

/-- A process holds the resources it owns, and each of them once. -/
def Owned (state : State) : Prop :=
  forall r process, (state.process process).holds r = if state.owner r = some process then 1 else 0

/-- Resources as locks.  Ready processes retry the resource that is due, and so
does the detached process while there is one that is `next`. -/
def State.locks (state : State) (detached next : Option Nat) : Locks Nat (Fin nrResources) where
  owner := state.owner
  waits := fun process r => process ∈ state.waitqueue r
  retries := fun process r =>
    (process ∈ state.readyqueue ∧ (state.process process).firstDue = some r.val) ∨
      (detached = some process ∧ next = some r.val)

structure Invariant (script : Script) (detached next : Option Nat) (state : State) : Prop where
  placed : Placed script detached state
  owned : Owned state
  punctual : forall process, detached ≠ some process ->
    Punctual (script.description process).acquires (state.process process).age
      (state.process process).resourcesHolding (state.process process).resourcesToAcquire
  attended : (state.locks detached next).Attended

/-- What holds whenever a round of the loop begins. -/
structure Between (script : Script) (state : State) : Prop where
  invariant : Invariant script state.running none state
  current : forall current, state.current = some current ->
    (state.process current).status = .running ∨ Exists fun r => current ∈ state.waitqueue r
  running : forall current, state.running = some current ->
    (state.process current).age ≤ (state.process current).lifespan ∧
      Punctual (script.description current).acquires (state.process current).age
        (state.process current).resourcesHolding (state.process current).resourcesToAcquire

/-! ## What the invariant does not read -/

/-- The same state with other priorities, another current process, another
clock and another output. -/
def State.besides (state : State) (prio : Nat -> Nat) (current : Option Nat) (ticks : Nat)
    (stderr : List (Nat × Event)) : State :=
  { state.reprioritized prio with current := current, ticks := ticks, stderr := stderr }

section Besides

variable {script : Script} {detached next : Option Nat} {state : State} {prio : Nat -> Nat} {current : Option Nat}
  {ticks : Nat} {stderr : List (Nat × Event)}

theorem Placed.besides (placed : Placed script detached state) :
    Placed script detached (state.besides prio current ticks stderr) :=
  ⟨placed.lifespan, placed.once, placed.forking, placed.ready, placed.waiting, placed.exited⟩

theorem Invariant.besides (invariant : Invariant script detached next state) :
    Invariant script detached next (state.besides prio current ticks stderr) :=
  ⟨invariant.placed.besides, invariant.owned, invariant.punctual, invariant.attended⟩

end Besides

/-! ## Punctuality -/

namespace Punctual

variable {acquires held pending : List ResourceSchedule} {age lifespan : Nat}

/-- A held entry is left of one in the script. -/
theorem restore_mem (punctual : Punctual acquires age held pending) {rs : ResourceSchedule} (member : rs ∈ held) :
    rs.restore age ∈ acquires :=
  punctual.entries.subset (List.mem_append_left _ (List.mem_map_of_mem member))

theorem pending_mem (punctual : Punctual acquires age held pending) {rs : ResourceSchedule}
    (member : rs ∈ pending) : rs ∈ acquires :=
  punctual.entries.subset (List.mem_append_right _ member)

/-- A process with something to release or to acquire still has to run. -/
theorem held_young {description : Description} (valid : description.Valid)
    (punctual : Punctual description.acquires age held pending) {rs : ResourceSchedule} (member : rs ∈ held) :
    age < description.lifespan := by
  have within := valid.within _ (punctual.restore_mem member)
  have begun := punctual.held rs member
  dsimp only [ResourceSchedule.restore] at within
  omega

private theorem pending_young {description : Description} (valid : description.Valid)
    (punctual : Punctual description.acquires age held pending) {rs : ResourceSchedule} (member : rs ∈ pending) :
    age < description.lifespan := by
  have within := valid.within _ (punctual.pending_mem member)
  have lasting := valid.duration _ (punctual.pending_mem member)
  have ahead := punctual.pending rs member
  omega

/-- At the end of its life a process holds nothing and has nothing to acquire. -/
theorem completed {description : Description} (valid : description.Valid)
    (punctual : Punctual description.acquires description.lifespan held pending) : held = [] ∧ pending = [] := by
  constructor
  · apply List.eq_nil_iff_forall_not_mem.mpr
    intro rs member
    exact Nat.lt_irrefl _ (punctual.held_young valid member)
  · apply List.eq_nil_iff_forall_not_mem.mpr
    intro rs member
    exact Nat.lt_irrefl _ (punctual.pending_young valid member)

end Punctual

/-! ## Consequences of the placement -/

namespace Placed

variable {script : Script} {detached : Option Nat} {state : State}

theorem lt_length (placed : Placed script detached state) {process : Nat} (found : 0 < state.queued process) :
    process < script.length := by
  have once := placed.once process
  by_contra outside
  rw [if_neg outside] at once
  omega

/-- A process in a list is not the detached one and has not exited. -/
theorem of_queued (placed : Placed script detached state) {process : Nat} (found : 0 < state.queued process) :
    detached ≠ some process ∧ (state.process process).status ≠ .exit ∧ state.queued process = 1 := by
  have once := placed.once process
  rw [if_pos (placed.lt_length found)] at once
  refine ⟨?_, ?_, ?_⟩
  · intro same
    rw [if_pos same] at once
    omega
  · intro same
    rw [if_pos same] at once
    omega
  · omega

/-- The detached process is in no list. -/
theorem of_detached {process : Nat} (placed : Placed script (some process) state) :
    process < script.length ∧ state.queued process = 0 ∧ (state.process process).status ≠ .exit := by
  have once := placed.once process
  rw [if_pos rfl] at once
  have inside : process < script.length := by
    by_contra outside
    rw [if_neg outside] at once
    omega
  rw [if_pos inside] at once
  refine ⟨inside, by omega, ?_⟩
  intro same
  rw [if_pos same] at once
  omega

/-- A process in a list is another one than the detached one. -/
theorem ne_of_queued {process other : Nat} (placed : Placed script (some process) state)
    (found : 0 < state.queued other) : other ≠ process := by
  rintro rfl
  exact (placed.of_queued found).1 rfl

end Placed

theorem State.running_eq_some {state : State} {process : Nat} :
    state.running = some process ↔
      state.current = some process ∧ (state.process process).status = .running := by
  unfold State.running
  rw [Option.filter_eq_some_iff, decide_eq_true_iff]

/-- Nobody runs without a current process, or while it is blocked. -/
theorem State.running_eq_none {state : State}
    (blocked : forall process, state.current = some process -> (state.process process).status = .blocked) :
    state.running = none := by
  apply Option.eq_none_iff_forall_ne_some.mpr
  intro process runs
  rcases State.running_eq_some.mp runs with ⟨isCurrent, running⟩
  exact ProcessStatus.noConfusion ((blocked process isCurrent).symm.trans running)

/-- The process that runs is known by what it was. -/
theorem State.running_congr {state after : State} (sameCurrent : after.current = state.current)
    (status : forall current, state.current = some current ->
      (after.process current).status = (state.process current).status) :
    after.running = state.running := by
  ext other
  rw [State.running_eq_some, State.running_eq_some, sameCurrent]
  constructor
  · rintro ⟨isCurrent, runs⟩
    exact ⟨isCurrent, (status other isCurrent).symm.trans runs⟩
  · rintro ⟨isCurrent, runs⟩
    exact ⟨isCurrent, (status other isCurrent).trans runs⟩

theorem State.queued_of_ready {state : State} {process : Nat} (member : process ∈ state.readyqueue) :
    0 < state.queued process := by
  have positive := List.count_pos_iff.mpr member
  unfold State.queued
  omega

theorem State.queued_of_forking {state : State} {process : Nat} (member : process ∈ state.forkqueue) :
    0 < state.queued process := by
  have positive := List.count_pos_iff.mpr member
  unfold State.queued
  omega

theorem State.queued_of_waiting {state : State} {r : Fin nrResources} {process : Nat}
    (member : process ∈ state.waitqueue r) : 0 < state.queued process := by
  have positive := copies_pos.mpr ⟨r, member⟩
  unfold State.queued
  omega

section Forking

variable {script : Script} {detached : Option Nat} {state : State} {process : Nat}

/-- A process in the fork queue is in no other list. -/
theorem Placed.not_ready (placed : Placed script detached state) (member : process ∈ state.forkqueue) :
    process ∉ state.readyqueue := by
  intro ready
  have once := (placed.of_queued (State.queued_of_forking member)).2.2
  have forks := List.count_pos_iff.mpr member
  have queued := List.count_pos_iff.mpr ready
  unfold State.queued at once
  omega

theorem Placed.not_waiting (placed : Placed script detached state) (member : process ∈ state.forkqueue)
    (r : Fin nrResources) : process ∉ state.waitqueue r := by
  intro waits
  have once := (placed.of_queued (State.queued_of_forking member)).2.2
  have forks := List.count_pos_iff.mpr member
  have queued : 0 < copies state.waitqueue process := copies_pos.mpr ⟨r, waits⟩
  unfold State.queued at once
  omega

/-- A process in a wait queue is not ready. -/
theorem Placed.waiting_not_ready (placed : Placed script detached state) {r : Fin nrResources}
    (member : process ∈ state.waitqueue r) : process ∉ state.readyqueue := by
  intro ready
  have once := (placed.of_queued (State.queued_of_waiting member)).2.2
  have readies := List.count_pos_iff.mpr ready
  have waits : 0 < copies state.waitqueue process := copies_pos.mpr ⟨r, member⟩
  unfold State.queued at once
  omega

end Forking

/-- What holds of a script's descriptions holds of the description of a
process. -/
theorem Script.description_mem {script : Script} {process : Nat} (inside : process < script.length) :
    script.description process ∈ script := by
  unfold Script.description
  rw [List.getD_eq_getElem?_getD, List.getElem?_eq_getElem inside, Option.getD_some]
  exact List.getElem_mem inside

/-- A process that is not in the script has an empty description. -/
theorem Script.description_absent {script : Script} {process : Nat} (outside : ¬ process < script.length) :
    script.description process = ⟨0, 0, 0, 0, []⟩ := by
  unfold Script.description
  rw [List.getD_eq_getElem?_getD, List.getElem?_eq_none (Nat.le_of_not_lt outside), Option.getD_none]

theorem Script.description_acquires {script : Script}
    (none : forall description, description ∈ script -> description.acquires = []) (process : Nat) :
    (script.description process).acquires = [] := by
  by_cases inside : process < script.length
  · exact none _ (Script.description_mem inside)
  · rw [Script.description_absent inside]

theorem Script.Valid.description {script : Script} (valid : script.Valid) {process : Nat}
    (inside : process < script.length) : (script.description process).Valid :=
  valid _ (Script.description_mem inside)

end Sched
end OsPa
