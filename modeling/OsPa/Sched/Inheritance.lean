import OsPa.Sched.Chains

namespace OsPa
namespace Sched

open Library

/-!
# Priority inheritance

An owner should have the largest priority among its own original one and those of the
processes that wait for what it owns.  `pip_release` restores the original
priority whatever else is owned, so that this fails when a process of larger
priority waits for another resource of the releasing process, and only then.
-/

/-- The priorities that a process has to keep up with. -/
def State.demands (state : State) (process : Nat) : Set Nat :=
  insert (state.process process).prioOrig
    {prio | Exists fun r => Exists fun waiter => state.owner r = some process ∧ waiter ∈ state.waitqueue r ∧
      (state.process waiter).prio = prio}

section Inherit

variable {state after : State} {resourceId current : Nat}

@[simp] theorem State.setPrio_process_self (state : State) (process prio : Nat) :
    (state.setPrio process prio).process process = { state.process process with prio := prio } :=
  Function.update_self ..

theorem State.setPrio_process_of_ne (state : State) {process other : Nat} (different : other ≠ process) (prio : Nat) :
    (state.setPrio process prio).process other = state.process other :=
  Function.update_of_ne different ..

/-- The effect of `pip_release` on what inheritance depends on. -/
structure Restored (state : State) (current : Nat) (r : Fin nrResources) (after : State) : Prop where
  prioOrig : (after.process current).prioOrig = (state.process current).prioOrig
  restored : (after.process current).prio = (state.process current).prioOrig
  others : forall process, process ≠ current -> (after.process process).prio = (state.process process).prio
  owner : after.owner = Function.update state.owner r none
  waitqueue : forall other, other ≠ r -> after.waitqueue other = state.waitqueue other

theorem restorePrio_restored (state : State) (current : Nat) (r : Fin nrResources) :
    Restored state current r ((restorePrio current state).setOwner r none) := by
  have itself : ((restorePrio current state).setOwner r none).process current =
      { state.process current with prio := (state.process current).prioOrig } :=
    state.setPrio_process_self current (state.process current).prioOrig
  constructor
  case prioOrig => rw [itself]
  case restored => rw [itself]
  case others =>
    intro process different
    exact congrArg Process.prio (state.setPrio_process_of_ne different (state.process current).prioOrig)
  case owner => exact (restorePrio current state).owner_setOwner r none
  case waitqueue =>
    intro other _
    exact congrFun ((restorePrio current state).waitqueue_setOwner r none) other

private theorem Restored.wake {r : Fin nrResources} (restored : Restored state current r after) (waiter : Nat) :
    Restored state current r (after.wake r waiter) := by
  have fields := after.wake_process r waiter
  constructor
  case prioOrig => exact (congrArg Process.prioOrig (fields current)).trans restored.prioOrig
  case restored => exact (congrArg Process.prio (fields current)).trans restored.restored
  case others =>
    intro process different
    exact (congrArg Process.prio (fields process)).trans (restored.others process different)
  case owner => exact (State.owner_setWaitqueue ..).trans restored.owner
  case waitqueue =>
    intro other different
    rw [State.wake_waitqueue, Function.update_of_ne different]
    exact restored.waitqueue other different

/-- What a release that restores the priority does, in both protocols. -/
theorem releaseWith_restored (isCurrent : state.current = some current)
    (released : releaseWith restorePrio highestPrio resourceId state = .ok after) :
    Exists fun r : Fin nrResources => r.val = resourceId ∧ state.owner r = some current ∧
      Restored state current r after ∧
      forall process, (after.process process).prioOrig = (state.process process).prioOrig := by
  rcases releaseWith_ok released with ⟨r, owner, same, isOwner, owned, _, rfl, outcome⟩
  cases isOwner.symm.trans isCurrent
  have original : forall process, (((restorePrio current state).setOwner r none).process process).prioOrig =
      (state.process process).prioOrig := by
    rcases restorePrio_prioOnly current state with ⟨prio, restored⟩
    rw [restored]
    exact fun _ => rfl
  refine ⟨r, same, owned, ?_⟩
  rcases outcome with ⟨rfl, _⟩ | ⟨waiter, _, rfl⟩
  · exact ⟨restorePrio_restored state current r, original⟩
  · refine ⟨(restorePrio_restored state current r).wake waiter, fun process => ?_⟩
    rw [State.wake_process]
    exact original process

/-- The release does not fail while waiters are blocked. -/
private theorem pipRelease_succeeds {r : Fin nrResources} (isCurrent : state.current = some current)
    (owned : state.owner r = some current)
    (blocked : forall waiter, waiter ∈ state.waitqueue r -> (state.process waiter).status = .blocked) :
    Exists fun after => pipRelease r.val state = .ok after := by
  have index : resourceIndex r.val = some r := dif_pos r.isLt
  rcases SchedulerName.pip.lawful.release index isCurrent owned blocked with ⟨after, released, _⟩
  exact ⟨after, released⟩

/-- In a state that the script leads to, the current process is to release the
resource. -/
def Surrenders (sched : Scheduler) (script : Script) (current : Nat) (r : Fin nrResources) (state : State) : Prop :=
  Exists fun kept => Exists fun rs => Exists fun todo => Exists fun before =>
    Reaches sched script (.releasing current kept (rs :: todo), before) ∧ rs.countDown.duration = 0 ∧
      rs.resourceId = r.val ∧ state = before.hold current (kept ++ rs.countDown :: todo)

private theorem Surrenders.blocked (name : SchedulerName) {script : Script} (valid : script.Valid)
    {r : Fin nrResources} (surrenders : Surrenders name.scheduler script current r state) {waiter : Nat}
    (waits : waiter ∈ state.waitqueue r) : (state.process waiter).status = .blocked := by
  rcases surrenders with ⟨kept, rs, todo, before, reaches, _, _, rfl⟩
  have sound := reaches.sound valid name.lawful
  cases sound with
  | releasing releasing => exact (releasing.count.placed.waiting r waiter waits).1

/-- After a release the priority is the one that is due exactly when nobody of
larger priority than the original one waits for another resource of the
process.  The release succeeds in all states of the simulation, and where the
simulation asks for it. -/
theorem pipRelease_inherits_iff (r : Fin nrResources) (isCurrent : state.current = some current)
    (owned : state.owner r = some current) :
    (forall after, pipRelease r.val state = .ok after ->
      (IsGreatest (after.demands current) (after.process current).prio ↔
        forall other : Fin nrResources, other ≠ r -> state.owner other = some current ->
          forall waiter, waiter ∈ state.waitqueue other -> waiter ≠ current ->
            (state.process waiter).prio ≤ (state.process current).prioOrig)) ∧
    forall script : Script, script.Valid ->
      (Exists fun phase => Reaches pipScheduler script (phase, state)) ∨
        Surrenders pipScheduler script current r state ->
          Exists fun after => pipRelease r.val state = .ok after := by
  constructor
  · intro after released
    have releases : releaseWith restorePrio highestPrio r.val state = .ok after := released
    rcases releaseWith_restored isCurrent releases with ⟨freed, same, _, restored, _⟩
    have itself : freed = r := Fin.ext same
    subst itself
    have original : (after.process current).prio = (after.process current).prioOrig :=
      restored.restored.trans restored.prioOrig.symm
    constructor
    · intro greatest other notFreed owns waiter waits different
      have demanded : (after.process waiter).prio ∈ after.demands current := by
        refine Or.inr ⟨other, waiter, ?_, ?_, rfl⟩
        · rw [restored.owner, Function.update_of_ne notFreed]
          exact owns
        · rw [restored.waitqueue other notFreed]
          exact waits
      have bounded := greatest.2 demanded
      rw [restored.others waiter different, restored.restored] at bounded
      exact bounded
    · intro bounded
      refine ⟨Or.inl original, ?_⟩
      rintro prio (rfl | ⟨other, waiter, owns, waits, rfl⟩)
      · exact Nat.le_of_eq original.symm
      · have notFreed : other ≠ freed := by
          intro equal
          rw [equal, restored.owner, Function.update_self] at owns
          cases owns
        rw [restored.owner, Function.update_of_ne notFreed] at owns
        rw [restored.waitqueue other notFreed] at waits
        by_cases itself : waiter = current
        · rw [itself]
        · rw [restored.others waiter itself, restored.restored]
          exact bounded other notFreed owns waiter waits itself
  · intro script valid called
    apply pipRelease_succeeds isCurrent owned
    intro waiter waits
    rcases called with ⟨phase, reaches⟩ | surrenders
    · have sound := reaches.sound valid SchedulerName.pip.lawful
      exact (sound.placed.waiting r waiter waits).1
    · exact surrenders.blocked .pip valid waits

end Inherit

/-- A process that owns two resources, and one of larger priority that waits for
the second of them. -/
def inheriting : Script :=
  [⟨1, 6, 1, 0, [⟨1, 0, 3⟩, ⟨2, 0, 6⟩]⟩, ⟨2, 2, 5, 1, [⟨2, 0, 1⟩]⟩]

theorem partial_release_drops_inheritance : Exists fun state => Exists fun after =>
    Simulates pipScheduler inheriting 3 false state ∧ state.current = some 0 ∧ state.owner 1 = some 0 ∧
      pipRelease 1 state = .ok after ∧ ¬ IsGreatest (after.demands 0) (after.process 0).prio := by
  have simulates : Simulates pipScheduler inheriting 3 false _ := ⟨_, rfl, rfl⟩
  refine ⟨_, _, simulates, rfl, rfl, rfl, ?_⟩
  intro greatest
  have demanded := greatest.2 (Or.inr ⟨2, 1, rfl, List.mem_cons_self, rfl⟩)
  exact absurd demanded (by decide)

/-- The first process releases the resource that is waited for before the other one. -/
def surrendering : Script :=
  [⟨1, 3, 1, 0, [⟨1, 0, 3⟩, ⟨2, 0, 2⟩]⟩, ⟨2, 1, 5, 1, [⟨2, 0, 1⟩]⟩]

/-- A release of the resource that is waited for does restore what is due, between the
rounds and where the simulation asks for it. -/
theorem pipRelease_inherits_iff_inheriting :
    (Exists fun state => Exists fun after => Simulates pipScheduler inheriting 3 false state ∧
      pipRelease 2 state = .ok after ∧ IsGreatest (after.demands 0) (after.process 0).prio) ∧
    Exists fun state => Exists fun after => Surrenders pipScheduler surrendering 0 2 state ∧
      state.owner 1 = some 0 ∧ 1 ∈ state.waitqueue 2 ∧ pipRelease 2 state = .ok after ∧
        IsGreatest (after.demands 0) (after.process 0).prio := by
  constructor
  · have simulates : Simulates pipScheduler inheriting 3 false _ := ⟨_, rfl, rfl⟩
    have reached : Exists fun state => Exists fun after => Simulates pipScheduler inheriting 3 false state ∧
        state.current = some 0 ∧ state.owner 2 = some 0 ∧ pipRelease 2 state = .ok after ∧
          forall other : Fin nrResources, other ≠ 2 -> state.owner other = some 0 ->
            forall waiter, waiter ∈ state.waitqueue other -> waiter ≠ 0 ->
              (state.process waiter).prio ≤ (state.process 0).prioOrig :=
      ⟨_, _, simulates, rfl, rfl, rfl, by decide⟩
    rcases reached with ⟨state, after, simulates, isCurrent, owned, released, bounded⟩
    exact ⟨state, after, simulates, released,
      ((pipRelease_inherits_iff 2 isCurrent owned).1 after released).mpr bounded⟩
  · have simulates : Simulates pipScheduler surrendering 2 false _ := ⟨_, rfl, rfl⟩
    have grown := (simulates.choose rfl rfl (by decide)).tail (.grow _ _ _)
    have reaches := grown.tail (.keep (by decide))
    have reached : Exists fun state => Surrenders pipScheduler surrendering 0 2 state ∧
        state.owner 1 = some 0 ∧ 1 ∈ state.waitqueue 2 ∧ state.current = some 0 ∧ state.owner 2 = some 0 ∧
          forall other : Fin nrResources, other ≠ 2 -> state.owner other = some 0 ->
            forall waiter, waiter ∈ state.waitqueue other -> waiter ≠ 0 ->
              (state.process waiter).prio ≤ (state.process 0).prioOrig :=
      ⟨_, ⟨_, _, _, _, reaches, rfl, rfl, rfl⟩, rfl, by decide, rfl, rfl, by decide⟩
    rcases reached with ⟨state, surrenders, other, waits, isCurrent, owned, bounded⟩
    have inherits := pipRelease_inherits_iff 2 isCurrent owned
    rcases inherits.2 surrendering (by decide) (Or.inr surrenders) with ⟨after, released⟩
    exact ⟨state, after, surrenders, other, waits, released, (inherits.1 after released).mpr bounded⟩

end Sched
end OsPa
