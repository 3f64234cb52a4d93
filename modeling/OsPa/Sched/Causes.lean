import OsPa.Sched.Inheritance
import OsPa.Sched.Steps

namespace OsPa
namespace Sched

open Library

/-!
# Where priorities come from

The protocols for resources raise the priority of a process on account of what it
owns, and restore it with every release.  Whoever owns nothing therefore has the
original priority, whether it runs, is ready or waits.  What an owner may have
depends on the protocol: the largest priority at all, or one of another process
that has been passed on.
-/

/-- A step that concerns neither priorities nor owners. -/
structure SamePrio (before after : State) : Prop where
  prio : forall process, (after.process process).prio = (before.process process).prio
  prioOrig : forall process, (after.process process).prioOrig = (before.process process).prioOrig
  owner : after.owner = before.owner

/-- Every process of the script has an `allowed` priority, and its original one unless
it owns something. -/
structure Caused (allowed : Nat -> Nat -> Prop) (script : Script) (state : State) : Prop where
  prioOrig : forall process, (state.process process).prioOrig = (script.description process).prio
  allowed : forall process, process < script.length -> allowed process (state.process process).prio
  unowned : forall process, (forall r, state.owner r ≠ some process) ->
    (state.process process).prio = (state.process process).prioOrig

/-- The callbacks respect what is allowed, for the processes of the script. -/
structure Restrained (allowed : Nat -> Nat -> Prop) (script : Script) (sched : Scheduler) : Prop where
  schedule : forall state, SamePrio state (sched.schedule state).2
  acquire : forall {resourceId current : Nat} {state after : State} {granted : Bool}, state.current = some current ->
    current < script.length -> Caused allowed script state ->
      sched.acquire resourceId state = .ok (granted, after) -> Caused allowed script after
  release : forall {resourceId current : Nat} {state after : State}, state.current = some current ->
    current < script.length -> Caused allowed script state ->
      sched.release resourceId state = .ok after -> Caused allowed script after

section Steps

variable {allowed : Nat -> Nat -> Prop} {script : Script} {sched : Scheduler} {state after : State}
  {reached : Configuration}

theorem Caused.same (caused : Caused allowed script state) (same : SamePrio state after) :
    Caused allowed script after := by
  refine ⟨?_, ?_, ?_⟩
  · intro process
    rw [same.prioOrig]
    exact caused.prioOrig process
  · intro process inside
    rw [same.prio]
    exact caused.allowed process inside
  · intro process unowned
    rw [same.prio, same.prioOrig]
    apply caused.unowned process
    intro r owns
    rw [← same.owner] at owns
    exact unowned r owns

theorem SamePrio.refl (state : State) : SamePrio state state := ⟨fun _ => rfl, fun _ => rfl, rfl⟩

theorem SamePrio.trans {middle : State} (first : SamePrio state middle) (second : SamePrio middle after) :
    SamePrio state after :=
  ⟨fun process => (second.prio process).trans (first.prio process),
    fun process => (second.prioOrig process).trans (first.prioOrig process), second.owner.trans first.owner⟩

theorem SamePrio.modify (state : State) (process : Nat) (change : Process -> Process)
    (prio : forall record, (change record).prio = record.prio)
    (prioOrig : forall record, (change record).prioOrig = record.prioOrig) :
    SamePrio state (state.modify process change) :=
  ⟨state.field_modify process change prio, state.field_modify process change prioOrig, rfl⟩

theorem SamePrio.setStatus (state : State) (process : Nat) (status : ProcessStatus) :
    SamePrio state (state.setStatus process status) := SamePrio.modify state process _ (fun _ => rfl) fun _ => rfl

theorem SamePrio.hold (state : State) (current : Nat) (holding : List ResourceSchedule) :
    SamePrio state (state.hold current holding) := SamePrio.modify state current _ (fun _ => rfl) fun _ => rfl

theorem SamePrio.forkProcess (state : State) (process : Nat) : SamePrio state (forkProcess state process) := by
  unfold Sched.forkProcess
  split
  · have ready := SamePrio.setStatus { state with
      forkqueue := state.forkqueue.erase process
      readyqueue := state.readyqueue ++ [process] } process .ready
    exact ⟨ready.prio, ready.prioOrig, ready.owner⟩
  · exact SamePrio.refl state

private theorem SamePrio.retire {prev : Option Nat} (retired : retire prev state = .ok after) :
    SamePrio state after := by
  rcases retire_cases retired with rfl | ⟨process, _, _, rfl⟩ | ⟨process, _, _, rfl⟩
  · exact SamePrio.refl _
  · exact SamePrio.setStatus state process .ready
  · have left := SamePrio.setStatus state process .exit
    exact ⟨left.prio, left.prioOrig, left.owner⟩

theorem SamePrio.preemptive (select : State -> List Nat -> Option Nat) (state : State) :
    SamePrio state (preemptive select state).2 := by
  unfold Sched.preemptive pickNext
  rw [State.requeue_eq]
  split <;> exact ⟨fun _ => rfl, fun _ => rfl, rfl⟩

/-- What the previous process is after the choice. -/
theorem Restrained.dispatch (restrained : Restrained allowed script sched) {next : Option Nat}
    {scheduled updated : State} (chosen : sched.schedule state = (next, scheduled))
    (retired : retire state.current { scheduled with current := next } = .ok updated) : SamePrio state updated := by
  have asked := restrained.schedule state
  rw [chosen] at asked
  have current : SamePrio state { scheduled with current := next } := ⟨asked.prio, asked.prioOrig, asked.owner⟩
  exact current.trans (SamePrio.retire retired)

/-- The choice changes neither priorities nor what is waited for. -/
theorem Restrained.dispatched (restrained : Restrained allowed script sched) (lawful : Lawful sched)
    {next : Option Nat} {scheduled updated : State} (chosen : sched.schedule state = (next, scheduled))
    (retired : retire state.current { scheduled with current := next } = .ok updated) :
    SamePrio state updated ∧ updated.waitqueue = state.waitqueue ∧ updated.readyqueue = scheduled.readyqueue ∧
      updated.current = next ∧
        forall process, (updated.process process).firstDue = (state.process process).firstDue := by
  have kept := retire_kept retired
  rcases (lawful.schedule state).others with ⟨prio, others⟩
  rw [chosen] at others
  have same : scheduled = ({ state with readyqueue := scheduled.readyqueue } : State).reprioritized prio := others
  refine ⟨restrained.dispatch chosen retired, ?_, kept.readyqueue, kept.current, ?_⟩
  · have waitqueue : scheduled.waitqueue = state.waitqueue := (congrArg State.waitqueue same).trans rfl
    exact kept.waitqueue.trans waitqueue
  · intro process
    rcases kept.process process with ⟨status, changed⟩
    have due : (scheduled.process process).firstDue = (state.process process).firstDue :=
      (congrArg (fun scheduled : State => (scheduled.process process).firstDue) same).trans rfl
    exact (congrArg Process.firstDue changed).trans due

/-- Priorities keep having a cause. -/
theorem Caused.step {before after : Configuration} (restrained : Restrained allowed script sched)
    (sound : Sound script before) (caused : Caused allowed script before.2) (step : Step sched before after) :
    Caused allowed script after.2 := by
  cases step with
  | begin state => exact caused
  | visit process todo state => exact caused.same (SamePrio.forkProcess state process)
  | leave chosen retired empty => exact caused.same (restrained.dispatch chosen retired)
  | idle chosen retired waits =>
      have idle := caused.same (restrained.dispatch chosen retired)
      exact ⟨idle.prioOrig, idle.allowed, idle.unowned⟩
  | choose chosen retired unlinked =>
      exact caused.same ((restrained.dispatch chosen retired).trans (SamePrio.setStatus ..))
  | pass notDue => exact caused
  | @grant state granted current kept todo rs isDue asked =>
      cases sound with
      | acquiring acquiring =>
          have answered := restrained.acquire acquiring.isCurrent acquiring.invariant.placed.of_detached.1 caused asked
          have taken := answered.same (SamePrio.modify granted current (fun process => process.take kept todo rs)
            (fun _ => rfl) fun _ => rfl)
          exact ⟨taken.prioOrig, taken.allowed, taken.unowned⟩
  | @refuse state refused current kept todo rs isDue asked =>
      cases sound with
      | acquiring acquiring =>
          have answered := restrained.acquire acquiring.isCurrent acquiring.invariant.placed.of_detached.1 caused asked
          exact ⟨answered.prioOrig, answered.allowed, answered.unowned⟩
  | grow current kept state =>
      have grown := caused.same (SamePrio.modify state current Process.grow (fun _ => rfl) fun _ => rfl)
      exact ⟨grown.prioOrig, grown.allowed, grown.unowned⟩
  | @keep state current kept todo rs remains =>
      exact caused.same (SamePrio.hold state current _)
  | @release state released current kept todo rs expires asked =>
      cases sound with
      | releasing releasing =>
          have counting := SamePrio.hold state current (kept ++ rs.countDown :: todo)
          have isCurrent : (state.hold current (kept ++ rs.countDown :: todo)).current = some current :=
            releasing.isCurrent
          have answered := restrained.release isCurrent releasing.invariant.placed.of_detached.1 (caused.same counting)
            asked
          have freed := answered.same (SamePrio.hold released current (kept ++ todo))
          exact ⟨freed.prioOrig, freed.allowed, freed.unowned⟩
  | finish current kept state => exact caused.same ⟨fun _ => rfl, fun _ => rfl, rfl⟩

theorem Reaches.caused (valid : script.Valid) (lawful : Lawful sched) (restrained : Restrained allowed script sched)
    (own : forall process, process < script.length -> allowed process (script.description process).prio)
    (reaches : Reaches sched script reached) : Caused allowed script reached.2 := by
  induction reaches with
  | refl => exact ⟨fun _ => rfl, own, fun _ _ => rfl⟩
  | @tail before _ earlier step inductionHypothesis =>
      have reaches : Reaches sched script before := earlier
      have sound := reaches.sound valid lawful
      exact inductionHypothesis.step restrained sound step

end Steps

/-! ## The two protocols -/

section Protocols

variable {allowed : Nat -> Nat -> Prop} {script : Script} {state after : State} {resourceId current : Nat}

/-- A release that restores the original priority. -/
theorem Caused.restored {r : Fin nrResources} (caused : Caused allowed script state)
    (own : allowed current (script.description current).prio) (owned : state.owner r = some current)
    (restored : Restored state current r after)
    (prioOrig : forall process, (after.process process).prioOrig = (state.process process).prioOrig) :
    Caused allowed script after := by
  refine ⟨fun process => (prioOrig process).trans (caused.prioOrig process), ?_, ?_⟩
  · intro process inside
    by_cases same : process = current
    · rw [same, restored.restored, caused.prioOrig]
      exact own
    · rw [restored.others process same]
      exact caused.allowed process inside
  · intro process unowned
    rw [prioOrig]
    by_cases same : process = current
    · rw [same]
      exact restored.restored
    · rw [restored.others process same]
      -- Only the owner of the released resource has lost something.
      apply caused.unowned process
      intro other owns
      have different : other ≠ r := by
        rintro rfl
        exact same (Option.some.inj (owns.symm.trans owned))
      apply unowned other
      rw [restored.owner, Function.update_of_ne different]
      exact owns

/-- A free resource gets an owner. -/
theorem Caused.setOwner {r : Fin nrResources} (caused : Caused allowed script state) (free : state.owner r = none)
    (current : Nat) : Caused allowed script (state.setOwner r (some current)) := by
  refine ⟨caused.prioOrig, caused.allowed, ?_⟩
  intro process unowned
  apply caused.unowned process
  intro other owns
  have different : other ≠ r := by
    rintro rfl
    exact absurd (owns.symm.trans free) (Option.some_ne_none _)
  apply unowned other
  rw [State.owner_setOwner, Function.update_of_ne different]
  exact owns

/-- An owner gets another priority. -/
theorem Caused.setPrio {r : Fin nrResources} {process prio : Nat} (caused : Caused allowed script state)
    (owns : state.owner r = some process) (may : process < script.length -> allowed process prio) :
    Caused allowed script (state.setPrio process prio) := by
  have itself := state.setPrio_process_self process prio
  refine ⟨?_, ?_, ?_⟩
  · intro other
    by_cases same : other = process
    · rw [same, itself]
      exact caused.prioOrig process
    · rw [state.setPrio_process_of_ne same]
      exact caused.prioOrig other
  · intro other inside
    by_cases same : other = process
    · subst other
      rw [itself]
      exact may inside
    · rw [state.setPrio_process_of_ne same]
      exact caused.allowed other inside
  · intro other unowned
    have different : other ≠ process := by
      rintro rfl
      exact unowned r owns
    rw [state.setPrio_process_of_ne different]
    exact caused.unowned other unowned

/-- A process that is refused a resource waits for it. -/
theorem Caused.wait (caused : Caused allowed script state) (current : Nat) (r : Fin nrResources)
    (waitqueue : List Nat) :
    Caused allowed script ((state.setStatus current .blocked).setWaitqueue r waitqueue) := by
  have waits : SamePrio (state.setStatus current .blocked)
      ((state.setStatus current .blocked).setWaitqueue r waitqueue) :=
    ⟨fun _ => rfl, fun _ => rfl, State.owner_setWaitqueue ..⟩
  exact caused.same ((SamePrio.setStatus state current .blocked).trans waits)

/-- Under the ceiling protocol a process has its own priority or the largest one. -/
def ByCeiling (script : Script) (process prio : Nat) : Prop :=
  prio = (script.description process).prio ∨ prio = maxPrio

theorem pcpScheduler_restrained (script : Script) : Restrained (ByCeiling script) script pcpScheduler := by
  refine ⟨SamePrio.preemptive _, ?_, ?_⟩
  · intro resourceId current state after granted isCurrent inside caused acquired
    have asked : pcpAcquire resourceId state = .ok (granted, after) := acquired
    rcases acquireWith_ok asked with ⟨r, asking, _, _, ⟨_, free, rfl⟩ | ⟨_, owner, owned, rfl⟩⟩
    · have owns : (state.setOwner r (some asking)).owner r = some asking := by
        rw [State.owner_setOwner, Function.update_self]
      exact (caused.setOwner free asking).setPrio owns fun _ => Or.inr rfl
    · exact caused.wait asking r _
  · intro resourceId current state after isCurrent inside caused released
    have asked : pcpRelease resourceId state = .ok after := released
    rcases releaseWith_restored isCurrent asked with ⟨r, _, owned, restored, prioOrig⟩
    exact caused.restored (Or.inl rfl) owned restored prioOrig

/-- Under inheritance a process has at least its own priority, and one that some
process of the script has of its own. -/
def ByInheritance (script : Script) (process prio : Nat) : Prop :=
  (script.description process).prio ≤ prio ∧
    Exists fun other => other < script.length ∧ prio = (script.description other).prio

theorem pipScheduler_restrained (script : Script) : Restrained (ByInheritance script) script pipScheduler := by
  refine ⟨SamePrio.preemptive _, ?_, ?_⟩
  · intro resourceId current state after granted isCurrent inside caused acquired
    have asked : pipAcquire resourceId state = .ok (granted, after) := acquired
    rcases acquireWith_ok asked with ⟨r, asking, _, isAsking, ⟨_, free, rfl⟩ | ⟨_, owner, owned, rfl⟩⟩
    · exact caused.setOwner free asking
    · cases isAsking.symm.trans isCurrent
      apply Caused.wait
      split
      case isFalse => exact caused
      case isTrue less =>
        -- The owner had at least its own priority and gets a larger one.
        apply caused.setPrio owned
        intro isOwner
        have raised := Nat.lt_of_le_of_lt (caused.allowed owner isOwner).1 less
        exact ⟨Nat.le_of_lt raised, (caused.allowed current inside).2⟩
  · intro resourceId current state after isCurrent inside caused released
    have asked : pipRelease resourceId state = .ok after := released
    rcases releaseWith_restored isCurrent asked with ⟨r, _, owned, restored, prioOrig⟩
    exact caused.restored ⟨Nat.le_refl _, current, inside, rfl⟩ owned restored prioOrig

theorem Reaches.byCeiling {reached : Configuration} (valid : script.Valid)
    (reaches : Reaches pcpScheduler script reached) : Caused (ByCeiling script) script reached.2 :=
  reaches.caused valid SchedulerName.pcp.lawful (pcpScheduler_restrained script) fun _ _ => Or.inl rfl

theorem Reaches.byInheritance {reached : Configuration} (valid : script.Valid)
    (reaches : Reaches pipScheduler script reached) : Caused (ByInheritance script) script reached.2 :=
  reaches.caused valid SchedulerName.pip.lawful (pipScheduler_restrained script)
    fun process inside => ⟨Nat.le_refl _, process, inside, rfl⟩

end Protocols

/-- Priorities at the beginning of a round, under inheritance and under the ceiling
protocol. -/
theorem boosts_have_causes {script : Script} (valid : script.Valid) {rounds : Nat} {left : Bool} {state : State} :
    (Simulates pipScheduler script rounds left state -> forall process, process < script.length ->
      (state.process process).prioOrig ≤ (state.process process).prio ∧
      (Exists fun other => other < script.length ∧ (state.process process).prio = (state.process other).prioOrig) ∧
      ((forall r, state.owner r ≠ some process) -> (state.process process).prio = (state.process process).prioOrig)) ∧
    (Simulates pcpScheduler script rounds left state -> forall process, process < script.length ->
      ((state.process process).prio = (state.process process).prioOrig ∨ (state.process process).prio = maxPrio) ∧
      ((forall r, state.owner r ≠ some process) ->
        (state.process process).prio = (state.process process).prioOrig)) := by
  constructor
  · intro simulates process inside
    have caused := simulates.reaches.byInheritance valid
    rcases caused.allowed process inside with ⟨atLeast, other, isOther, same⟩
    rw [← caused.prioOrig process] at atLeast
    rw [← caused.prioOrig other] at same
    exact ⟨atLeast, ⟨other, isOther, same⟩, caused.unowned process⟩
  · intro simulates process inside
    have caused := simulates.reaches.byCeiling valid
    have either := caused.allowed process inside
    unfold ByCeiling at either
    rw [← caused.prioOrig process] at either
    exact ⟨either, caused.unowned process⟩

/-- Under inheritance process 1 is refused in the second round what process 0 owns, which
has the priority of the waiter by then.  Under the ceiling protocol process 0 has the
largest priority, and process 1 does not get to ask. -/
theorem boosts_have_causes_inheriting :
    (Exists fun state => Simulates pipScheduler inheriting 2 false state ∧ state.owner 2 = some 0 ∧
      1 ∈ state.waitqueue 2 ∧ (state.process 0).prioOrig < (state.process 0).prio ∧
      (state.process 0).prio = (state.process 1).prioOrig ∧
      (state.process 1).prio = (state.process 1).prioOrig) ∧
    Exists fun state => Simulates pcpScheduler inheriting 2 false state ∧ state.owner 2 = some 0 ∧
      1 ∈ state.readyqueue ∧ (state.process 0).prioOrig < (state.process 0).prio ∧
      (state.process 0).prio = maxPrio ∧ (state.process 1).prio = (state.process 1).prioOrig := by
  constructor
  · have boosted : Exists fun state => Simulates pipScheduler inheriting 2 false state ∧ state.owner 2 = some 0 ∧
        1 ∈ state.waitqueue 2 ∧ (state.process 0).prioOrig < (state.process 0).prio ∧
        forall r, state.owner r ≠ some 1 := ⟨_, ⟨_, rfl, rfl⟩, rfl, by decide, by decide, by decide⟩
    rcases boosted with ⟨state, simulates, owned, waits, raised, unowned⟩
    have causes := (boosts_have_causes (by decide)).1 simulates
    rcases causes 0 (by decide) with ⟨_, ⟨other, isOther, same⟩, _⟩
    have different : other ≠ 0 := by
      rintro rfl
      exact absurd same (Nat.ne_of_gt raised)
    have isWaiter : other = 1 := Nat.le_antisymm (Nat.le_of_lt_succ isOther) (Nat.pos_of_ne_zero different)
    rw [isWaiter] at same
    exact ⟨state, simulates, owned, waits, raised, same, (causes 1 (by decide)).2.2 unowned⟩
  · have boosted : Exists fun state => Simulates pcpScheduler inheriting 2 false state ∧ state.owner 2 = some 0 ∧
        1 ∈ state.readyqueue ∧ (state.process 0).prioOrig < (state.process 0).prio ∧
        forall r, state.owner r ≠ some 1 := ⟨_, ⟨_, rfl, rfl⟩, rfl, by decide, by decide, by decide⟩
    rcases boosted with ⟨state, simulates, owned, ready, raised, unowned⟩
    have causes := (boosts_have_causes (by decide)).2 simulates
    have largest := (causes 0 (by decide)).1.resolve_left (Nat.ne_of_gt raised)
    exact ⟨state, simulates, owned, ready, raised, largest, (causes 1 (by decide)).2 unowned⟩

end Sched
end OsPa
