import OsPa.Sched.Links

namespace OsPa
namespace Sched

open Library

/-!
# Chains of blocked owners

A process that asks for a resource in vain waits for its owner.  The owner may
wait for a resource itself, then for the owner of that one, and so on.
`pip_acquire` donates the priority of the process to the first owner and goes no
further.  The rest of the chain has kept up exactly when it had done so before.
-/

/-- The owner of the resource, and whoever an owner on the chain waits for. -/
inductive State.OnChain (state : State) (r : Fin nrResources) : Nat -> Prop
  | owner {process : Nat} (owned : state.owner r = some process) : OnChain state r process
  | next {process other : Nat} {awaited : Fin nrResources} (on : OnChain state r process)
      (waits : process ∈ state.waitqueue awaited) (owned : state.owner awaited = some other) : OnChain state r other

/-- In a state that the script leads to, the current process asks for the
resource. -/
def Asks (sched : Scheduler) (script : Script) (current : Nat) (r : Fin nrResources) (state : State) : Prop :=
  Exists fun kept => Exists fun rs => Exists fun todo =>
    Reaches sched script (.acquiring current kept (rs :: todo), state) ∧
      rs.at_ = (state.process current).age ∧ rs.resourceId = r.val

section Chain

variable {state after : State} {r : Fin nrResources} {current owner : Nat}

private theorem Asks.isCurrent (name : SchedulerName) {script : Script}
    (asks : Asks name.scheduler script current r state) : state.current = some current := by
  rcases asks with ⟨kept, rs, todo, reaches, _⟩
  cases reaches.tied name.lawful name.guarded with
  | acquiring linked isCurrent running => exact isCurrent

/-- What an acquire of an owned resource does to the chains and the priorities. -/
structure Donated (state : State) (current owner : Nat) (r : Fin nrResources) (after : State) : Prop where
  owners : after.owner = state.owner
  waitqueues : after.waitqueue = Function.update state.waitqueue r (state.waitqueue r ++ [current])
  prio : forall process, (after.process process).prio =
    if process = owner then max (state.process owner).prio (state.process current).prio
    else (state.process process).prio

theorem pipAcquire_donated (isCurrent : state.current = some current) (owned : state.owner r = some owner) :
    Exists fun after => pipAcquire r.val state = .ok (false, after) ∧ Donated state current owner r after := by
  have index : resourceIndex r.val = some r := resourceIndex_eq_some.mpr rfl
  have owned' : (state.resources r).owner = some owner := owned
  let donated := if (state.process owner).prio < (state.process current).prio then
    state.setPrio owner (state.process current).prio else state
  have resources : donated.resources = state.resources := by
    dsimp only [donated]
    split <;> rfl
  have prio : forall process, (donated.process process).prio =
      if process = owner then max (state.process owner).prio (state.process current).prio
      else (state.process process).prio := by
    intro process
    dsimp only [donated]
    by_cases less : (state.process owner).prio < (state.process current).prio
    · rw [if_pos less, Nat.max_eq_right (Nat.le_of_lt less)]
      rw [State.setPrio_eq]
      dsimp only [State.reprioritized]
      exact Function.update_apply ..
    · rw [if_neg less, Nat.max_eq_left (Nat.le_of_not_lt less)]
      split
      case isTrue same => rw [same]
      case isFalse => rfl
  refine ⟨(donated.setStatus current .blocked).setWaitqueue r
    (((donated.setStatus current .blocked).resources r).waitqueue ++ [current]), ?_, ?_⟩
  · unfold pipAcquire acquireWith
    rw [index, isCurrent]
    dsimp only
    rw [owned']
  · constructor
    case owners =>
      rw [State.owner_setWaitqueue]
      unfold State.owner
      exact funext fun other => congrArg (fun resources => (resources other).owner) resources
    case waitqueues =>
      rw [State.waitqueue_setWaitqueue]
      have waits : (donated.setStatus current .blocked).waitqueue = state.waitqueue :=
        funext fun other => congrArg (fun resources => (resources other).waitqueue) resources
      have here : ((donated.setStatus current .blocked).resources r).waitqueue = state.waitqueue r :=
        congrFun waits r
      rw [waits, here]
    case prio =>
      intro process
      rw [← prio process]
      have blocked := congrArg Process.prio (donated.setStatus_process current .blocked process)
      exact blocked

/-- The chain is the one before: the process that asks waits for its first
member. -/
private theorem Donated.onChain_iff (donated : Donated state current owner r after) (process : Nat) :
    after.OnChain r process ↔ state.OnChain r process := by
  constructor
  · intro on
    induction on with
    | owner owns =>
        rw [donated.owners] at owns
        exact .owner owns
    | @next process other awaited _ waits owns inductionHypothesis =>
        rw [donated.owners] at owns
        rw [donated.waitqueues] at waits
        by_cases here : awaited = r
        · rw [here] at owns
          exact .owner owns
        · rw [Function.update_of_ne here] at waits
          exact .next inductionHypothesis waits owns
  · intro on
    induction on with
    | owner owns =>
        rw [← donated.owners] at owns
        exact .owner owns
    | @next process other awaited _ waits owns inductionHypothesis =>
        have still : process ∈ after.waitqueue awaited := by
          rw [donated.waitqueues]
          by_cases here : awaited = r
          · subst awaited
            rw [Function.update_self]
            exact List.mem_append_left _ waits
          · rw [Function.update_of_ne here]
            exact waits
        rw [← donated.owners] at owns
        exact .next inductionHypothesis still owns

/-- The donation does not change the priority of the process itself. -/
private theorem Donated.prio_current (donated : Donated state current owner r after) :
    (after.process current).prio = (state.process current).prio := by
  rw [donated.prio]
  split
  case isTrue same => rw [same, Nat.max_self]
  case isFalse => rfl

end Chain

/-- After an acquire of an owned resource everybody on the chain has kept up with
the process that asks, exactly if all of them but the owner had done so before. -/
theorem pipAcquire_transitive_iff {script : Script} {current owner : Nat} {r : Fin nrResources} {state : State}
    (asks : Asks pipScheduler script current r state) (owned : state.owner r = some owner) :
    Exists fun after => pipAcquire r.val state = .ok (false, after) ∧
      ((forall process, after.OnChain r process -> (after.process current).prio ≤ (after.process process).prio) ↔
        forall process, state.OnChain r process -> process ≠ owner ->
          (state.process current).prio ≤ (state.process process).prio) := by
  rcases pipAcquire_donated (Asks.isCurrent .pip asks) owned with ⟨after, acquired, donated⟩
  refine ⟨after, acquired, ?_⟩
  constructor
  · intro transitive process on different
    have keeps := transitive process ((donated.onChain_iff process).mpr on)
    rw [donated.prio_current, donated.prio, if_neg different] at keeps
    exact keeps
  · intro before process on
    rw [donated.prio_current, donated.prio]
    split
    case isTrue => exact Nat.le_max_right _ _
    case isFalse different => exact before process ((donated.onChain_iff process).mp on) different

/-- Three processes of increasing priority.  The first keeps the second waiting,
and the second the third. -/
def chained : Script :=
  [⟨1, 6, 1, 0, [⟨1, 0, 5⟩]⟩, ⟨2, 4, 5, 1, [⟨2, 0, 4⟩, ⟨1, 1, 1⟩]⟩, ⟨3, 2, 9, 3, [⟨2, 0, 1⟩]⟩]

/-- The process that is chosen after some rounds comes to what it acquires. -/
theorem Simulates.choose {sched : Scheduler} {script : Script} {rounds current : Nat}
    {state scheduled updated : State}
    (simulates : Simulates sched script rounds false state)
    (chosen : sched.schedule (forkOnSchedule state) = (some current, scheduled))
    (retired : retire (forkOnSchedule state).current { scheduled with current := some current } = .ok updated)
    (unlinked : ¬ (updated.setStatus current .running).Attached current) :
    Reaches sched script
      (.acquiring current [] ((updated.setStatus current .running).process current).resourcesToAcquire,
        updated.setStatus current .running) :=
  simulates.scheduling.tail (.choose chosen retired unlinked)

/-- The third process donates its priority to the second one only. -/
theorem donation_stops_at_owner : Exists fun state => Exists fun after =>
    Asks pipScheduler chained 2 2 state ∧ state.owner 2 = some 1 ∧ pipAcquire 2 state = .ok (false, after) ∧
      after.OnChain 2 0 ∧ (after.process 0).prio < (after.process 2).prio := by
  have simulates : Simulates pipScheduler chained 3 false _ := ⟨_, rfl, rfl⟩
  have reaches := simulates.choose rfl rfl (by decide)
  have asked : Exists fun state => Exists fun after =>
      Reaches pipScheduler chained (.acquiring 2 [] [⟨2, 0, 1⟩], state) ∧ 0 = (state.process 2).age ∧
        state.owner 2 = some 1 ∧ pipAcquire 2 state = .ok (false, after) ∧ after.owner 2 = some 1 ∧
          1 ∈ after.waitqueue 1 ∧ after.owner 1 = some 0 ∧ (after.process 0).prio < (after.process 2).prio :=
    ⟨_, _, reaches, rfl, rfl, rfl, rfl, by decide, rfl, by decide⟩
  rcases asked with ⟨state, after, reaches, age, owned, acquired, owned', waits, owned'', less⟩
  have on : after.OnChain 2 0 := .next (.owner owned') waits owned''
  exact ⟨state, after, ⟨[], ⟨2, 0, 1⟩, [], reaches, age, rfl⟩, owned, acquired, on, less⟩

/-- When the second process asks, only the first one is on the chain. -/
theorem pipAcquire_transitive_iff_chained : Exists fun state => Exists fun after =>
    Asks pipScheduler chained 1 1 state ∧ pipAcquire 1 state = .ok (false, after) ∧
      forall process, after.OnChain 1 process -> (after.process 1).prio ≤ (after.process process).prio := by
  have simulates : Simulates pipScheduler chained 2 false _ := ⟨_, rfl, rfl⟩
  have reaches := simulates.choose rfl rfl (by decide)
  have asked : Exists fun state => Reaches pipScheduler chained (.acquiring 1 [] [⟨1, 1, 1⟩], state) ∧
      1 = (state.process 1).age ∧ state.owner 1 = some 0 ∧ forall awaited, 0 ∉ state.waitqueue awaited :=
    ⟨_, reaches, rfl, rfl, by decide⟩
  rcases asked with ⟨state, reaches, age, owned, unawaited⟩
  have asks : Asks pipScheduler chained 1 1 state := ⟨[], ⟨1, 1, 1⟩, [], reaches, age, rfl⟩
  have alone : forall process, state.OnChain 1 process -> process = 0 := by
    intro process on
    induction on with
    | owner owns => exact Option.some.inj (owns.symm.trans owned)
    | next _ waits _ inductionHypothesis =>
        rw [inductionHypothesis] at waits
        exact absurd waits (unawaited _)
  rcases pipAcquire_transitive_iff asks owned with ⟨after, acquired, transitive⟩
  refine ⟨state, after, asks, acquired, transitive.mpr ?_⟩
  intro process on different
  exact absurd (alone process on) different

end Sched
end OsPa
