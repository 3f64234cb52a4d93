import OsPa.Library.Turns
import OsPa.Sched.Links
import OsPa.Sched.Safety

namespace OsPa
namespace Sched

open Library

/-!
# Fairness of the rotating schedulers

`rr_schedule` and `prio_schedule` put the current process to the end of the ready
queue and take the next one from it.  Who waits there is passed by others of its
priority at most once.  This is a matter of the order in the queue alone, so that
it holds for every script and every scheduler of this kind that leaves priorities
as they are.
-/

/-- The ready queue that the scheduler will see. -/
def line : Configuration -> List Nat
  | (.forking [], state) => state.readyqueue ++ state.runnable.toList
  | (_, state) => state.readyqueue

/-- The process that a step chooses. -/
def picks : Configuration -> Configuration -> List Nat
  | (.forking [], _), (.acquiring current _ _, _) => [current]
  | _, _ => []

/-- A scheduler that takes the earliest process of largest key. -/
structure Rotating (sched : Scheduler) (key : State -> Nat -> Nat) : Prop where
  lawful : Lawful sched
  guarded : Guarded sched
  best : forall {state scheduled : State} {next : Nat}, sched.schedule state = (some next, scheduled) ->
    EarliestMax (key state) (state.readyqueue ++ state.runnable.toList) next ∧
      scheduled.readyqueue = (state.readyqueue ++ state.runnable.toList).erase next
  idle : forall {state scheduled : State}, sched.schedule state = (none, scheduled) ->
    state.readyqueue ++ state.runnable.toList = []
  kept : forall {before after : Configuration}, Step sched before after -> key after.2 = key before.2

section Line

variable {sched : Scheduler} {key : State -> Nat -> Nat} {before after : Configuration}

private theorem line_forking (todo : List Nat) (state : State) :
    Exists fun more => line (.forking todo, state) = state.readyqueue ++ more := by
  cases todo with
  | nil => exact ⟨_, rfl⟩
  | cons process todo => exact ⟨[], (List.append_nil _).symm⟩

/-- Except for the choice, a step leaves the line or lets others join it. -/
theorem Step.line_joined (lawful : Lawful sched) (guarded : Guarded sched) (tied : Tied before)
    (step : Step sched before after) (unscheduled : forall state, before ≠ (.forking [], state)) :
    picks before after = [] ∧ Exists fun more => line after = line before ++ more := by
  cases step with
  | begin state => exact ⟨rfl, line_forking state.forkqueue state⟩
  | visit process todo state =>
      refine ⟨rfl, ?_⟩
      rcases line_forking todo (forkProcess state process) with ⟨more, joined⟩
      rw [joined, forkProcess_eq]
      split
      · exact ⟨[process] ++ more, List.append_assoc ..⟩
      · exact ⟨more, rfl⟩
  | leave chosen retired empty => exact absurd rfl (unscheduled _)
  | idle chosen retired waits => exact absurd rfl (unscheduled _)
  | choose chosen retired unlinked => exact absurd rfl (unscheduled _)
  | pass notDue => exact ⟨rfl, [], (List.append_nil _).symm⟩
  | grant isDue asked =>
      refine ⟨rfl, [], ?_⟩
      cases tied with
      | acquiring linked isCurrent running =>
          rcases guarded.acquired lawful isCurrent asked with ⟨r, _, answer⟩
          rw [List.append_nil]
          cases answer with
          | granted prio free => rfl
  | refuse isDue asked =>
      refine ⟨rfl, [], ?_⟩
      cases tied with
      | acquiring linked isCurrent running =>
          rcases guarded.acquired lawful isCurrent asked with ⟨r, _, answer⟩
          rw [List.append_nil]
          cases answer with
          | refused prio owner owned => rfl
  | grow current kept state => exact ⟨rfl, [], (List.append_nil _).symm⟩
  | keep remains => exact ⟨rfl, [], (List.append_nil _).symm⟩
  | @release state released current kept todo rs expires asked =>
      refine ⟨rfl, ?_⟩
      cases tied with
      | releasing linked isCurrent running =>
          have counted := linked.modify fun process => process.hold (kept ++ rs.countDown :: todo)
          have sameCurrent : (state.hold current (kept ++ rs.countDown :: todo)).current = some current := isCurrent
          rcases guarded.released lawful sameCurrent counted.waiting asked with ⟨r, _, effect⟩
          cases effect with
          | unwanted prio empty => exact ⟨[], (List.append_nil _).symm⟩
          | woken prio waiter member => exact ⟨[waiter], rfl⟩
  | finish current kept state => exact ⟨rfl, [], (List.append_nil _).symm⟩

/-- Others join the line at its end, or one is served, or there is no line. -/
theorem Rotating.line_step (rotating : Rotating sched key) (tied : Tied before) (step : Step sched before after) :
    (picks before after = [] ∧ Exists fun more => line after = line before ++ more) ∨
    (Exists fun best => picks before after = [best] ∧ EarliestMax (key before.2) (line before) best ∧
      line after = (line before).erase best) ∨
    line before = [] := by
  by_cases scheduling : Exists fun state => before = (.forking [], state)
  · rcases scheduling with ⟨state, rfl⟩
    cases step with
    | leave chosen retired empty => exact Or.inr (Or.inr (rotating.idle chosen))
    | idle chosen retired waits => exact Or.inr (Or.inr (rotating.idle chosen))
    | @choose state scheduled updated current chosen retired unlinked =>
        have best := rotating.best chosen
        exact Or.inr (Or.inl ⟨current, rfl, best.1, (retire_kept retired).readyqueue.trans best.2⟩)
  · exact Or.inl (step.line_joined rotating.lawful rotating.guarded tied fun state same => scheduling ⟨state, same⟩)

/-- Nobody is in the line twice. -/
theorem Tied.line_nodup {configuration : Configuration} (tied : Tied configuration) : (line configuration).Nodup := by
  have alone : forall {detached : Option Nat} {state : State}, Linked detached state -> state.readyqueue.Nodup := by
    intro detached state linked
    apply List.nodup_iff_count_le_one.mpr
    intro process
    have once := linked.once process
    unfold State.queued at once
    omega
  cases tied with
  | closing linked attending => exact alone linked
  | @forking todo state linked attending nodup members =>
      cases todo with
      | cons process todo => exact alone linked
      | nil =>
          apply List.nodup_iff_count_le_one.mpr
          intro process
          have once := linked.once process
          have runnable := attending.count_runnable linked process
          unfold State.queued at once
          unfold line
          rw [List.count_append]
          omega
  | acquiring linked isCurrent running => exact alone linked
  | releasing linked isCurrent running => exact alone linked

/-- While a process is in the line, others of its key are chosen once. -/
private theorem Rotating.waits (rotating : Rotating sched key) {script : Script} {start final : Configuration}
    {process : Nat} {chosen : List Nat} (reaches : Reaches sched script start) (queued : process ∈ line start)
    (trace : Trace (Step sched) picks start chosen final) (notChosen : process ∉ chosen) :
    Waits (key start.2) process chosen (line final) := by
  have along := trace.invariant
    (fun chosen reached => Tied reached ∧ key reached.2 = key start.2 ∧
      (process ∉ chosen -> Waits (key start.2) process chosen (line reached)))
    ⟨reaches.tied rotating.lawful rotating.guarded, rfl, fun _ =>
      .start _ (reaches.tied rotating.lawful rotating.guarded).line_nodup queued⟩ (by
      rintro labels before after ⟨tied, same, waits⟩ step
      refine ⟨tied.step rotating.lawful rotating.guarded step, (rotating.kept step).trans same, ?_⟩
      intro absent
      have earlier := waits fun member => absent (List.mem_append_left _ member)
      rcases rotating.line_step tied step with ⟨none, more, joined⟩ | ⟨best, picked, earliest, served⟩ | empty
      · rw [none, joined, List.append_nil]
        exact earlier.join more
      · rw [picked] at absent ⊢
        rw [served]
        rw [same] at earliest
        exact earlier.serve earliest fun itself =>
          absent (List.mem_append_right _ (itself ▸ List.mem_cons_self))
      · rcases earlier with ⟨front, behind, split, _⟩
        rw [empty] at split
        exact absurd split.symm (List.append_ne_nil_of_right_ne_nil _ (List.cons_ne_nil _ _)))
  exact along.2.2 notChosen

end Line

/-! ## Fields that only a scheduler changes -/

/-- The field has nothing to do with what a round itself changes of a process. -/
def Standing (field : Process -> Nat) : Prop :=
  forall record status age pending holding,
    field { record with
      status := status, age := age, resourcesToAcquire := pending, resourcesHolding := holding } = field record

theorem Process.prio_standing : Standing Process.prio := fun _ _ _ _ _ => rfl

theorem Process.prioOrig_standing : Standing Process.prioOrig := fun _ _ _ _ _ => rfl

section Standing

variable {field : Process -> Nat} {sched : Scheduler} {before after : Configuration} {state : State}

theorem Standing.withStatus (standing : Standing field) (record : Process) (status : ProcessStatus) :
    field { record with status := status } = field record :=
  standing record status record.age record.resourcesToAcquire record.resourcesHolding

private theorem Standing.withResources (standing : Standing field) (record : Process)
    (pending holding : List ResourceSchedule) :
    field { record with resourcesToAcquire := pending, resourcesHolding := holding } = field record :=
  standing record record.status record.age pending holding

/-- A step that asks the scheduler whom to run leaves the field as it answers. -/
theorem Step.field_scheduled (standing : Standing field) (step : Step sched (.forking [], state) after)
    (process : Nat) : field (after.2.process process) = field ((sched.schedule state).2.process process) := by
  have dispatched : forall {scheduled updated : State} {next : Option Nat},
      sched.schedule state = (next, scheduled) ->
      retire state.current { scheduled with current := next } = .ok updated ->
        field (updated.process process) = field ((sched.schedule state).2.process process) := by
    intro scheduled updated next chosen retired
    rcases (retire_kept retired).process process with ⟨status, changed⟩
    rw [changed, standing.withStatus, chosen]
  cases step with
  | leave chosen retired empty => exact dispatched chosen retired
  | idle chosen retired waits =>
      have same := dispatched chosen retired
      exact same
  | @choose _ scheduled updated current chosen retired unlinked =>
      have marked := updated.field_modify current (fun record => { record with status := .running })
        (fun record => standing.withStatus record .running) process
      exact marked.trans (dispatched chosen retired)

/-- The other steps keep it, if the answers of the scheduler do. -/
theorem Step.field_kept (standing : Standing field)
    (acquire : forall {resourceId : Nat} {state after : State} {granted : Bool},
      sched.acquire resourceId state = .ok (granted, after) ->
        forall process, field (after.process process) = field (state.process process))
    (release : forall {resourceId : Nat} {state after : State}, sched.release resourceId state = .ok after ->
      forall process, field (after.process process) = field (state.process process))
    (step : Step sched before after) (unscheduled : forall state, before ≠ (.forking [], state)) (process : Nat) :
    field (after.2.process process) = field (before.2.process process) := by
  cases step with
  | begin state => rfl
  | visit forked todo state =>
      dsimp only
      rw [forkProcess_eq]
      split
      · have forks : ((state.fork forked).print (.forked forked)).process process = _ :=
          state.fork_process forked process
        rw [forks]
        exact standing.withStatus _ _
      · rfl
  | leave chosen retired empty => exact absurd rfl (unscheduled _)
  | idle chosen retired waits => exact absurd rfl (unscheduled _)
  | choose chosen retired unlinked => exact absurd rfl (unscheduled _)
  | pass notDue => rfl
  | @grant state granted current kept todo rs isDue asked =>
      have taken := granted.field_modify current (fun record => record.take kept todo rs)
        (fun record => standing.withResources record _ _) process
      exact taken.trans (acquire asked process)
  | refuse isDue asked => exact acquire asked process
  | grow current kept state =>
      exact state.field_modify current Process.grow
        (fun record => standing record record.status _ record.resourcesToAcquire record.resourcesHolding) process
  | @keep state current kept todo rs remains =>
      exact state.field_modify current (fun record => record.hold (kept ++ rs.countDown :: todo))
        (fun record => standing.withResources record record.resourcesToAcquire _) process
  | @release state released current kept todo rs expires asked =>
      have counted := state.field_modify current (fun record => record.hold (kept ++ rs.countDown :: todo))
        (fun record => standing.withResources record record.resourcesToAcquire _) process
      have freed := released.field_modify current (fun record => record.hold (kept ++ todo))
        (fun record => standing.withResources record record.resourcesToAcquire _) process
      exact freed.trans ((release asked process).trans counted)
  | finish current kept state => rfl

theorem fcfsAcquire_field (standing : Standing field) {resourceId : Nat} {after : State} {granted : Bool}
    (acquired : fcfsAcquire resourceId state = .ok (granted, after)) (process : Nat) :
    field (after.process process) = field (state.process process) := by
  rcases acquireWith_ok acquired with ⟨r, current, _, _, ⟨_, _, rfl⟩ | ⟨_, owner, _, rfl⟩⟩
  · rfl
  · have blocked := congrArg field (state.setStatus_process current .blocked process)
    exact blocked.trans (standing.withStatus _ _)

/-- A release that restores no priority. -/
theorem releaseWith_field (standing : Standing field) {select : State -> List Nat -> Option Nat} {resourceId : Nat}
    {after : State} (released : releaseWith (fun _ state => state) select resourceId state = .ok after)
    (process : Nat) : field (after.process process) = field (state.process process) := by
  rcases releaseWith_ok released with ⟨r, current, _, _, _, _, rfl, ⟨rfl, _⟩ | ⟨waiter, _, rfl⟩⟩
  · rfl
  · have woken := congrArg field ((state.setOwner r none).wake_process r waiter process)
    exact woken.trans (standing.withStatus _ _)

end Standing

/-! ## Schedulers that leave priorities alone -/

structure KeepsPrio (sched : Scheduler) : Prop where
  schedule : forall state process, ((sched.schedule state).2.process process).prio = (state.process process).prio
  acquire : forall {resourceId : Nat} {state after : State} {granted : Bool},
    sched.acquire resourceId state = .ok (granted, after) ->
      forall process, (after.process process).prio = (state.process process).prio
  release : forall {resourceId : Nat} {state after : State}, sched.release resourceId state = .ok after ->
    forall process, (after.process process).prio = (state.process process).prio

section Prio

variable {sched : Scheduler} {before after : Configuration} {state : State}

private theorem Step.prio (keeps : KeepsPrio sched) (step : Step sched before after) (process : Nat) :
    (after.2.process process).prio = (before.2.process process).prio := by
  by_cases scheduling : Exists fun state => before = (.forking [], state)
  · rcases scheduling with ⟨state, rfl⟩
    exact (step.field_scheduled Process.prio_standing process).trans (keeps.schedule state process)
  · exact step.field_kept Process.prio_standing keeps.acquire keeps.release
      (fun state same => scheduling ⟨state, same⟩) process

private theorem preemptive_prio (select : State -> List Nat -> Option Nat) (state : State) (process : Nat) :
    ((preemptive select state).2.process process).prio = (state.process process).prio := by
  unfold preemptive pickNext
  rw [State.requeue_eq]
  split <;> rfl

private theorem prioScheduler_keepsPrio : KeepsPrio prioScheduler := by
  refine ⟨preemptive_prio _, ?_, ?_⟩
  · intro resourceId state after granted acquired
    have asked : fcfsAcquire resourceId state = .ok (granted, after) := acquired
    exact fcfsAcquire_field Process.prio_standing asked
  · intro resourceId state after released
    have asked : prioRelease resourceId state = .ok after := released
    exact releaseWith_field Process.prio_standing asked

theorem rrScheduler_rotating : Rotating rrScheduler fun _ _ => 0 := by
  refine ⟨SchedulerName.rr.lawful, SchedulerName.rr.guarded, ?_, ?_, fun _ => rfl⟩
  · intro state scheduled next chosen
    have scheduled : rrSchedule state = (some next, scheduled) := chosen
    rcases preemptive_some scheduled with ⟨first, rest⟩
    refine ⟨?_, rest⟩
    cases queue : state.readyqueue ++ state.runnable.toList with
    | nil =>
        rw [queue] at first
        cases first
    | cons head tail =>
        rw [queue] at first
        cases first
        exact ⟨[], tail, rfl, fun _ never => absurd never List.not_mem_nil, fun _ _ => Nat.le_refl 0⟩
  · intro state scheduled chosen
    have idle : rrSchedule state = (none, scheduled) := chosen
    exact preemptive_none Selects.head idle

theorem prioScheduler_rotating : Rotating prioScheduler fun state process => (state.process process).prio := by
  refine ⟨SchedulerName.prio.lawful, SchedulerName.prio.guarded, ?_, ?_, fun step =>
    funext (step.prio prioScheduler_keepsPrio)⟩
  · intro state scheduled next chosen
    have scheduled : prioSchedule state = (some next, scheduled) := chosen
    rcases preemptive_some scheduled with ⟨found, rest⟩
    refine ⟨?_, rest⟩
    have earliest := scan_earliestMax (fun process => (state.requeue.process process).prio)
      (fun _ _ => decide_eq_true_iff) found
    rw [State.requeue_process] at earliest
    exact earliest
  · intro state scheduled chosen
    have idle : prioSchedule state = (none, scheduled) := chosen
    exact preemptive_none (Selects.scan _) idle

end Prio

/-- Under round robin nobody is chosen twice while a process is in the ready
queue.  With priorities nobody of smaller priority is chosen meanwhile, and
nobody of the same priority twice. -/
theorem rotating_fair (script : Script) {process : Nat} {chosen : List Nat} (notChosen : process ∉ chosen) :
    (forall start final, Reaches rrScheduler script start -> process ∈ line start ->
      Trace (Step rrScheduler) picks start chosen final -> forall other, chosen.count other ≤ 1) ∧
    (forall start final, Reaches prioScheduler script start -> process ∈ line start ->
      Trace (Step prioScheduler) picks start chosen final ->
        forall other, (other ∈ chosen -> (start.2.process process).prio ≤ (start.2.process other).prio) ∧
          ((start.2.process other).prio = (start.2.process process).prio -> chosen.count other ≤ 1)) := by
  constructor
  · intro start final reaches queued trace other
    rcases rrScheduler_rotating.waits reaches queued trace notChosen with ⟨front, behind, _, _, _, once⟩
    have bounded := once other rfl
    omega
  · intro start final reaches queued trace other
    rcases prioScheduler_rotating.waits reaches queued trace notChosen with ⟨front, behind, _, _, larger, once⟩
    refine ⟨larger other, ?_⟩
    intro same
    have bounded := once other same
    omega

theorem rotating_fair_crossing : Exists fun start => Exists fun final =>
    Reaches rrScheduler crossing start ∧ 1 ∈ line start ∧ Trace (Step rrScheduler) picks start [0] final ∧
      forall other, [0].count other ≤ 1 := by
  have reaches : Reaches rrScheduler crossing (.forking [], forkOnSchedule crossing.initial) :=
    .head (.begin crossing.initial) (forking_steps _ crossing.initial)
  have queued : 1 ∈ line (.forking [], forkOnSchedule crossing.initial) := by decide
  have first : Step rrScheduler (.forking [], forkOnSchedule crossing.initial) (.acquiring 0 [] _, _) :=
    .choose rfl rfl (by decide)
  have trace : Trace (Step rrScheduler) picks (.forking [], forkOnSchedule crossing.initial) [0] _ :=
    .tail .refl first
  exact ⟨_, _, reaches, queued, trace, (rotating_fair crossing (by decide)).1 _ _ reaches queued trace⟩

end Sched
end OsPa
