import OsPa.Sched.Causes
import OsPa.Sched.Chains
import OsPa.Sched.Fairness
import OsPa.Sched.Overtaking
import OsPa.Sched.Sparing

namespace OsPa
namespace Sched

open Library

/-!
# No priority inversion under inheritance

A process that waits for a resource passes its priority on to the owner.  When the
resource is released, the waiter of largest priority is woken up and stands for the
others until somebody takes the resource, who must have been preferred to it.  If
processes acquire one resource at a time, somebody of at least the priority of each
waiter can therefore always run, and a process that runs has at least the priority
of everybody who is ready or waits.
-/

/-- Who owns the resource, or is to ask for it next while it is free. -/
def Answers (configuration : Configuration) (r : Fin nrResources) (process : Nat) : Prop :=
  configuration.2.owner r = some process ∨
    (configuration.2.owner r = none ∧
      (process ∈ configuration.2.readyqueue ∨ configuration.1.asking = some process) ∧
        (configuration.2.process process).firstDue = some r.val)

/-- The process has at least the priority of all that are ready or wait. -/
structure Leading (state : State) (current : Nat) : Prop where
  ready : forall process, process ∈ state.readyqueue -> (state.process process).prio ≤ (state.process current).prio
  waiting : forall r process, process ∈ state.waitqueue r ->
    (state.process process).prio ≤ (state.process current).prio

/-- For each waiter somebody of at least its priority answers for the resource, and
who asks for resources leads. -/
structure Inheriting (configuration : Configuration) : Prop where
  answered : forall r waiter, waiter ∈ configuration.2.waitqueue r -> Exists fun process =>
    Answers configuration r process ∧
      (configuration.2.process waiter).prio ≤ (configuration.2.process process).prio
  leading : forall current, configuration.1.asking = some current -> Leading configuration.2 current

section Steps

variable {script : Script} {before after : Configuration} {state : State} {current : Nat}

/-- A step that changes neither priorities nor resources. -/
theorem Inheriting.keep (inheriting : Inheriting before)
    (prio : forall process, (after.2.process process).prio = (before.2.process process).prio)
    (owner : after.2.owner = before.2.owner) (waitqueue : after.2.waitqueue = before.2.waitqueue)
    (retries : forall (r : Fin nrResources) process, process ∈ before.2.readyqueue ∨ before.1.asking = some process ->
      (before.2.process process).firstDue = some r.val ->
        (process ∈ after.2.readyqueue ∨ after.1.asking = some process) ∧
          (after.2.process process).firstDue = some r.val)
    (leading : forall current, after.1.asking = some current -> Leading after.2 current) : Inheriting after := by
  refine ⟨?_, leading⟩
  intro r waiter waits
  rw [waitqueue] at waits
  rcases inheriting.answered r waiter waits with ⟨process, answers, atMost⟩
  refine ⟨process, ?_, by rw [prio, prio]; exact atMost⟩
  unfold Answers
  rw [owner]
  rcases answers with owns | ⟨free, place, due⟩
  · exact Or.inl owns
  · exact Or.inr ⟨free, retries r process place due⟩

/-- The choice changes neither priorities nor what is due. -/
theorem pip_dispatched {next : Option Nat} {scheduled updated : State}
    (chosen : pipScheduler.schedule state = (next, scheduled))
    (retired : retire state.current { scheduled with current := next } = .ok updated) :
    SamePrio state updated ∧ updated.waitqueue = state.waitqueue ∧ updated.readyqueue = scheduled.readyqueue ∧
      forall process, (updated.process process).firstDue = (state.process process).firstDue := by
  rcases (pipScheduler_restrained []).dispatched SchedulerName.pip.lawful chosen retired with
    ⟨same, waitqueue, readyqueue, _, due⟩
  exact ⟨same, waitqueue, readyqueue, due⟩

/-- Whoever is chosen leads. -/
theorem Inheriting.choose (valid : script.Valid)
    (sparing : forall description, description ∈ script -> description.Sparing)
    (between : Between script state) (spared : Sparing state) (inheriting : Inheriting (.forking [], state))
    {scheduled updated : State} (chosen : pipScheduler.schedule state = (some current, scheduled))
    (retired : retire state.current { scheduled with current := some current } = .ok updated) :
    Leading (updated.setStatus current .running) current := by
  rcases pip_dispatched chosen retired with ⟨same, waitqueue, readyqueue, _⟩
  rcases prioScheduler_rotating.best chosen with ⟨earliest, rest⟩
  have prio : forall process, ((updated.setStatus current .running).process process).prio =
      (state.process process).prio :=
    fun process => ((SamePrio.setStatus updated current .running).prio process).trans (same.prio process)
  have largest : forall process, process ∈ state.readyqueue ++ state.runnable.toList ->
      (state.process process).prio ≤ (state.process current).prio := earliest.le
  constructor
  case ready =>
    intro process ready
    have queued : process ∈ updated.readyqueue := ready
    rw [readyqueue, rest] at queued
    rw [prio, prio]
    exact largest process (List.mem_of_mem_erase queued)
  case waiting =>
    intro r process waits
    have waited : process ∈ updated.waitqueue r := waits
    rw [waitqueue] at waited
    rw [prio, prio]
    rcases inheriting.answered r process waited with ⟨other, answers, atMost⟩
    refine atMost.trans (largest other ?_)
    rcases answers with owns | ⟨_, ready, _⟩
    · rw [← between.settle_readyqueue]
      have settled : Sparing state.settle := by
        constructor
        · intro process
          rcases state.settle_process process with ⟨status, changed, _⟩
          rw [changed]
          exact spared.single process
        · intro process member
          rcases state.settle_process process with ⟨status, changed, _⟩
          rw [State.settle_forkqueue] at member
          rw [changed]
          exact spared.unforked process member
      apply between.settle.owner_ready valid sparing settled
      rw [State.settle_owner]
      exact owns
    · exact List.mem_append_left _ (ready.resolve_right nofun)

/-- A free resource is taken by a process that leads. -/
theorem Inheriting.grant {kept todo : List ResourceSchedule} {rs : ResourceSchedule}
    (acquiring : Acquiring script current kept (rs :: todo) state)
    (inheriting : Inheriting (.acquiring current kept (rs :: todo), state))
    (isDue : rs.at_ = (state.process current).age) {r : Fin nrResources} (indexed : r.val = rs.resourceId) :
    Inheriting (.acquiring current kept todo, (state.setOwner r (some current)).take current kept todo rs) := by
  have first := acquiring.first isDue
  have leads := inheriting.leading current rfl
  have prio : forall process, (((state.setOwner r (some current)).take current kept todo rs).process process).prio =
      (state.process process).prio :=
    (state.setOwner r (some current)).field_modify current (fun process => process.take kept todo rs) fun _ => rfl
  have owner : ((state.setOwner r (some current)).take current kept todo rs).owner =
      Function.update state.owner r (some current) := state.owner_setOwner r (some current)
  have waitqueue : ((state.setOwner r (some current)).take current kept todo rs).waitqueue = state.waitqueue :=
    state.waitqueue_setOwner r (some current)
  constructor
  case answered =>
    intro other waiter waits
    dsimp only at waits ⊢
    rw [waitqueue] at waits
    by_cases same : other = r
    · refine ⟨current, Or.inl ?_, ?_⟩
      · dsimp only
        rw [owner, same, Function.update_self]
      · rw [prio, prio]
        exact leads.waiting other waiter waits
    · rcases inheriting.answered other waiter waits with ⟨process, answers, atMost⟩
      refine ⟨process, ?_, by rw [prio, prio]; exact atMost⟩
      unfold Answers
      dsimp only
      rw [owner, Function.update_of_ne same]
      rcases answers with owns | ⟨free, place, due⟩
      · exact Or.inl owns
      · have different := ne_of_firstDue indexed same first due
        refine Or.inr ⟨free, Or.inl (place.resolve_right fun asks => different (Option.some.inj asks).symm), ?_⟩
        rw [State.take_process_of_ne _ different]
        exact due
  case leading =>
    intro other asks
    cases Option.some.inj asks
    constructor
    · intro process ready
      rw [prio, prio]
      exact leads.ready process ready
    · intro other process waits
      rw [waitqueue] at waits
      rw [prio, prio]
      exact leads.waiting other process waits

/-- Who is refused a resource passes its priority on to the owner. -/
theorem Inheriting.refuse (valid : script.Valid)
    (sparing : forall description, description ∈ script -> description.Sparing) {owner : Nat} {refused : State}
    {kept todo : List ResourceSchedule} {rs : ResourceSchedule}
    (acquiring : Acquiring script current kept (rs :: todo) state)
    (inheriting : Inheriting (.acquiring current kept (rs :: todo), state))
    (isDue : rs.at_ = (state.process current).age) {r : Fin nrResources} (indexed : r.val = rs.resourceId)
    (owned : state.owner r = some owner) (donated : Donated state current owner r refused)
    (readyqueue : refused.readyqueue = state.readyqueue)
    (due : forall process, process ≠ current ->
      (refused.process process).firstDue = (state.process process).firstDue) :
    Inheriting (.closing false, (refused.print (.blocked current rs.resourceId)).tick) := by
  have first := acquiring.first isDue
  have detached := acquiring.invariant.placed.of_detached
  have raised : forall process, (state.process process).prio ≤ (refused.process process).prio := by
    intro process
    rw [donated.prio]
    split
    case isTrue same => exact same ▸ Nat.le_max_left _ _
    case isFalse => exact Nat.le_refl _
  have kept : forall other waiter, waiter ∈ state.waitqueue other ->
      (refused.process waiter).prio = (state.process waiter).prio := by
    intro other waiter waits
    rw [donated.prio, if_neg]
    rintro rfl
    refine acquiring.invariant.waiter_unladen valid sparing waits ?_ owned
    intro same
    have queued := State.queued_of_waiting waits
    rw [← Option.some.inj same, detached.2.1] at queued
    exact Nat.lt_irrefl 0 queued
  refine ⟨?_, nofun⟩
  intro other waiter waits
  have waited : waiter ∈ refused.waitqueue other := waits
  rw [donated.waitqueues] at waited
  have owners : ((refused.print (.blocked current rs.resourceId)).tick).owner = state.owner := donated.owners
  by_cases same : other = r
  · subst other
    refine ⟨owner, Or.inl ((congrFun owners r).trans owned), ?_⟩
    have sum : (refused.process owner).prio = max (state.process owner).prio (state.process current).prio := by
      rw [donated.prio, if_pos rfl]
    have target : (refused.process waiter).prio ≤ (refused.process owner).prio := by
      rw [Function.update_self] at waited
      rcases List.mem_append.mp waited with earlier | last
      · rw [kept r waiter earlier, sum]
        rcases inheriting.answered r waiter earlier with ⟨process, owns | ⟨free, _⟩, atMost⟩
        · cases owned.symm.trans owns
          exact atMost.trans (Nat.le_max_left _ _)
        · cases owned.symm.trans free
      · rw [List.mem_singleton.mp last]
        by_cases itself : current = owner
        · rw [itself]
        · rw [sum, donated.prio, if_neg itself]
          exact Nat.le_max_right _ _
    exact target
  · rw [Function.update_of_ne same] at waited
    rcases inheriting.answered other waiter waited with ⟨process, answers, atMost⟩
    refine ⟨process, ?_, ?_⟩
    · unfold Answers
      rw [owners]
      rcases answers with owns | ⟨free, place, isNext⟩
      · exact Or.inl owns
      · have different := ne_of_firstDue indexed same first isNext
        refine Or.inr ⟨free, Or.inl ?_, (due process different).trans isNext⟩
        have ready : process ∈ refused.readyqueue :=
          readyqueue ▸ place.resolve_right fun asks => different (Option.some.inj asks).symm
        exact ready
    · have target : (refused.process waiter).prio ≤ (refused.process process).prio := by
        rw [kept other waiter waited]
        exact atMost.trans (raised process)
      exact target

/-- The waiter that is woken up has the largest priority, the owner out of account. -/
private theorem pipRelease_wakes {resourceId : Nat} {freed : State} (isCurrent : state.current = some current)
    (unlinked : state.queued current = 0) (asked : pipRelease resourceId state = .ok freed)
    {r : Fin nrResources} (indexed : r.val = resourceId) {waiter : Nat} (waits : waiter ∈ freed.waitqueue r) :
    Exists fun woken => woken ∈ state.waitqueue r ∧ woken ∈ freed.readyqueue ∧
      (state.process waiter).prio ≤ (state.process woken).prio := by
  rcases releaseWith_ok asked with ⟨r', owner, same, isOwner, _, unowned, rfl, outcome⟩
  cases isOwner.symm.trans isCurrent
  cases Fin.ext (indexed.trans same.symm)
  have queue : ((restorePrio current state).setOwner r none).waitqueue r = state.waitqueue r := by
    rw [State.waitqueue_setOwner]
    rfl
  have prio : forall process, process ∈ state.waitqueue r ->
      (((restorePrio current state).setOwner r none).process process).prio = (state.process process).prio := by
    intro process waiting
    apply (restorePrio_restored state current r).others
    rintro rfl
    exact Nat.ne_of_gt (State.queued_of_waiting waiting) unlinked
  rcases outcome with ⟨rfl, nobody⟩ | ⟨woken, selected, rfl⟩
  · have empty : ((restorePrio current state).setOwner r none).waitqueue r = [] :=
      nobody.elim (fun empty => empty) fun none => scan_eq_none.mp none
    rw [empty] at waits
    cases waits
  · have earliest := scan_earliestMax
      (fun process => (((restorePrio current state).setOwner r none).process process).prio)
      (fun _ _ => decide_eq_true_iff) selected
    rw [queue] at earliest
    rw [State.wake_waitqueue, Function.update_self, queue] at waits
    have waited := List.mem_of_mem_erase waits
    have atMost := earliest.le waiter waited
    rw [prio waiter waited, prio woken earliest.mem] at atMost
    exact ⟨woken, earliest.mem, List.mem_append_right _ List.mem_cons_self, atMost⟩

/-- Whoever is woken up stands for the others. -/
theorem Inheriting.release (spared : Sparing state) {kept todo : List ResourceSchedule} {rs : ResourceSchedule}
    (releasing : Releasing script current kept (rs :: todo) state)
    (inheriting : Inheriting (.releasing current kept (rs :: todo), state)) {freed : State}
    (asked : pipRelease rs.resourceId (state.hold current (kept ++ rs.countDown :: todo)) = .ok freed) :
    Inheriting (.releasing current kept todo,
      (freed.print (.released current rs.resourceId)).hold current (kept ++ todo)) := by
  let counted := state.hold current (kept ++ rs.countDown :: todo)
  have isCurrent : counted.current = some current := releasing.isCurrent
  have placed := releasing.count.placed
  have unlinked : counted.queued current = 0 := placed.of_detached.2.1
  have countedPrio : forall process, (counted.process process).prio = (state.process process).prio :=
    (SamePrio.hold state current _).prio
  have finalPrio : forall process, (((freed.print (.released current rs.resourceId)).hold current
      (kept ++ todo)).process process).prio = (freed.process process).prio :=
    (SamePrio.hold (freed.print (.released current rs.resourceId)) current _).prio
  rcases SchedulerName.pip.guarded.released SchedulerName.pip.lawful isCurrent
    (fun r waiter waits => (placed.waiting r waiter waits).1) asked with ⟨r, indexed, released⟩
  rcases releaseWith_restored isCurrent asked with ⟨r', indexed', owned, restored, _⟩
  cases Fin.ext (indexed.trans indexed'.symm)
  have notCurrent : forall {process : Nat}, 0 < counted.queued process -> process ≠ current := by
    rintro process queued rfl
    exact Nat.ne_of_gt queued unlinked
  have freedPrio : forall process, process ≠ current -> (freed.process process).prio = (state.process process).prio :=
    fun process different => (restored.others process different).trans (countedPrio process)
  refine ⟨?_, nofun⟩
  intro other waiter waits
  have waited : waiter ∈ freed.waitqueue other := waits
  have before := released.mem_waitqueue waited
  have waiterPrio := freedPrio waiter (notCurrent (State.queued_of_waiting before))
  by_cases same : other = r
  · subst other
    rcases pipRelease_wakes isCurrent unlinked asked indexed waited with ⟨woken, wasWaiting, ready, atMost⟩
    refine ⟨woken, Or.inr ⟨?_, Or.inl ready, ?_⟩, ?_⟩
    · exact (congrFun released.owner r).trans (Function.update_self ..)
    · have due := (placed.waiting r woken wasWaiting).2.2
      rw [state.hold_firstDue] at due
      exact (released.drop_firstDue kept todo rs woken).trans due
    · have wokenPrio := freedPrio woken (notCurrent (State.queued_of_waiting wasWaiting))
      rw [countedPrio, countedPrio] at atMost
      rw [finalPrio, finalPrio, waiterPrio, wokenPrio]
      exact atMost
  · have queue : freed.waitqueue other = state.waitqueue other := released.waitqueue_of_ne same
    rw [queue] at waited
    rcases inheriting.answered other waiter waited with ⟨process, answers, atMost⟩
    have owner : freed.owner other = state.owner other :=
      (congrFun released.owner other).trans (Function.update_of_ne same ..)
    have different : process ≠ current := by
      rintro rfl
      rcases answers with owns | ⟨_, ready, _⟩
      · exact same (spared.unique releasing.invariant.owned owns (releasing.owner indexed))
      · exact notCurrent (State.queued_of_ready (ready.resolve_right nofun)) rfl
    refine ⟨process, ?_, ?_⟩
    · rcases answers with owns | ⟨free, ready, due⟩
      · exact Or.inl (owner.trans owns)
      · have stays : process ∈ freed.readyqueue := released.mem_readyqueue (ready.resolve_right nofun)
        exact Or.inr ⟨owner.trans free, Or.inl stays, (released.drop_firstDue kept todo rs process).trans due⟩
    · rw [finalPrio, finalPrio, waiterPrio, freedPrio process different]
      exact atMost

/-- Each step of the inheritance protocol keeps the waiters answered. -/
theorem Inheriting.step (valid : script.Valid)
    (sparing : forall description, description ∈ script -> description.Sparing) (sound : Sound script before)
    (spared : Sparing before.2) (inheriting : Inheriting before) (step : Step pipScheduler before after) :
    Inheriting after := by
  have waiting : forall {queue : List Nat} {asking : Option Nat} {process : Nat}, asking = none ->
      process ∈ queue ∨ asking = some process -> process ∈ queue := by
    rintro queue asking process rfl place
    exact place.resolve_right nofun
  cases step with
  | begin state =>
      exact inheriting.keep (fun _ => rfl) rfl rfl (fun r process place due => ⟨Or.inl (waiting rfl place), due⟩) nofun
  | visit forked todo state =>
      have same := SamePrio.forkProcess state forked
      refine inheriting.keep same.prio same.owner ?_ ?_ nofun
      · dsimp only
        rw [forkProcess_eq]
        split <;> rfl
      · intro r process place due
        have ready := waiting rfl place
        dsimp only
        rw [forkProcess_eq]
        split
        · have forks : ((state.fork forked).print (.forked forked)).process process = _ :=
            state.fork_process forked process
          rw [forks]
          exact ⟨Or.inl (List.mem_append_left _ ready), due⟩
        · exact ⟨Or.inl ready, due⟩
  | @leave state scheduled updated chosen retired empty =>
      rcases pip_dispatched chosen retired with ⟨same, waitqueue, _, _⟩
      have nobody := prioScheduler_rotating.idle chosen
      refine inheriting.keep same.prio same.owner waitqueue (fun r process place _ => ?_) nofun
      have queued := List.mem_append_left state.runnable.toList (waiting rfl place)
      rw [nobody] at queued
      cases queued
  | @idle state scheduled updated chosen retired waits =>
      rcases pip_dispatched chosen retired with ⟨same, waitqueue, _, _⟩
      have nobody := prioScheduler_rotating.idle chosen
      refine inheriting.keep same.prio same.owner waitqueue (fun r process place _ => ?_) nofun
      have queued := List.mem_append_left state.runnable.toList (waiting rfl place)
      rw [nobody] at queued
      cases queued
  | @choose state scheduled updated current chosen retired unlinked =>
      rcases pip_dispatched chosen retired with ⟨same, waitqueue, readyqueue, due⟩
      have running := SamePrio.setStatus updated current .running
      refine inheriting.keep (fun process => (running.prio process).trans (same.prio process))
        (running.owner.trans same.owner) waitqueue ?_ ?_
      · intro r process place isDue
        have ready := List.mem_append_left state.runnable.toList (waiting rfl place)
        have status := congrArg Process.firstDue (updated.setStatus_process current .running process)
        refine ⟨?_, (status.trans (due process)).trans isDue⟩
        by_cases itself : current = process
        · exact Or.inr (congrArg some itself)
        · left
          have stays : process ∈ updated.readyqueue := by
            rw [readyqueue, (prioScheduler_rotating.best chosen).2]
            exact (List.mem_erase_of_ne fun same => itself same.symm).mpr ready
          exact stays
      · intro other asks
        cases Option.some.inj asks
        cases sound with
        | forking between nodup members passed =>
            exact inheriting.choose valid sparing between spared chosen retired
  | pass notDue =>
      exact inheriting.keep (fun _ => rfl) rfl rfl (fun r process place due => ⟨place, due⟩) inheriting.leading
  | @grant state granted current kept todo rs isDue asked =>
      cases sound with
      | acquiring acquiring =>
          have acquired : pipAcquire rs.resourceId state = .ok (true, granted) := asked
          rcases acquireWith_ok acquired with ⟨r, asking, indexed, isCurrent, ⟨_, _, rfl⟩ | ⟨never, _⟩⟩
          · cases isCurrent.symm.trans acquiring.isCurrent
            exact inheriting.grant acquiring isDue indexed
          · cases never
  | @refuse state refused current kept todo rs isDue asked =>
      cases sound with
      | acquiring acquiring =>
          rcases SchedulerName.pip.guarded.acquired SchedulerName.pip.lawful acquiring.isCurrent asked with
            ⟨r, indexed, answer⟩
          have acquired : pipAcquire rs.resourceId state = .ok (false, refused) := asked
          cases answer with
          | refused prio owner owned =>
              rcases pipAcquire_donated acquiring.isCurrent owned with ⟨donee, answered, donated⟩
              rw [indexed, acquired] at answered
              cases answered
              refine inheriting.refuse valid sparing acquiring isDue indexed owned donated rfl ?_
              intro process different
              have blocked := congrArg Process.firstDue (state.setStatus_process current .blocked process)
              exact blocked
  | grow current kept state =>
      cases sound with
      | acquiring acquiring =>
          have grown := SamePrio.modify state current Process.grow (fun _ => rfl) fun _ => rfl
          refine inheriting.keep grown.prio rfl rfl ?_ nofun
          intro r process place due
          have other : process ≠ current := by
            rintro rfl
            unfold Process.firstDue at due
            rw [acquiring.resources, due_append _ acquiring.passed] at due
            cases due
          have same := congrArg Process.firstDue (state.grow_process_of_ne other)
          exact ⟨Or.inl (place.resolve_right fun asks => other (Option.some.inj asks).symm), same.trans due⟩
  | @keep state current kept todo rs remains =>
      refine inheriting.keep (SamePrio.hold state current _).prio rfl rfl ?_ nofun
      intro r process place due
      exact ⟨Or.inl (waiting rfl place), (state.hold_firstDue current _ process).trans due⟩
  | release expires asked =>
      cases sound with
      | releasing releasing => exact inheriting.release spared releasing asked
  | finish current kept state =>
      exact inheriting.keep (fun _ => rfl) rfl rfl (fun r process place due => ⟨Or.inl (waiting rfl place), due⟩) nofun

private theorem Reaches.inheriting (valid : script.Valid)
    (sparing : forall description, description ∈ script -> description.Sparing) {reached : Configuration}
    (reaches : Reaches pipScheduler script reached) : Inheriting reached := by
  induction reaches with
  | refl => exact ⟨fun _ _ never => absurd never List.not_mem_nil, nofun⟩
  | @tail before after earlier step inductionHypothesis =>
      have reaches : Reaches pipScheduler script before := earlier
      have sound := reaches.sound valid SchedulerName.pip.lawful
      exact inductionHypothesis.step valid sparing sound (reaches.sparing valid SchedulerName.pip.lawful sparing) step

end Steps

/-- Under inheritance no priority is inverted, if processes acquire one resource at a
time.  A process that has acquired what was due, and runs for a tick, has at least the
priority of everybody who is ready or waits for a resource.  If it is one of smaller
priority in the script, it owns a resource. -/
theorem no_priority_inversion {script : Script} (valid : script.Valid)
    (sparing : forall description, description ∈ script -> description.Sparing) {current : Nat}
    {kept : List ResourceSchedule} {state : State}
    (reaches : Reaches pipScheduler script (.acquiring current kept [], state)) {process : Nat}
    (wantsToRun : process ∈ state.readyqueue ∨ Exists fun r => process ∈ state.waitqueue r) :
    (state.process process).prio ≤ (state.process current).prio ∧
      ((script.description current).prio < (script.description process).prio ->
        Exists fun r => state.owner r = some current) := by
  have leads := (reaches.inheriting valid sparing).leading current rfl
  have atMost : (state.process process).prio ≤ (state.process current).prio := by
    rcases wantsToRun with ready | ⟨r, waits⟩
    · exact leads.ready process ready
    · exact leads.waiting r process waits
  refine ⟨atMost, fun smaller => ?_⟩
  by_contra unowned
  have caused := reaches.byInheritance valid
  have queued : 0 < state.queued process := by
    rcases wantsToRun with ready | ⟨r, waits⟩
    · exact State.queued_of_ready ready
    · exact State.queued_of_waiting waits
  have inside : process < script.length :=
    (reaches.sound valid SchedulerName.pip.lawful).placed.lt_length queued
  have original := caused.unowned current fun r owns => unowned ⟨r, owns⟩
  rw [caused.prioOrig] at original
  have least := (caused.allowed process inside).1
  dsimp only at original least atMost
  omega

/-- The first process keeps the second one waiting when the third one arrives, whose
priority lies between theirs. -/
def intruding : Script := [⟨1, 5, 1, 0, [⟨1, 0, 3⟩]⟩, ⟨2, 2, 9, 1, [⟨1, 0, 1⟩]⟩, ⟨3, 4, 5, 2, []⟩]

theorem no_priority_inversion_intruding : Exists fun state =>
    Reaches pipScheduler intruding (.acquiring 0 [] [], state) ∧ 2 ∈ state.readyqueue ∧ 1 ∈ state.waitqueue 1 ∧
      (state.process 1).prio ≤ (state.process 0).prio ∧ Exists fun r => state.owner r = some 0 := by
  have simulates : Simulates pipScheduler intruding 2 false _ := ⟨_, rfl, rfl⟩
  have reaches : Exists fun state => Reaches pipScheduler intruding (.acquiring 0 [] [], state) ∧
      2 ∈ state.readyqueue ∧ 1 ∈ state.waitqueue 1 := ⟨_, simulates.choose rfl rfl (by decide), by decide, by decide⟩
  rcases reaches with ⟨state, reaches, ready, waits⟩
  have inverted := no_priority_inversion (by decide) (by decide) reaches (Or.inr ⟨1, waits⟩)
  exact ⟨state, reaches, ready, waits, inverted.1, inverted.2 (by decide)⟩

end Sched
end OsPa
