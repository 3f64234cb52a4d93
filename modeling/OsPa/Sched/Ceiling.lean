import OsPa.Sched.Bookkeeping
import OsPa.Sched.Causes
import OsPa.Sched.Chains
import OsPa.Sched.Fairness
import OsPa.Sched.Sparing

namespace OsPa
namespace Sched

open Library

/-!
# The priority ceiling

Under the ceiling protocol a process that owns a resource has the largest
priority, runs on, and nobody ever finds a resource owned.  This rests on the
process having that priority as long as it owns something.

`pcp_release` restores the original priority with every resource that it
releases, also while others are owned.  The protocol therefore works for the
scripts whose processes acquire one resource at a time, and for no others.
-/

/-- A process does not ask for a resource it still holds. -/
def Description.Separate (description : Description) : Prop :=
  description.acquires.Pairwise fun one other => one.resourceId = other.resourceId ->
    one.at_ + one.duration ≤ other.at_ ∨ other.at_ + other.duration ≤ one.at_

instance (description : Description) : Decidable description.Separate :=
  inferInstanceAs (Decidable (List.Pairwise _ _))

/-- What the protocol promises. -/
structure Capped (script : Script) (configuration : Configuration) : Prop where
  owners : forall r process, configuration.2.owner r = some process ->
    (configuration.2.process process).prio = maxPrio
  unwaited : forall r, configuration.2.waitqueue r = []
  unblocked : forall tick process resourceId, (tick, Event.blocked process resourceId) ∉ configuration.2.stderr
  exits : configuration.1 = .closing true -> forall process, process < script.length ->
    (configuration.2.process process).status = .exit

/-! ## One resource at a time is enough -/

/-- Who owns something is the current process and has the largest priority. -/
structure Ceiling (state : State) : Prop where
  owners : forall r process, state.owner r = some process -> (state.process process).prio = maxPrio
  holder : forall r process, state.owner r = some process -> state.current = some process
  unwaited : forall r, state.waitqueue r = []

section Steps

variable {script : Script} {state after : State} {before reached : Configuration}

/-- A step that leaves the priorities and the owners alone. -/
private theorem Ceiling.same (ceiling : Ceiling state) (same : SamePrio state after)
    (holder : forall r process, state.owner r = some process -> after.current = some process)
    (waitqueue : after.waitqueue = state.waitqueue) : Ceiling after := by
  constructor
  case owners =>
    intro r process owns
    rw [same.owner] at owns
    rw [same.prio]
    exact ceiling.owners r process owns
  case holder =>
    intro r process owns
    rw [same.owner] at owns
    exact holder r process owns
  case unwaited =>
    intro r
    rw [waitqueue]
    exact ceiling.unwaited r

/-- An owner can run on. -/
private theorem Ceiling.runnable (valid : script.Valid) (between : Between script state) (ceiling : Ceiling state)
    {r : Fin nrResources} {process : Nat} (owns : state.owner r = some process) :
    state.runnable = some process := by
  have isCurrent := ceiling.holder r process owns
  rcases between.invariant.owned.holding owns with ⟨rs, member, _⟩
  have young := (between.holder_young valid (List.ne_nil_of_mem member)).2
  have runs : (state.process process).status = .running := by
    rcases between.current process isCurrent with runs | ⟨other, waits⟩
    · exact runs
    · rw [ceiling.unwaited other] at waits
      cases waits
  unfold State.runnable
  rw [isCurrent, Option.filter_some, if_pos]
  simp [runs, young]

/-- While something is owned, its owner is chosen. -/
private theorem Ceiling.choose (valid : script.Valid)
    (prio : forall description, description ∈ script -> description.prio < maxPrio) (between : Between script state)
    (caused : Caused (ByCeiling script) script state) (ceiling : Ceiling state) {next : Option Nat} {scheduled : State}
    (chosen : pcpScheduler.schedule state = (next, scheduled)) {r : Fin nrResources} {process : Nat}
    (owns : state.owner r = some process) : next = some process := by
  have listed : process ∈ state.readyqueue ++ state.runnable.toList := by
    rw [ceiling.runnable valid between owns]
    exact List.mem_append_right _ List.mem_cons_self
  cases next with
  | none =>
      have idle : prioScheduler.schedule state = (none, scheduled) := chosen
      rw [prioScheduler_rotating.idle idle] at listed
      cases listed
  | some next =>
      have picked : prioScheduler.schedule state = (some next, scheduled) := chosen
      have best := (prioScheduler_rotating.best picked).1
      have atLeast := best.le process listed
      have largest := ceiling.owners r process owns
      by_contra different
      have queued := best.mem
      rw [← between.settle_readyqueue] at queued
      have smaller := prio _ (Script.description_mem
        (between.settle.placed.lt_length (State.queued_of_ready queued)))
      have unowned : forall other, state.owner other ≠ some next := by
        intro other owned
        exact different ((ceiling.holder other next owned).symm.trans (ceiling.holder r process owns))
      have original := caused.unowned next unowned
      rw [caused.prioOrig] at original
      omega

/-- The choice keeps the owners under the ceiling. -/
private theorem Ceiling.dispatch (valid : script.Valid)
    (prio : forall description, description ∈ script -> description.prio < maxPrio) (between : Between script state)
    (caused : Caused (ByCeiling script) script state) (ceiling : Ceiling state) {next : Option Nat}
    {scheduled : State} (chosen : pcpScheduler.schedule state = (next, scheduled))
    (retired : retire state.current { scheduled with current := next } = .ok after) : Ceiling after := by
  rcases (pcpScheduler_restrained script).dispatched SchedulerName.pcp.lawful chosen retired with
    ⟨same, waitqueue, _, current, _⟩
  refine ceiling.same same (fun r process owns => ?_) waitqueue
  rw [current]
  exact ceiling.choose valid prio between caused chosen owns

/-- The process that takes a resource gets the largest priority. -/
private theorem Ceiling.take {current : Nat} (ceiling : Ceiling state) (r : Fin nrResources)
    (isCurrent : state.current = some current) :
    Ceiling ((state.setOwner r (some current)).setPrio current maxPrio) := by
  have owner : ((state.setOwner r (some current)).setPrio current maxPrio).owner =
      Function.update state.owner r (some current) := state.owner_setOwner r (some current)
  have itself : forall other process, Function.update state.owner r (some current) other = some process ->
      process = current := by
    intro other process owns
    by_cases same : other = r
    · rw [same, Function.update_self] at owns
      exact (Option.some.inj owns).symm
    · rw [Function.update_of_ne same] at owns
      exact Option.some.inj ((ceiling.holder other process owns).symm.trans isCurrent)
  constructor
  case owners =>
    intro other process owns
    rw [owner] at owns
    rw [itself other process owns, State.setPrio_process_self]
  case holder =>
    intro other process owns
    rw [owner] at owns
    exact (itself other process owns).symm ▸ isCurrent
  case unwaited =>
    intro other
    exact (congrFun (state.waitqueue_setOwner r (some current)) other).trans (ceiling.unwaited other)

/-- Each step of the ceiling protocol keeps the owners under the ceiling. -/
private theorem Ceiling.step (valid : script.Valid)
    (prio : forall description, description ∈ script -> description.prio < maxPrio)
    (sparing : forall description, description ∈ script -> description.Sparing) {after : Configuration}
    (sound : Sound script before) (spared : Sparing before.2) (caused : Caused (ByCeiling script) script before.2)
    (ceiling : Ceiling before.2) (step : Step pcpScheduler before after) : Ceiling after.2 := by
  cases step with
  | begin state => exact ceiling
  | visit process todo state =>
      have current : (forkProcess state process).current = state.current := by
        rw [forkProcess_eq]
        split <;> rfl
      have waitqueue : (forkProcess state process).waitqueue = state.waitqueue := by
        rw [forkProcess_eq]
        split <;> rfl
      exact ceiling.same (SamePrio.forkProcess state process)
        (fun r process owns => current.trans (ceiling.holder r process owns)) waitqueue
  | leave chosen retired empty =>
      cases sound with
      | forking between => exact ceiling.dispatch valid prio between caused chosen retired
  | idle chosen retired waits =>
      cases sound with
      | forking between =>
          have dispatched := ceiling.dispatch valid prio between caused chosen retired
          exact dispatched.same ⟨fun _ => rfl, fun _ => rfl, rfl⟩ dispatched.holder rfl
  | @choose state scheduled updated current chosen retired unlinked =>
      cases sound with
      | forking between =>
          have dispatched := ceiling.dispatch valid prio between caused chosen retired
          exact dispatched.same (SamePrio.setStatus updated current .running) dispatched.holder rfl
  | pass notDue => exact ceiling
  | @grant state granted current kept todo rs isDue asked =>
      have acquired : pcpAcquire rs.resourceId state = .ok (true, granted) := asked
      rcases acquireWith_ok acquired with ⟨r, asking, _, isCurrent, ⟨_, _, rfl⟩ | ⟨never, _⟩⟩
      · have taken := SamePrio.modify ((state.setOwner r (some asking)).setPrio asking maxPrio) current
          (fun process => process.take kept todo rs) (fun _ => rfl) fun _ => rfl
        have owned := ceiling.take r isCurrent
        exact owned.same ⟨taken.prio, taken.prioOrig, taken.owner⟩ owned.holder rfl
      · cases never
  | @refuse state refused current kept todo rs isDue asked =>
      cases sound with
      | acquiring acquiring =>
          have acquired : pcpAcquire rs.resourceId state = .ok (false, refused) := asked
          rcases acquireWith_ok acquired with ⟨r, asking, _, _, ⟨never, _⟩ | ⟨_, owner, owned, _⟩⟩
          · cases never
          · -- The owner is the process that asks, which holds nothing now.
            cases acquiring.isCurrent.symm.trans (ceiling.holder r owner owned)
            rcases acquiring.invariant.owned.holding owned with ⟨held, member, _⟩
            have inside := acquiring.invariant.placed.of_detached.1
            have unladen := acquiring.punctual.unladen (sparing _ (Script.description_mem inside))
              (valid.description inside) (List.mem_append_right _ List.mem_cons_self) isDue
            rw [unladen] at member
            cases member
  | grow current kept state =>
      have grown := SamePrio.modify state current Process.grow (fun _ => rfl) fun _ => rfl
      exact ceiling.same ⟨grown.prio, grown.prioOrig, grown.owner⟩ ceiling.holder rfl
  | @keep state current kept todo rs remains => exact ceiling.same (SamePrio.hold state current _) ceiling.holder rfl
  | @release state released current kept todo rs expires asked =>
      cases sound with
      | releasing releasing =>
          have isCurrent : (state.hold current (kept ++ rs.countDown :: todo)).current = some current :=
            releasing.isCurrent
          have placed := releasing.count.placed
          rcases SchedulerName.pcp.guarded.released SchedulerName.pcp.lawful isCurrent
            (fun r waiter waits => (placed.waiting r waiter waits).1) asked with ⟨r, indexed, freed⟩
          -- What has been released is all that was owned.
          have unowned : forall other process, released.owner other ≠ some process := by
            intro other process owns
            rw [freed.owner] at owns
            by_cases same : other = r
            · rw [same, Function.update_self] at owns
              cases owns
            · rw [Function.update_of_ne same] at owns
              cases (ceiling.holder other process owns).symm.trans releasing.isCurrent
              exact same (spared.unique releasing.invariant.owned owns (releasing.owner indexed))
          refine ⟨fun other process owns => absurd owns (unowned other process),
            fun other process owns => absurd owns (unowned other process), ?_⟩
          intro other
          apply List.eq_nil_iff_forall_not_mem.mpr
          intro waiter waits
          have waited : waiter ∈ state.waitqueue other := freed.mem_waitqueue waits
          rw [ceiling.unwaited other] at waited
          cases waited
  | finish current kept state => exact ceiling.same ⟨fun _ => rfl, fun _ => rfl, rfl⟩ ceiling.holder rfl

private theorem Reaches.ceiling (valid : script.Valid)
    (prio : forall description, description ∈ script -> description.prio < maxPrio)
    (sparing : forall description, description ∈ script -> description.Sparing)
    (reaches : Reaches pcpScheduler script reached) : Ceiling reached.2 := by
  induction reaches with
  | refl => exact ⟨nofun, nofun, fun _ => rfl⟩
  | @tail before after earlier step inductionHypothesis =>
      have reaches : Reaches pcpScheduler script before := earlier
      have sound := reaches.sound valid SchedulerName.pcp.lawful
      have caused := reaches.byCeiling valid
      exact inductionHypothesis.step valid prio sparing sound
        (reaches.sparing valid SchedulerName.pcp.lawful sparing) caused step

/-- Who is said to be blocked waits. -/
private theorem Move.waits_of_blocked {after : Configuration} {events : List Event} (move : Move before events after)
    {process resourceId : Nat} (printed : Event.blocked process resourceId ∈ events) :
    Exists fun r => process ∈ after.2.waitqueue r := by
  have quiet : forall state : State, Event.blocked process resourceId ∉ state.farewell := by
    intro state said
    unfold State.farewell at said
    split at said
    · cases said
    · split at said
      · cases said
      · cases List.mem_singleton.mp said
  cases move with
  | @refuse prio state current owner kept todo rs r isDue indexed owned =>
      cases List.mem_singleton.mp printed
      exact ⟨r, mem_waitqueue_refused state⟩
  | @leave prio state ready forks => exact absurd printed (quiet state)
  | @choose prio state current readyqueue moved => exact absurd printed (quiet state)
  | @idle prio state ready forks =>
      rcases List.mem_append.mp printed with said | idle
      · exact absurd said (quiet state)
      · cases List.mem_singleton.mp idle
  | _ => cases printed <;> contradiction

/-- Where nobody waits in any state reached, nobody has been blocked. -/
private theorem Reaches.unblocked {sched : Scheduler} (valid : script.Valid) (lawful : Lawful sched)
    (unwaited : forall reached, Reaches sched script reached -> forall r, reached.2.waitqueue r = [])
    (reaches : Reaches sched script reached) (tick process resourceId : Nat) :
    (tick, Event.blocked process resourceId) ∉ reached.2.stderr := by
  induction reaches with
  | refl => exact List.not_mem_nil
  | @tail before after earlier step inductionHypothesis =>
      have reaches : Reaches sched script before := earlier
      have sound := reaches.sound valid lawful
      rcases step.move valid lawful sound with ⟨events, move⟩
      intro said
      rw [move.stderr] at said
      rcases List.mem_append.mp said with before | now
      · exact inductionHypothesis before
      · rcases List.mem_map.mp now with ⟨event, printed, same⟩
        cases same
        rcases move.waits_of_blocked printed with ⟨r, waits⟩
        rw [unwaited after (reaches.tail step) r] at waits
        cases waits

private theorem Reaches.capped (valid : script.Valid)
    (prio : forall description, description ∈ script -> description.prio < maxPrio)
    (sparing : forall description, description ∈ script -> description.Sparing)
    (reaches : Reaches pcpScheduler script reached) : Capped script reached := by
  have ceiling := reaches.ceiling valid prio sparing
  constructor
  case owners => exact ceiling.owners
  case unwaited => exact ceiling.unwaited
  case unblocked =>
    exact reaches.unblocked valid SchedulerName.pcp.lawful fun _ reaches =>
      (reaches.ceiling valid prio sparing).unwaited
  case exits =>
    intro leaves process inside
    have sound := reaches.sound valid SchedulerName.pcp.lawful
    cases sound with
    | closing between ended =>
        by_contra alive
        rcases between.waiting_of_ended (ended (Phase.closing.inj leaves)) inside alive with ⟨r, waits⟩
        have nobody : _ = [] := ceiling.unwaited r
        rw [nobody] at waits
        cases waits
    | forking between nodup members passed => cases leaves
    | acquiring acquiring => cases leaves
    | releasing releasing => cases leaves

end Steps

/-! ## Nothing less is enough -/

/-- Two entries of a script do not overlap. -/
def ResourceSchedule.Apart (one other : ResourceSchedule) : Prop :=
  one.at_ + one.duration ≤ other.at_ ∨ other.at_ + other.duration ≤ one.at_

/-- What is over does not overlap with anything else in the script. -/
structure Spaced (acquires remaining spent : List ResourceSchedule) : Prop where
  entries : (remaining ++ spent).Perm acquires
  among : spent.Pairwise ResourceSchedule.Apart
  apart : forall one, one ∈ spent -> forall other, other ∈ remaining -> one.Apart other

/-- The entries of the script that are not over. -/
def Configuration.remaining (configuration : Configuration) (process : Nat) : List ResourceSchedule :=
  (configuration.2.process process).resourcesToAcquire ++
    configuration.1.holding process (configuration.2.process process)

section Overlaps

variable {script : Script} {before after : Configuration}

private theorem Spaced.perm {acquires remaining remaining' spent : List ResourceSchedule}
    (spaced : Spaced acquires remaining spent) (same : remaining'.Perm remaining) :
    Spaced acquires remaining' spent :=
  ⟨(same.append_right spent).trans spaced.entries, spaced.among,
    fun one member other remains => spaced.apart one member other (same.subset remains)⟩

/-- An entry is over that was held alone. -/
private theorem Spaced.expire {acquires pending spent : List ResourceSchedule} {entry : ResourceSchedule}
    (spaced : Spaced acquires (pending ++ [entry]) spent)
    (ahead : forall other, other ∈ pending -> entry.at_ + entry.duration ≤ other.at_) :
    Spaced acquires pending (entry :: spent) := by
  have last : entry ∈ pending ++ [entry] := List.mem_append_right _ List.mem_cons_self
  constructor
  case entries =>
    have entries := spaced.entries
    rw [List.append_assoc, List.singleton_append] at entries
    exact entries
  case among =>
    refine List.pairwise_cons.mpr ⟨?_, spaced.among⟩
    exact fun one member => (spaced.apart one member entry last).symm
  case apart =>
    intro one member other pending
    rcases List.mem_cons.mp member with rfl | earlier
    · exact Or.inl (ahead other pending)
    · exact spaced.apart one earlier other (List.mem_append_left _ pending)

/-- Who owns nothing holds nothing. -/
private theorem Releasing.unladen {current : Nat} {kept todo : List ResourceSchedule} {state : State}
    (valid : script.Valid) (releasing : Releasing script current kept todo state)
    (scripted : forall entry, entry ∈ (Phase.releasing current kept todo).holding current (state.process current) ->
      entry ∈ (script.description current).acquires)
    (unowned : forall r, state.owner r ≠ some current) :
    (Phase.releasing current kept todo).holding current (state.process current) = [] := by
  apply List.eq_nil_iff_forall_not_mem.mpr
  intro entry member
  have description := valid.description releasing.invariant.placed.of_detached.1
  have indexed := description.resourceId entry (scripted entry member)
  rw [Phase.holding_releasing] at member
  have held : Exists fun rs =>
      rs ∈ (state.process current).resourcesHolding ∧ rs.resourceId = entry.resourceId := by
    rw [releasing.resources]
    rcases List.mem_append.mp member with early | late
    · rcases List.mem_map.mp early with ⟨rs, holds, rfl⟩
      exact ⟨rs, List.mem_append_left _ holds, rfl⟩
    · rcases List.mem_map.mp late with ⟨rs, holds, rfl⟩
      exact ⟨rs, List.mem_append_right _ holds, rfl⟩
  exact unowned ⟨entry.resourceId, indexed⟩ ((releasing.invariant.owned.iff ⟨_, indexed⟩ current).mpr held)

/-- A release restores the original priority, whatever else is owned. -/
private theorem Step.restores {current : Nat} {kept todo : List ResourceSchedule} {rs : ResourceSchedule}
    {state : State} (sound : Sound script (.releasing current kept (rs :: todo), state))
    (expires : rs.countDown.duration = 0)
    (step : Step pcpScheduler (.releasing current kept (rs :: todo), state) after) :
    (after.2.process current).prio = (after.2.process current).prioOrig := by
  cases step with
  | keep remains => exact absurd expires remains
  | @release _ released _ _ _ _ _ asked =>
      cases sound with
      | releasing releasing =>
          have isCurrent : (state.hold current (kept ++ rs.countDown :: todo)).current = some current :=
            releasing.isCurrent
          rcases releaseWith_restored isCurrent asked with ⟨r, _, _, restored, prioOrig⟩
          have dropped := SamePrio.hold (released.print (.released current rs.resourceId)) current (kept ++ todo)
          exact (dropped.prio current).trans
            (restored.restored.trans ((prioOrig current).symm.trans (dropped.prioOrig current).symm))

/-- A release of one of several resources breaks the promise. -/
private theorem Spaced.step (valid : script.Valid)
    (prio : forall description, description ∈ script -> description.prio < maxPrio) (sound : Sound script before)
    (prioOrig : forall process, (after.2.process process).prioOrig = (script.description process).prio)
    (capped : Capped script after) (step : Step pcpScheduler before after) (process : Nat)
    {spent : List ResourceSchedule}
    (spaced : Spaced (script.description process).acquires (before.remaining process) spent) :
    Exists fun spent => Spaced (script.description process).acquires (after.remaining process) spent := by
  rcases step.move valid SchedulerName.pcp.lawful sound with ⟨events, move⟩
  have sound' := sound.move valid move
  unfold Configuration.remaining at spaced ⊢
  cases move.transfer sound process with
  | same pending holding unbooked =>
      refine ⟨spent, ?_⟩
      rw [pending, holding]
      exact spaced
  | @grant kept todo rs state _ isDue asked pending holding =>
      refine ⟨spent, spaced.perm ?_⟩
      dsimp only
      rw [asked, pending, holding, ← List.append_assoc]
      have last := List.perm_append_singleton rs
        (kept ++ todo ++ (Phase.acquiring process kept (rs :: todo)).holding process (state.process process))
      exact last.trans ((List.perm_middle.symm).append_right _)
  | @release kept todo earlier later rs entry state after expires elapsed same pending held holding =>
      cases sound' with
      | releasing releasing =>
          have unowned : forall r, after.owner r ≠ some process := by
            intro r owns
            have largest := capped.owners r process owns
            have restored := step.restores sound expires
            have smaller := prio _ (Script.description_mem releasing.invariant.placed.of_detached.1)
            have original := prioOrig process
            dsimp only at largest restored original
            omega
          have listed := spaced.entries.subset
          dsimp only at spaced listed ⊢
          have nothing : (Phase.releasing process kept todo).holding process (after.process process) = [] := by
            apply releasing.unladen valid _ unowned
            intro other member
            rw [holding] at member
            apply listed
            rw [held]
            rcases List.mem_append.mp member with inFront | behind
            · simp only [List.mem_append, inFront, true_or, or_true]
            · simp only [List.mem_append, List.mem_cons, behind, true_or, or_true]
          refine ⟨entry :: spent, ?_⟩
          rw [nothing, pending, List.append_nil]
          rw [holding] at nothing
          rw [held, (List.append_eq_nil_iff.mp nothing).1, (List.append_eq_nil_iff.mp nothing).2] at spaced
          apply spaced.expire
          intro other waits
          rw [← pending] at waits
          have ahead := releasing.counting.pending other waits
          have age : (after.process process).age = (state.process process).age := (move.aged process).age
          omega

private theorem Reaches.spaced (valid : script.Valid)
    (prio : forall description, description ∈ script -> description.prio < maxPrio)
    (promised : forall reached, Reaches pcpScheduler script reached -> Capped script reached)
    (reaches : Reaches pcpScheduler script after) (process : Nat) :
    Exists fun spent => Spaced (script.description process).acquires (after.remaining process) spent := by
  induction reaches with
  | refl =>
      refine ⟨[], ?_, List.Pairwise.nil, nofun⟩
      have pending : (script.initial.process process).resourcesToAcquire ++ ([] ++ []) =
          (script.description process).acquires := List.append_nil _
      exact List.Perm.of_eq ((List.append_nil _).trans pending)
  | @tail before after earlier step inductionHypothesis =>
      have reaches : Reaches pcpScheduler script before := earlier
      have reached : Reaches pcpScheduler script after := reaches.tail step
      have sound := reaches.sound valid SchedulerName.pcp.lawful
      have caused := reached.byCeiling valid
      rcases inductionHypothesis with ⟨spent, spaced⟩
      exact Spaced.step valid prio sound caused.prioOrig (promised after reached) step process spaced

/-- Whoever has exited has gone through all of its entries. -/
private theorem Between.remaining_nil (valid : script.Valid) {state : State} (between : Between script state)
    {process : Nat} (inside : process < script.length) (exited : (state.process process).status = .exit)
    (left : Bool) : Configuration.remaining (.closing left, state) process = [] := by
  have punctual := between.punctual process
  have description := valid.description inside
  have old := between.invariant.placed.exited process exited
  rw [between.invariant.placed.lifespan process] at old
  apply List.eq_nil_iff_forall_not_mem.mpr
  intro entry member
  unfold Configuration.remaining at member
  rcases List.mem_append.mp member with pending | holding
  · have ahead := punctual.pending entry pending
    have within := description.within entry (punctual.pending_mem pending)
    have lasting := description.duration entry (punctual.pending_mem pending)
    omega
  · rcases List.mem_map.mp holding with ⟨rs, holds, _⟩
    have young := punctual.held_young description holds
    omega

end Overlaps

/-- The ceiling protocol keeps its promise in every state reached, also in the middle
of a round, if and only if the acquires of no process overlap: nothing is released
while something else is held. -/
theorem owners_have_maxPrio_iff {script : Script} (valid : script.Valid)
    (prio : forall description, description ∈ script -> description.prio < maxPrio) :
    (forall reached, Reaches pcpScheduler script reached -> Capped script reached) ↔
      forall description, description ∈ script -> description.Sparing := by
  constructor
  · intro promised description member
    rcases List.getElem_of_mem member with ⟨process, inside, rfl⟩
    rcases SchedulerName.pcp.lawful.exists_left valid with ⟨rounds, state, simulates⟩
    have reaches := simulates.reaches
    have exited := (promised _ reaches).exits rfl process inside
    rcases reaches.spaced valid prio promised process with ⟨spent, spaced⟩
    rw [(simulates.between .pcp valid).1.remaining_nil valid inside exited] at spaced
    have entries : spent.Perm (script.description process).acquires := spaced.entries
    have sparing : (script.description process).Sparing :=
      (entries.pairwise_iff fun apart => apart.symm).mp spaced.among
    unfold Script.description at sparing
    rw [List.getD_eq_getElem?_getD, List.getElem?_eq_getElem inside, Option.getD_some] at sparing
    exact sparing
  · exact fun sparing reached reaches => reaches.capped valid prio sparing

/-- Two processes that take two resources each, one after the other. -/
def alternating : Script :=
  [⟨1, 4, 5, 0, [⟨1, 0, 2⟩, ⟨2, 2, 2⟩]⟩, ⟨2, 3, 9, 1, [⟨2, 0, 1⟩, ⟨1, 1, 2⟩]⟩]

/-- The first one keeps its resource, and runs on, when the second one of larger
priority has arrived. -/
theorem owners_have_maxPrio_iff_alternating : Exists fun state =>
    Reaches pcpScheduler alternating (.acquiring 0 [] [⟨2, 2, 2⟩], state) ∧ 1 ∈ state.readyqueue ∧
      state.owner 1 = some 0 ∧ (state.process 0).prioOrig < (state.process 1).prio ∧ (state.process 0).prio = 64 ∧
        forall r, state.waitqueue r = [] := by
  have simulates : Simulates pcpScheduler alternating 1 false _ := ⟨_, rfl, rfl⟩
  have reaches : Exists fun state => Reaches pcpScheduler alternating (.acquiring 0 [] [⟨2, 2, 2⟩], state) ∧
      1 ∈ state.readyqueue ∧ state.owner 1 = some 0 ∧ (state.process 0).prioOrig < (state.process 1).prio :=
    ⟨_, simulates.choose rfl rfl (by decide), by decide, by decide, by decide⟩
  rcases reaches with ⟨state, reaches, ready, owns, smaller⟩
  have capped := (owners_have_maxPrio_iff (by decide) (by decide)).mpr (by decide) _ reaches
  exact ⟨state, reaches, ready, owns, smaller, capped.owners 1 0 owns, capped.unwaited⟩

/-- A process that releases one of its two resources first. -/
def nested : Script := [⟨1, 4, 5, 0, [⟨1, 0, 1⟩, ⟨2, 0, 3⟩]⟩]

/-- After that it owns the other one with its original priority. -/
theorem partial_release_drops_ceiling : nested.Valid ∧
    (forall description, description ∈ nested -> description.prio < maxPrio) ∧
    (forall description, description ∈ nested -> description.Separate) ∧
    Exists fun state => Simulates pcpScheduler nested 1 false state ∧
      state.owner 2 = some 0 ∧ (state.process 0).prio ≠ maxPrio := by
  have simulates : Simulates pcpScheduler nested 1 false _ := ⟨_, rfl, rfl⟩
  exact ⟨by decide, by decide, by decide, _, simulates, rfl, by decide⟩

end Sched
end OsPa
