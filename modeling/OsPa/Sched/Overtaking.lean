import OsPa.Sched.Links
import OsPa.Library.Requests

namespace OsPa
namespace Sched

open Library

/-!
# Overtaking a waiter that has been woken up

fcfs_release frees a resource and puts its first waiter to the end of the ready
queue.  Until that process runs, the resource is free, and another process that
runs before it can take it, though it has asked later.  The first waiter is then
granted it later than that one, and goes to the end of the wait queue once more if
the other one still has the resource when it runs.  As long as no free resource
is asked for while another process is ready that has been refused it, this does
not happen: the resource is granted in the order of the requests.
-/

/-- What an event says about the requests for a resource. -/
def noticeOf (r : Fin nrResources) : Event -> Option (Notice Nat)
  | .blocked process resourceId => if resourceId = r.val then some (.refused process) else none
  | .acquired process resourceId => if resourceId = r.val then some (.granted process) else none
  | _ => none

/-- The requests for a resource as they have been printed. -/
def State.notices (state : State) (r : Fin nrResources) : List (Notice Nat) :=
  state.stderr.filterMap fun printed => noticeOf r printed.2

/-- Those who have been refused the resource and not been granted it since. -/
def State.pending (state : State) (r : Fin nrResources) : List Nat := awaiting (state.notices r)

/-- The next step does not grant a free resource while another process is ready
that waits to be granted it. -/
def Orderly : Configuration -> Prop
  | (.acquiring current _ (rs :: _), state) => rs.at_ = (state.process current).age ->
      forall r : Fin nrResources, r.val = rs.resourceId -> state.owner r = none ->
        forall process, process ∈ state.readyqueue -> process ∉ state.pending r
  | _ => True

/-- What a script leads to by steps that are all orderly. -/
def ReachesOrderly (sched : Scheduler) (script : Script) : Configuration -> Prop :=
  Relation.ReflTransGen (fun before after => Step sched before after ∧ Orderly before)
    (.closing false, script.initial)

/-- The process that goes through what it acquires. -/
def Phase.asking : Phase -> Option Nat
  | .acquiring current _ _ => some current
  | _ => none

/-- Those who wait to be granted the resource are the process that has been woken
up, if there is one, and the wait queue behind it. -/
structure Served (r : Fin nrResources) (woken : Option Nat) (configuration : Configuration) : Prop where
  pending : configuration.2.pending r = woken.toList ++ configuration.2.waitqueue r
  free : woken ≠ none -> configuration.2.owner r = none
  attended : configuration.2.owner r = none -> woken = none -> configuration.2.waitqueue r = []
  retries : forall process, woken = some process ->
    (process ∈ configuration.2.readyqueue ∨ configuration.1.asking = some process) ∧
      (configuration.2.process process).firstDue = some r.val

/-! ## Steps -/

section Steps

variable {script : Script} {sched : Scheduler} {before after : Configuration} {events : List Event}
  {r : Fin nrResources} {woken : Option Nat}

theorem Move.notices (move : Move before events after) (r : Fin nrResources) :
    after.2.notices r = before.2.notices r ++ events.filterMap (noticeOf r) := by
  unfold State.notices
  rw [move.stderr, List.filterMap_append, List.filterMap_map]
  rfl

private theorem State.farewell_notices (state : State) (r : Fin nrResources) :
    state.farewell.filterMap (noticeOf r) = [] := by
  unfold State.farewell
  split
  · rfl
  · split <;> rfl

private theorem State.farewell_unreleased (state : State) (process resourceId : Nat) :
    Event.released process resourceId ∉ state.farewell := by
  unfold State.farewell
  split
  · exact List.not_mem_nil
  · split
    · exact List.not_mem_nil
    · exact fun member => Event.noConfusion (List.mem_singleton.mp member)

theorem State.mem_settle_readyqueue {state : State} {process : Nat} (ready : process ∈ state.readyqueue) :
    process ∈ state.settle.readyqueue := by
  unfold State.settle
  split
  · exact ready
  · split
    · exact List.mem_append_left _ ready
    · exact ready

/-- A release leaves the other resources alone. -/
theorem Released.waitqueue_of_ne {released : Fin nrResources} {state freed : State}
    (effect : Released released state freed) (different : r ≠ released) : freed.waitqueue r = state.waitqueue r := by
  cases effect with
  | unwanted prio empty => exact congrFun (state.waitqueue_setOwner released none) r
  | woken prio waiter member =>
      rw [Released.woken_eq]
      have woken := congrFun ((state.setOwner released none).wake_waitqueue released waiter) r
      rw [Function.update_of_ne different, State.waitqueue_setOwner] at woken
      exact woken

theorem State.hold_firstDue (state : State) (current : Nat) (holding : List ResourceSchedule) (process : Nat) :
    ((state.hold current holding).process process).firstDue = (state.process process).firstDue := by
  by_cases same : process = current
  · subst process
    rw [State.hold_process_self]
    rfl
  · rw [State.hold_process_of_ne _ same]

/-- What the processes are to acquire next is the same after an entry is dropped. -/
theorem Released.drop_firstDue {released : Fin nrResources} {current : Nat} {state freed : State}
    {holding : List ResourceSchedule} (effect : Released released (state.hold current holding) freed)
    (kept todo : List ResourceSchedule) (rs : ResourceSchedule) (process : Nat) :
    (((freed.print (.released current rs.resourceId)).hold current (kept ++ todo)).process process).firstDue =
      (state.process process).firstDue := by
  have held := state.hold_firstDue current holding process
  rcases effect.process process with ⟨status, prio, changed, _⟩
  have same := congrArg Process.firstDue changed
  have later := (freed.print (.released current rs.resourceId)).hold_firstDue current (kept ++ todo) process
  exact later.trans (same.trans held)

/-- A step that does not concern the resource. -/
theorem Served.keep (served : Served r woken before) (pending : after.2.pending r = before.2.pending r)
    (owner : after.2.owner r = before.2.owner r) (waitqueue : after.2.waitqueue r = before.2.waitqueue r)
    (retries : forall process, process ∈ before.2.readyqueue ∨ before.1.asking = some process ->
      (before.2.process process).firstDue = some r.val ->
        (process ∈ after.2.readyqueue ∨ after.1.asking = some process) ∧
          (after.2.process process).firstDue = some r.val) : Served r woken after := by
  constructor
  case pending =>
    rw [pending, waitqueue]
    exact served.pending
  case free =>
    rw [owner]
    exact served.free
  case attended =>
    rw [owner, waitqueue]
    exact served.attended
  case retries =>
    intro process isWoken
    rcases served.retries process isWoken with ⟨place, due⟩
    exact retries process place due

/-- Who asks for another resource is not the one that retries. -/
theorem ne_of_firstDue {current process : Nat} {r' : Fin nrResources} {state : State} {rs : ResourceSchedule}
    (indexed : r'.val = rs.resourceId) (different : r ≠ r')
    (first : (state.process current).firstDue = some rs.resourceId)
    (due : (state.process process).firstDue = some r.val) : process ≠ current := by
  rintro rfl
  have same := Option.some.inj (due.symm.trans first)
  exact different (Fin.ext (same.trans indexed.symm))

/-- What is not noticed is about another resource. -/
theorem ne_of_silent {r' : Fin nrResources} {resourceId : Nat} {notice : Notice Nat} (indexed : r'.val = resourceId)
    (silent : (if resourceId = r.val then some notice else none) = none) : r ≠ r' := by
  rintro rfl
  rw [if_pos indexed.symm] at silent
  cases silent

/-- A step in which nobody is chosen, since nobody is ready. -/
theorem Served.unchosen {state : State} (served : Served r woken (.forking [], state))
    (ready : state.settle.readyqueue = []) (pending : after.2.pending r = state.pending r)
    (owner : after.2.owner = state.settle.owner) (waitqueue : after.2.waitqueue = state.settle.waitqueue) :
    Served r woken after := by
  apply served.keep pending
  · exact (congrFun owner r).trans (congrFun state.settle_owner r)
  · exact (congrFun waitqueue r).trans (congrFun state.settle_waitqueue r)
  · intro process place _
    have queued := State.mem_settle_readyqueue (place.resolve_right nofun)
    rw [ready] at queued
    exact absurd queued List.not_mem_nil

/-- A move that is not about the resource. -/
theorem Served.move (sound : Sound script before) (served : Served r woken before) (move : Move before events after)
    (quiet : events.filterMap (noticeOf r) = []) (unreleased : forall process, .released process r.val ∉ events) :
    Served r woken after := by
  have pending : after.2.pending r = before.2.pending r := by
    unfold State.pending
    rw [move.notices, quiet, List.append_nil]
  cases move with
  | begin state =>
      apply served.keep pending rfl rfl
      intro process place due
      exact ⟨Or.inl (place.resolve_right nofun), due⟩
  | wait early => exact served.keep pending rfl rfl fun process place due => ⟨place, due⟩
  | @fork forked todo state arrived =>
      apply served.keep pending rfl rfl
      intro process place due
      have same := congrArg Process.firstDue (state.fork_process forked process)
      exact ⟨Or.inl (List.mem_append_left _ (place.resolve_right nofun)), same.trans due⟩
  | leave prio ready forks => exact served.unchosen ready pending rfl rfl
  | idle prio ready forks => exact served.unchosen ready pending rfl rfl
  | @choose prio state current readyqueue moved =>
      apply served.keep pending (congrFun state.settle_owner r) (congrFun state.settle_waitqueue r)
      intro process place due
      have queued := moved.symm.subset (State.mem_settle_readyqueue (place.resolve_right nofun))
      rcases state.dispatched_process prio (some current) readyqueue process with ⟨status, same⟩
      have changed := congrArg Process.firstDue
        ((state.dispatched prio (some current) readyqueue).setStatus_process current .running process)
      rw [same] at changed
      refine ⟨?_, changed.trans due⟩
      rcases List.mem_cons.mp queued with rfl | rest
      · exact Or.inr rfl
      · exact Or.inl rest
  | pass notDue => exact served.keep pending rfl rfl fun process place due => ⟨place, due⟩
  | @grant prio state current kept todo rs r' isDue indexed free =>
      cases sound with
      | acquiring acquiring =>
          have different := ne_of_silent indexed (List.filterMap_eq_nil_iff.mp quiet _ List.mem_cons_self)
          have first := acquiring.first isDue
          apply served.keep pending
          · exact (congrFun (state.owner_setOwner r' (some current)) r).trans (Function.update_of_ne different ..)
          · exact congrFun (state.waitqueue_setOwner r' (some current)) r
          · intro process place due
            have other := ne_of_firstDue indexed different first due
            have same := congrArg Process.firstDue (((state.setOwner r' (some current)).reprioritized
              prio).take_process_of_ne other kept todo rs)
            exact ⟨Or.inl (place.resolve_right fun asks => other (Option.some.inj asks).symm), same.trans due⟩
  | @refuse prio state current owner kept todo rs r' isDue indexed owned =>
      cases sound with
      | acquiring acquiring =>
          have different := ne_of_silent indexed (List.filterMap_eq_nil_iff.mp quiet _ List.mem_cons_self)
          have first := acquiring.first isDue
          apply served.keep pending
          · exact congrFun ((state.setStatus current .blocked).owner_setWaitqueue r' _) r
          · exact (congrFun ((state.setStatus current .blocked).waitqueue_setWaitqueue r' _) r).trans
              (Function.update_of_ne different ..)
          · intro process place due
            have other := ne_of_firstDue indexed different first due
            have same := congrArg Process.firstDue (state.setStatus_process current .blocked process)
            exact ⟨Or.inl (place.resolve_right fun asks => other (Option.some.inj asks).symm), same.trans due⟩
  | grow current kept state =>
      cases sound with
      | acquiring acquiring =>
          apply served.keep pending rfl rfl
          intro process place due
          have other : process ≠ current := by
            rintro rfl
            unfold Process.firstDue at due
            rw [acquiring.resources, due_append _ acquiring.passed] at due
            cases due
          have same := congrArg Process.firstDue (state.grow_process_of_ne other)
          exact ⟨Or.inl (place.resolve_right fun asks => other (Option.some.inj asks).symm), same.trans due⟩
  | @keep state current kept todo rs remains =>
      apply served.keep pending rfl rfl
      intro process place due
      exact ⟨Or.inl (place.resolve_right nofun), (state.hold_firstDue current _ process).trans due⟩
  | @release state freed current kept todo rs r' expires indexed released =>
      have different : r ≠ r' := by
        rintro rfl
        rw [indexed] at unreleased
        exact unreleased current List.mem_cons_self
      apply served.keep pending
      · exact (congrFun released.owner r).trans (Function.update_of_ne different ..)
      · exact released.waitqueue_of_ne different
      · intro process place due
        have ready := released.mem_readyqueue (place.resolve_right nofun)
        exact ⟨Or.inl ready, (released.drop_firstDue kept todo rs process).trans due⟩
  | finish current kept state =>
      exact served.keep pending rfl rfl fun process place due => ⟨Or.inl (place.resolve_right nofun), due⟩

/-! ## The resource itself -/

section Resource

variable {current : Nat} {kept todo : List ResourceSchedule} {rs : ResourceSchedule} {state : State}

/-- A free resource is granted to the waiter that has been woken up for it, unless
nobody waits. -/
theorem Served.first (acquiring : Acquiring script current kept (rs :: todo) state)
    (served : Served r woken (.acquiring current kept (rs :: todo), state)) (free : state.owner r = none)
    (orderly : forall process, process ∈ state.readyqueue -> process ∉ state.pending r) :
    (forall first, (state.pending r).head? = some first -> first = current) ∧
      (state.pending r).filter (fun waiter => waiter ≠ current) = state.waitqueue r := by
  have pending : state.pending r = woken.toList ++ state.waitqueue r := served.pending
  cases woken with
  | none =>
      have empty : state.waitqueue r = [] := served.attended free rfl
      rw [pending, empty]
      exact ⟨nofun, rfl⟩
  | some process =>
      have itself : process = current := by
        rcases (served.retries process rfl).1 with ready | asks
        · refine absurd ?_ (orderly process ready)
          rw [pending]
          exact List.mem_cons_self
        · exact (Option.some.inj asks).symm
      subst process
      rw [pending]
      constructor
      · exact fun first isFirst => (Option.some.inj isFirst).symm
      · have others : forall waiter, waiter ∈ state.waitqueue r -> waiter ≠ current := by
          rintro waiter waits rfl
          have queued := State.queued_of_waiting waits
          have detached := acquiring.invariant.placed.of_detached.2.1
          omega
        have served : ¬ decide (current ≠ current) = true := fun never => (of_decide_eq_true never) rfl
        calc
          ((some current).toList ++ state.waitqueue r).filter (fun waiter => waiter ≠ current) =
              (state.waitqueue r).filter fun waiter => waiter ≠ current := List.filter_cons_of_neg served
          _ = state.waitqueue r :=
            List.filter_eq_self.mpr fun waiter waits => decide_eq_true (others waiter waits)

private theorem Served.grant (acquiring : Acquiring script current kept (rs :: todo) state)
    (served : Served r woken (.acquiring current kept (rs :: todo), state)) (free : state.owner r = none)
    (orderly : forall process, process ∈ state.readyqueue -> process ∉ state.pending r)
    (notices : after.2.notices r = state.notices r ++ [.granted current])
    (owner : after.2.owner r = some current) (waitqueue : after.2.waitqueue r = state.waitqueue r) :
    Served r none after := by
  rcases served.first acquiring free orderly with ⟨_, rest⟩
  constructor
  case pending =>
    unfold State.pending
    rw [notices, awaiting_concat, waitqueue]
    exact rest
  case free => exact fun never => absurd rfl never
  case attended =>
    intro free
    rw [owner] at free
    cases free
  case retries => exact fun _ never => absurd never (Option.some_ne_none _).symm

/-- While the resource is owned nobody has been woken up for it. -/
theorem Served.unwoken {before : Configuration} {owner : Nat} (served : Served r woken before)
    (owned : before.2.owner r = some owner) : woken = none := by
  by_contra somebody
  exact Option.some_ne_none owner (owned.symm.trans (served.free somebody))

/-- Who is refused goes to the end of the line. -/
theorem Served.refuse {before : Configuration} {owner : Nat} (served : Served r woken before)
    (owned : before.2.owner r = some owner) (notices : after.2.notices r = before.2.notices r ++ [.refused current])
    (sameOwner : after.2.owner r = some owner) (waitqueue : after.2.waitqueue r = before.2.waitqueue r ++ [current]) :
    Served r none after := by
  cases served.unwoken owned
  constructor
  case pending =>
    have line : (Notice.refused current).update (before.2.pending r) = before.2.pending r ++ [current] := rfl
    unfold State.pending at line ⊢
    rw [notices, awaiting_concat, line, waitqueue]
    exact congrArg (fun line => line ++ [current]) served.pending
  case free => exact fun never => absurd rfl never
  case attended =>
    intro free
    rw [sameOwner] at free
    cases free
  case retries => exact fun _ never => absurd never (Option.some_ne_none _).symm

/-- The first waiter is woken up. -/
private theorem Served.release {before : Configuration} {owner : Nat} (served : Served r woken before)
    (owned : before.2.owner r = some owner) (pending : after.2.pending r = before.2.pending r)
    (free : after.2.owner r = none) (waitqueue : after.2.waitqueue r = (before.2.waitqueue r).tail)
    (ready : forall process, (before.2.waitqueue r).head? = some process ->
      process ∈ after.2.readyqueue ∧ (after.2.process process).firstDue = some r.val) :
    Served r (before.2.waitqueue r).head? after := by
  cases served.unwoken owned
  constructor
  case pending =>
    rw [pending, waitqueue, served.pending]
    cases before.2.waitqueue r <;> rfl
  case free => exact fun _ => free
  case attended =>
    intro _ nobody
    rw [waitqueue, List.head?_eq_none_iff.mp nobody]
    rfl
  case retries => exact fun process isFirst => ⟨Or.inl (ready process isFirst).1, (ready process isFirst).2⟩

end Resource

/-! ## Runs -/

/-- fcfs_release wakes up the first waiter. -/
private theorem fcfsRelease_ok {resourceId : Nat} {state freed : State}
    (released : fcfsRelease resourceId state = .ok freed) :
    Exists fun r : Fin nrResources => Exists fun current => r.val = resourceId ∧ state.owner r = some current ∧
      freed.waitqueue r = (state.waitqueue r).tail ∧
        forall process, (state.waitqueue r).head? = some process -> process ∈ freed.readyqueue := by
  rcases releaseWith_ok released with ⟨r, current, same, _, owned, _, rfl, ⟨rfl, nobody⟩ | ⟨waiter, first, rfl⟩⟩
  · refine ⟨r, current, same, owned, ?_⟩
    rw [State.waitqueue_setOwner, or_iff_left_of_imp List.head?_eq_none_iff.mp] at nobody
    rw [State.waitqueue_setOwner, nobody]
    exact ⟨rfl, nofun⟩
  · refine ⟨r, current, same, owned, ?_, ?_⟩
    · rw [State.waitqueue_setOwner] at first
      rcases List.head?_eq_some_iff.mp first with ⟨rest, queue⟩
      rw [State.wake_waitqueue, Function.update_self, State.waitqueue_setOwner, queue]
      exact List.erase_cons_head ..
    · intro process isFirst
      rw [State.waitqueue_setOwner, isFirst] at first
      rw [Option.some.inj first]
      exact List.mem_append_right _ List.mem_cons_self

/-- The resource has been granted in order, and the line is as it should be. -/
def FirstCome (configuration : Configuration) : Prop :=
  forall r, InOrder (configuration.2.notices r) ∧ Exists fun woken => Served r woken configuration

/-- A step that releases does so by the callback. -/
private theorem Step.of_releasing {current : Nat} {kept todo : List ResourceSchedule} {rs : ResourceSchedule}
    {state : State}
    (expires : rs.countDown.duration = 0) (step : Step sched (.releasing current kept (rs :: todo), state) after) :
    Exists fun released =>
      sched.release rs.resourceId (state.hold current (kept ++ rs.countDown :: todo)) = .ok released ∧
      after = (.releasing current kept todo,
        (released.print (.released current rs.resourceId)).hold current (kept ++ todo)) := by
  cases step with
  | keep remains => exact absurd expires remains
  | release _ asked => exact ⟨_, asked, rfl⟩

private theorem Served.expire (releases : sched.release = fcfsRelease) {current : Nat}
    {kept todo : List ResourceSchedule}
    {rs : ResourceSchedule} {state freed : State} (releasing : Releasing script current kept (rs :: todo) state)
    (served : Served r woken (.releasing current kept (rs :: todo), state)) (indexed : r.val = rs.resourceId)
    (expires : rs.countDown.duration = 0)
    (released : Released r (state.hold current (kept ++ rs.countDown :: todo)) freed)
    (step : Step sched (.releasing current kept (rs :: todo), state) (.releasing current kept todo,
      (freed.print (.released current rs.resourceId)).hold current (kept ++ todo)))
    (notices : ((freed.print (.released current rs.resourceId)).hold current (kept ++ todo)).notices r =
      state.notices r) :
    Exists fun woken => Served r woken (.releasing current kept todo,
      (freed.print (.released current rs.resourceId)).hold current (kept ++ todo)) := by
  rcases step.of_releasing expires with ⟨freed', asked, outcome⟩
  rw [releases] at asked
  rcases fcfsRelease_ok asked with ⟨r', owner, indexed', owned, rest, woken⟩
  have itself : r' = r := Fin.ext (indexed'.trans indexed.symm)
  subst itself
  have waitqueue : freed.waitqueue r' = freed'.waitqueue r' :=
    congrArg (fun configuration : Configuration => configuration.2.waitqueue r') outcome
  have readyqueue : freed.readyqueue = freed'.readyqueue :=
    congrArg (fun configuration : Configuration => configuration.2.readyqueue) outcome
  refine ⟨_, served.release owned (congrArg awaiting notices) ?_ (waitqueue.trans rest) ?_⟩
  · exact (congrFun released.owner r').trans (Function.update_self ..)
  · intro process isFirst
    have due := (releasing.invariant.placed.waiting r' process (List.mem_of_head? isFirst)).2.2
    refine ⟨?_, (released.drop_firstDue kept todo rs process).trans due⟩
    have ready := woken process isFirst
    rw [← readyqueue] at ready
    exact ready

theorem FirstCome.step (valid : script.Valid) (lawful : Lawful sched) (releases : sched.release = fcfsRelease)
    (sound : Sound script before) (firstCome : FirstCome before) (orderly : Orderly before)
    (step : Step sched before after) : FirstCome after := by
  intro r
  rcases step.move valid lawful sound with ⟨events, move⟩
  rcases firstCome r with ⟨inOrder, woken, served⟩
  have notices := move.notices r
  have unconcerned : events.filterMap (noticeOf r) = [] -> (forall process, .released process r.val ∉ events) ->
      InOrder (after.2.notices r) ∧ Exists fun woken => Served r woken after := by
    intro quiet unreleased
    refine ⟨?_, woken, served.move sound move quiet unreleased⟩
    rw [notices, quiet, List.append_nil]
    exact inOrder
  have elsewhere : forall {r' : Fin nrResources} {resourceId : Nat}, r'.val = resourceId -> r' ≠ r ->
      ¬ resourceId = r.val := by
    rintro r' _ rfl different same
    exact different (Fin.ext same)
  cases move with
  | begin state => exact unconcerned rfl fun _ => List.not_mem_nil
  | wait early => exact unconcerned rfl fun _ => List.not_mem_nil
  | fork arrived => exact unconcerned rfl fun _ member => Event.noConfusion (List.mem_singleton.mp member)
  | @leave prio state ready forks =>
      exact unconcerned (state.farewell_notices r) fun process => state.farewell_unreleased process r.val
  | @idle prio state ready forks =>
      apply unconcerned
      · rw [List.filterMap_append, state.farewell_notices r]
        rfl
      · intro process member
        rcases List.mem_append.mp member with early | last
        · exact state.farewell_unreleased process r.val early
        · exact Event.noConfusion (List.mem_singleton.mp last)
  | @choose prio state current readyqueue moved =>
      exact unconcerned (state.farewell_notices r) fun process => state.farewell_unreleased process r.val
  | pass notDue => exact unconcerned rfl fun _ => List.not_mem_nil
  | @grant prio state current kept todo rs r' isDue indexed free =>
      by_cases same : r' = r
      · subst r'
        cases sound with
        | acquiring acquiring =>
            have granted : [Event.acquired current rs.resourceId].filterMap (noticeOf r) = [.granted current] :=
              List.filterMap_cons_some (if_pos indexed.symm)
            rw [granted] at notices
            have orderly := orderly isDue r indexed free
            refine ⟨?_, none, served.grant acquiring free orderly notices ?_ ?_⟩
            · rw [notices]
              apply inOrder.concat
              rintro item ⟨⟩
              exact (served.first acquiring free orderly).1
            · exact (congrFun (state.owner_setOwner r (some current)) r).trans (Function.update_self ..)
            · exact congrFun (state.waitqueue_setOwner r (some current)) r
      · apply unconcerned
        · exact List.filterMap_cons_none (if_neg (elsewhere indexed same))
        · exact fun _ member => Event.noConfusion (List.mem_singleton.mp member)
  | @refuse prio state current owner kept todo rs r' isDue indexed owned =>
      by_cases same : r' = r
      · subst r'
        have refused : [Event.blocked current rs.resourceId].filterMap (noticeOf r) = [.refused current] :=
          List.filterMap_cons_some (if_pos indexed.symm)
        rw [refused] at notices
        refine ⟨?_, none, served.refuse owned notices ?_ ?_⟩
        · rw [notices]
          exact inOrder.concat nofun
        · exact (congrFun ((state.setStatus current .blocked).owner_setWaitqueue r _) r).trans owned
        · exact (congrFun ((state.setStatus current .blocked).waitqueue_setWaitqueue r _) r).trans
            (Function.update_self ..)
      · apply unconcerned
        · exact List.filterMap_cons_none (if_neg (elsewhere indexed same))
        · exact fun _ member => Event.noConfusion (List.mem_singleton.mp member)
  | grow current kept state =>
      exact unconcerned rfl fun _ member => Event.noConfusion (List.mem_singleton.mp member)
  | keep remains => exact unconcerned rfl fun _ => List.not_mem_nil
  | @release state freed current kept todo rs r' expires indexed released =>
      by_cases same : r' = r
      · subst r'
        cases sound with
        | releasing releasing =>
            have silent : [Event.released current rs.resourceId].filterMap (noticeOf r) = [] := rfl
            rw [silent, List.append_nil] at notices
            exact ⟨notices ▸ inOrder, served.expire releases releasing indexed expires released step notices⟩
      · apply unconcerned rfl
        intro process member
        have resource := (Event.released.inj (List.mem_singleton.mp member)).2
        exact elsewhere indexed same resource.symm
  | finish current kept state => exact unconcerned rfl fun _ => List.not_mem_nil

theorem FirstCome.initial (script : Script) : FirstCome (.closing false, script.initial) := by
  intro r
  refine ⟨InOrder.nil, none, rfl, fun never => absurd rfl never, fun _ _ => rfl, ?_⟩
  exact fun _ never => absurd never (Option.some_ne_none _).symm

private theorem ReachesOrderly.firstCome (valid : script.Valid) (lawful : Lawful sched)
    (releases : sched.release = fcfsRelease)
    {configuration : Configuration} (reaches : ReachesOrderly sched script configuration) :
    Sound script configuration ∧ FirstCome configuration := by
  induction reaches with
  | refl => exact ⟨Sound.initial valid, FirstCome.initial script⟩
  | tail _ last inductionHypothesis =>
      rcases inductionHypothesis with ⟨sound, firstCome⟩
      rcases last.1.move valid lawful sound with ⟨events, move⟩
      exact ⟨sound.move valid move, firstCome.step valid lawful releases sound last.2 last.1⟩

/-- A step that is not orderly grants the resource to a process while another one
waits that has been refused it before. -/
theorem Step.overtakes (valid : script.Valid) (lawful : Lawful sched) (sound : Sound script before)
    (step : Step sched before after) (disorderly : ¬ Orderly before) :
    Exists fun r => Exists fun first => Exists fun middle => Exists fun waiter => Exists fun other =>
      after.2.notices r = first ++ .refused waiter :: (middle ++ [.granted other]) ∧ other ≠ waiter ∧
        .granted waiter ∉ middle := by
  rcases step.move valid lawful sound with ⟨events, move⟩
  unfold Orderly at disorderly
  split at disorderly
  case h_2 => exact absurd trivial disorderly
  case h_1 current kept rs todo state =>
    push Not at disorderly
    rcases disorderly with ⟨isDue, r, indexed, free, process, ready, pending⟩
    have notices := move.notices r
    cases move with
    | pass notDue => exact absurd isDue notDue
    | refuse prio isDue indexed' owned =>
        have same := Fin.ext (indexed'.trans indexed.symm)
        rw [same, free] at owned
        cases owned
    | @grant prio _ _ _ _ _ r' isDue indexed' free' =>
        have granted : [Event.acquired current rs.resourceId].filterMap (noticeOf r) = [.granted current] :=
          List.filterMap_cons_some (if_pos indexed.symm)
        rcases exists_of_mem_awaiting pending with ⟨first, middle, log, ungranted⟩
        dsimp only at notices
        rw [granted, log, List.append_assoc, List.cons_append] at notices
        refine ⟨r, first, middle, process, current, notices, ?_, ungranted⟩
        rintro rfl
        cases sound with
        | acquiring acquiring =>
            exact Nat.ne_of_gt (State.queued_of_ready ready) acquiring.invariant.placed.of_detached.2.1

/-- A run is orderly if its log shows nobody who is granted a resource while another
process waits that has been refused it before. -/
private theorem Reaches.orderly (valid : script.Valid) (lawful : Lawful sched) {reached : Configuration}
    (reaches : Reaches sched script reached)
    (kept : forall r first middle rest waiter other,
      reached.2.notices r = first ++ .refused waiter :: (middle ++ .granted other :: rest) -> other ≠ waiter ->
        .granted waiter ∈ middle) : ReachesOrderly sched script reached := by
  induction reaches with
  | refl => exact .refl
  | @tail before after earlier step inductionHypothesis =>
      have reaches : Reaches sched script before := earlier
      have sound := reaches.sound valid lawful
      rcases step.move valid lawful sound with ⟨events, move⟩
      refine Relation.ReflTransGen.tail (inductionHypothesis ?_) ⟨step, ?_⟩
      · intro r first middle rest waiter other log different
        apply kept r first middle (rest ++ events.filterMap (noticeOf r)) waiter other _ different
        rw [move.notices r, log]
        simp only [List.append_assoc, List.cons_append]
      · by_contra disorderly
        rcases step.overtakes valid lawful sound disorderly with
          ⟨r, first, middle, waiter, other, log, different, ungranted⟩
        exact ungranted (kept r first middle [] waiter other log different)

end Steps

/-- As long as nobody asks for a free resource while another process is ready that
has been refused it, resources are granted in the order of the requests.  The
first step that does not keep to this lets a process overtake. -/
theorem granted_in_order {script : Script} (valid : script.Valid) {name : SchedulerName}
    (firstCome : name ∈ [SchedulerName.fcfs, .sjf, .stcf, .rr]) {configuration : Configuration}
    (reaches : ReachesOrderly name.scheduler script configuration) :
    (forall r, InRequestOrder (configuration.2.notices r)) ∧
      forall after, Step name.scheduler configuration after -> ¬ Orderly configuration ->
        Exists fun r => Exists fun first => Exists fun middle => Exists fun waiter => Exists fun other =>
          after.2.notices r = first ++ .refused waiter :: (middle ++ [.granted other]) ∧ other ≠ waiter ∧
            .granted waiter ∉ middle := by
  have releases : name.scheduler.release = fcfsRelease := by
    cases name with
    | fcfs => rfl
    | sjf => rfl
    | stcf => rfl
    | rr => rfl
    | prio => exact absurd firstCome (by decide)
    | pa => exact absurd firstCome (by decide)
    | pcp => exact absurd firstCome (by decide)
    | pip => exact absurd firstCome (by decide)
  rcases reaches.firstCome valid name.lawful releases with ⟨sound, inOrder⟩
  exact ⟨fun r => (inOrder r).1.inRequestOrder, fun after step => step.overtakes valid name.lawful sound⟩

/-- The second process waits for the first one, and the third one comes later. -/
def relayed (arrival : Nat) : Script :=
  [⟨1, 3, 1, 0, [⟨1, 0, 2⟩]⟩, ⟨2, 2, 1, 0, [⟨1, 0, 1⟩]⟩, ⟨3, 2, 1, arrival, [⟨1, 0, 1⟩]⟩]

private theorem relayed_kept {first middle rest : List (Notice Nat)} {waiter other : Nat}
    (log : [.granted 0, .refused 1, .granted 1, .granted 2] =
      first ++ .refused waiter :: (middle ++ .granted other :: rest)) (different : other ≠ waiter) :
    .granted waiter ∈ middle := by
  rcases first with _ | ⟨notice, _ | ⟨later, first⟩⟩
  · cases (List.cons.inj log).1
  · -- The waiter is the process that is refused second in the log.
    cases (List.cons.inj (List.cons.inj log).2).1
    have behind := (List.cons.inj (List.cons.inj log).2).2
    cases middle with
    | nil => exact absurd (Notice.granted.inj (List.cons.inj behind).1).symm different
    | cons head middle =>
        rw [← (List.cons.inj behind).1]
        exact List.mem_cons_self
  · have behind := (List.cons.inj (List.cons.inj log).2).2
    have member : Notice.refused waiter ∈ [Notice.granted 1, .granted 2] := by
      rw [behind]
      exact List.mem_append_right _ List.mem_cons_self
    simp at member

/-- When the third process comes after the second one has been granted the resource,
nobody is overtaken. -/
theorem granted_in_order_relayed : Exists fun state => Simulates rrScheduler (relayed 3) 5 false state ∧
    state.notices 1 = [.granted 0, .refused 1, .granted 1, .granted 2] ∧
      ReachesOrderly rrScheduler (relayed 3) (.closing false, state) ∧ InRequestOrder (state.notices 1) := by
  have valid : (relayed 3).Valid := by decide
  have simulates : Simulates rrScheduler (relayed 3) 5 false _ := ⟨_, rfl, rfl⟩
  have logs : Exists fun state => Simulates rrScheduler (relayed 3) 5 false state ∧
      forall r, state.notices r = if r = 1 then [.granted 0, .refused 1, .granted 1, .granted 2] else [] :=
    ⟨_, simulates, by decide⟩
  rcases logs with ⟨state, simulates, logs⟩
  have orderly : ReachesOrderly SchedulerName.rr.scheduler (relayed 3) (.closing false, state) := by
    apply simulates.reaches.orderly valid SchedulerName.rr.lawful
    intro r first middle rest waiter other log different
    have log : state.notices r = first ++ .refused waiter :: (middle ++ .granted other :: rest) := log
    rw [logs] at log
    split at log
    · exact relayed_kept log different
    · exact absurd log.symm (List.append_ne_nil_of_right_ne_nil _ (List.cons_ne_nil _ _))
  exact ⟨state, simulates, logs 1, orderly, (granted_in_order valid (by decide) orderly).1 1⟩

/-- When it comes a tick earlier, it is granted the resource before the second one. -/
theorem waiter_overtaken : (relayed 2).Valid ∧ Exists fun state =>
    Simulates rrScheduler (relayed 2) 4 false state ∧ ¬ InRequestOrder (state.notices 1) := by
  have simulates : Simulates rrScheduler (relayed 2) 4 false _ := ⟨_, rfl, rfl⟩
  have log : Exists fun state => Simulates rrScheduler (relayed 2) 4 false state ∧
      state.notices 1 = [.granted 0, .refused 1, .granted 2] := ⟨_, simulates, by decide⟩
  rcases log with ⟨state, simulates, log⟩
  refine ⟨by decide, state, simulates, ?_⟩
  intro inRequestOrder
  exact absurd (inRequestOrder [.granted 0] [] [] 1 2 log (by decide) (by decide)) List.not_mem_nil

end Sched
end OsPa
