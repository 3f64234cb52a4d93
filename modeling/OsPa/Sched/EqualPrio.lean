import OsPa.Sched.Aging
import OsPa.Sched.Lockstep
import OsPa.Sched.WakeUp

namespace OsPa
namespace Sched

open Library

/-!
# Equal priorities

When all processes have the same priority the schedulers with priorities do what
round robin does.  For `prio` and `pip` the priorities stay equal.  For `pa` they
grow while processes wait, but who came first has grown most, and is taken first.
This works as long as no priority grows past the word size.
-/

/-! ## The callbacks with equal priorities -/

section Callbacks

variable {state after : State} {prio : Nat -> Nat} {resourceId : Nat}

/-- Of processes of one priority the first one is taken. -/
theorem highestPrio_of_equal {value : Nat} {queue : List Nat}
    (equal : forall process, process ∈ queue -> (state.process process).prio = value) :
    highestPrio state queue = queue.head? := by
  cases queue with
  | nil => rfl
  | cons first rest =>
      cases found : highestPrio state (first :: rest) with
      | none => exact absurd (scan_eq_none.mp found) (List.cons_ne_nil _ _)
      | some best =>
          have earliest := scan_earliestMax (fun process => (state.process process).prio)
            (fun _ _ => decide_eq_true_iff) found
          rw [earliest.eq_head]
          · rfl
          · intro process member
            rw [equal process (List.mem_cons_of_mem _ member), equal first List.mem_cons_self]

theorem acquireWith_mirrors {wait : Nat -> Nat -> State -> State} {granted : Bool}
    (waits : forall r owner current, state.owner r = some owner -> state.current = some current ->
      wait owner current (state.reprioritized prio) = state.reprioritized prio)
    (asked : fcfsAcquire resourceId state = .ok (granted, after)) :
    acquireWith (fun _ state => state) wait resourceId (state.reprioritized prio) =
      .ok (granted, after.reprioritized prio) := by
  unfold fcfsAcquire acquireWith at asked
  unfold acquireWith
  cases index : resourceIndex resourceId with
  | none =>
      rw [index] at asked
      cases asked
  | some r =>
      have sameCurrent : (state.reprioritized prio).current = state.current := rfl
      cases isCurrent : state.current with
      | none =>
          rw [index, isCurrent] at asked
          cases asked
      | some current =>
          have sameOwner : ((state.reprioritized prio).resources r).owner = (state.resources r).owner := rfl
          rw [index, isCurrent] at asked
          rw [sameCurrent, isCurrent]
          dsimp only at asked ⊢
          rw [sameOwner]
          cases owned : (state.resources r).owner with
          | none =>
              rw [owned] at asked
              cases asked
              rfl
          | some owner =>
              rw [owned] at asked
              cases asked
              dsimp only
              rw [waits r owner current owned isCurrent, State.setStatus_reprioritized]
              rfl

theorem fcfsAcquire_mirrors {granted : Bool} (asked : fcfsAcquire resourceId state = .ok (granted, after)) :
    fcfsAcquire resourceId (state.reprioritized prio) = .ok (granted, after.reprioritized prio) := by
  apply acquireWith_mirrors _ asked
  exact fun _ _ _ _ _ => rfl

theorem releaseWith_mirrors {restore : Nat -> State -> State} {select : State -> List Nat -> Option Nat}
    (restores : forall current, state.current = some current ->
      restore current (state.reprioritized prio) = state.reprioritized prio)
    (selects : forall r, select ((state.reprioritized prio).setOwner r none) (state.waitqueue r) =
      (state.waitqueue r).head?)
    (released : fcfsRelease resourceId state = .ok after) :
    releaseWith restore select resourceId (state.reprioritized prio) = .ok (after.reprioritized prio) := by
  unfold fcfsRelease releaseWith at released
  unfold releaseWith
  cases index : resourceIndex resourceId with
  | none =>
      rw [index] at released
      cases released
  | some r =>
      have sameCurrent : (state.reprioritized prio).current = state.current := rfl
      cases isCurrent : state.current with
      | none =>
          rw [index, isCurrent] at released
          cases released
      | some current =>
          have sameOwner : ((state.reprioritized prio).resources r).owner = (state.resources r).owner := rfl
          rw [index, isCurrent] at released
          rw [sameCurrent, isCurrent]
          dsimp only at released ⊢
          rw [sameOwner, restores current isCurrent]
          by_cases owned : (state.resources r).owner = some current
          · rw [if_pos owned] at released ⊢
            have waiters : ((state.setOwner r none).resources r).waitqueue = state.waitqueue r :=
              congrFun (state.waitqueue_setOwner r none) r
            have waiters' : (((state.reprioritized prio).setOwner r none).resources r).waitqueue =
              state.waitqueue r := waiters
            have choice := selects r
            rw [waiters] at released
            rw [waiters']
            cases queue : state.waitqueue r with
            | nil =>
                rw [queue] at released
                cases released
                rfl
            | cons first rest =>
                rw [queue] at released choice
                dsimp only at released ⊢
                by_cases blocked : ((state.setOwner r none).process first).status = .blocked
                · rw [if_pos blocked] at released
                  rw [choice]
                  cases released
                  apply (if_pos blocked).trans
                  have ready := State.setStatus_reprioritized
                    ((state.setOwner r none).setWaitqueue r ((first :: rest).erase first)) prio first .ready
                  exact congrArg (fun ready : State => Except.ok (ready.addReady first)) ready
                · rw [if_neg blocked] at released
                  cases released
          · rw [if_neg owned] at released
            cases released

theorem prioRelease_mirrors
    (selects : forall r, highestPrio ((state.reprioritized prio).setOwner r none) (state.waitqueue r) =
      (state.waitqueue r).head?)
    (released : fcfsRelease resourceId state = .ok after) :
    prioRelease resourceId (state.reprioritized prio) = .ok (after.reprioritized prio) := by
  apply releaseWith_mirrors _ selects released
  exact fun _ _ => rfl

theorem pickNext_mirrors {select : State -> List Nat -> Option Nat} {queued : State}
    (selects : select (queued.reprioritized prio) queued.readyqueue = queued.readyqueue.head?) :
    pickNext select (queued.reprioritized prio) =
      ((pickNext (fun _ queue => queue.head?) queued).1,
        (pickNext (fun _ queue => queue.head?) queued).2.reprioritized prio) := by
  have sameQueue : (queued.reprioritized prio).readyqueue = queued.readyqueue := rfl
  unfold pickNext
  rw [sameQueue, selects]
  dsimp only
  cases queued.readyqueue.head? with
  | none => rfl
  | some next => rfl

/-- Round robin takes the first process of the queue. -/
theorem rrSchedule_cons {first : Nat} {rest : List Nat} (queue : state.requeue.readyqueue = first :: rest) :
    rrSchedule state = (some first, { state.requeue with readyqueue := rest }) := by
  unfold rrSchedule preemptive pickNext
  rw [queue]
  dsimp only [List.head?_cons]
  rw [List.erase_cons_head]

theorem rrSchedule_nil (queue : state.requeue.readyqueue = []) : rrSchedule state = (none, state.requeue) := by
  unfold rrSchedule preemptive pickNext
  rw [queue]
  rfl

end Callbacks

/-! ## Priorities that stay equal -/

/-- Waiters of one priority are woken up in their order. -/
theorem Invariant.wakes_head {script : Script} {detached next : Option Nat} {state : State} {prio : Nat -> Nat}
    {value : Nat} (invariant : Invariant script detached next state)
    (outside : forall process, process < script.length -> process ∉ state.readyqueue -> prio process = value)
    (r : Fin nrResources) :
    highestPrio ((state.reprioritized prio).setOwner r none) (state.waitqueue r) = (state.waitqueue r).head? := by
  apply highestPrio_of_equal
  intro process waits
  exact outside process (invariant.placed.lt_length (State.queued_of_waiting waits))
    (invariant.placed.waiting_not_ready waits)

/-- All processes of the script have the priority. -/
def Flat (script : Script) (value : Nat) (queue : List Nat) (prio : Nat -> Nat) : Prop :=
  (forall process, process ∈ queue -> process < script.length) ∧
    forall process, process < script.length -> prio process = value

/-- Who owns a resource is in the script. -/
theorem Acquiring.owner_lt {script : Script} {current : Nat} {kept todo : List ResourceSchedule} {state : State}
    (acquiring : Acquiring script current kept todo state) {r : Fin nrResources} {owner : Nat}
    (owned : state.owner r = some owner) : owner < script.length := by
  by_cases same : owner = current
  · rw [same]
    exact acquiring.invariant.placed.of_detached.1
  · have punctual := acquiring.invariant.punctual owner fun itself => same (Option.some.inj itself).symm
    rcases acquiring.invariant.owned.holding owned with ⟨rs, member, _⟩
    exact Script.lt_length_of_acquire (punctual.restore_mem member)

section Flat

variable {script : Script} {value : Nat}

theorem Flat.append {queue : List Nat} {prio : Nat -> Nat} {process : Nat} (flat : Flat script value queue prio)
    (inside : process < script.length) : Flat script value (queue ++ [process]) prio := by
  refine ⟨?_, flat.2⟩
  intro other member
  rcases List.mem_append.mp member with earlier | last
  · exact flat.1 other earlier
  · rw [List.mem_singleton.mp last]
    exact inside

/-- The priority scheduler does what round robin does. -/
theorem Flat.schedule {state : State} {prio : Nat -> Nat} (flat : Flat script value state.requeue.readyqueue prio) :
    prioSchedule (state.reprioritized prio) = ((rrSchedule state).1, (rrSchedule state).2.reprioritized prio) ∧
      Flat script value (rrSchedule state).2.readyqueue prio := by
  constructor
  · unfold prioSchedule preemptive
    rw [State.requeue_reprioritized]
    apply pickNext_mirrors
    apply highestPrio_of_equal
    exact fun process member => flat.2 process (flat.1 process member)
  · cases queue : state.requeue.readyqueue with
    | nil =>
        rw [rrSchedule_nil queue]
        exact flat
    | cons first rest =>
        rw [rrSchedule_cons queue]
        rw [queue] at flat
        exact ⟨fun process member => flat.1 process (List.mem_cons_of_mem _ member), flat.2⟩

theorem prioScheduler_mirrors (script : Script) (value : Nat) :
    Mirrors script prioScheduler (Flat script value) := by
  constructor
  case append => exact fun flat inside _ => flat.append inside
  case schedule =>
    intro state prio _ level
    rcases level.queue.schedule with ⟨scheduled, flat⟩
    exact ⟨prio, scheduled, flat⟩
  case acquire => exact fun _ _ asked => fcfsAcquire_mirrors asked
  case release =>
    intro current rs state after prio invariant _ level asked
    exact prioRelease_mirrors (invariant.wakes_head fun process inside _ => level.queue.2 process inside) asked

/-- Nobody donates a priority, and who releases a resource has its own. -/
theorem pipScheduler_mirrors (equal : forall description, description ∈ script -> description.prio = value) :
    Mirrors script pipScheduler (Flat script value) := by
  have original : forall {state : State} {prio : Nat -> Nat} {process : Nat},
      Level script (Flat script value) state prio -> process < script.length ->
        prio process = (state.process process).prioOrig := by
    intro state prio process level inside
    rw [level.prioOrig process, equal _ (Script.description_mem inside)]
    exact level.queue.2 process inside
  constructor
  case append => exact fun flat inside _ => flat.append inside
  case schedule =>
    intro state prio _ level
    rcases level.queue.schedule with ⟨scheduled, flat⟩
    exact ⟨prio, scheduled, flat⟩
  case acquire =>
    intro current kept todo rs granted state after prio acquiring level asked
    have mirrored : pipAcquire rs.resourceId (state.reprioritized prio) = .ok (granted, after.reprioritized prio) := by
      apply acquireWith_mirrors _ asked
      intro r owner other owned isCurrent
      cases isCurrent.symm.trans acquiring.isCurrent
      have ownerPrio : ((state.reprioritized prio).process owner).prio = value :=
        level.queue.2 owner (acquiring.owner_lt owned)
      have currentPrio : ((state.reprioritized prio).process current).prio = value :=
        level.queue.2 current acquiring.invariant.placed.of_detached.1
      rw [ownerPrio, currentPrio]
      exact if_neg (Nat.lt_irrefl value)
    exact mirrored
  case release =>
    intro current rs state after prio invariant isCurrent level asked
    have mirrored : pipRelease rs.resourceId (state.reprioritized prio) = .ok (after.reprioritized prio) := by
      apply releaseWith_mirrors _
        (invariant.wakes_head fun process inside _ => level.queue.2 process inside) asked
      intro other isOther
      cases isOther.symm.trans isCurrent
      have restored : restorePrio current (state.reprioritized prio) =
          state.reprioritized (Function.update prio current (state.process current).prioOrig) :=
        State.setPrio_eq ..
      rw [restored, ← original level invariant.placed.of_detached.1, Function.update_eq_self]
    exact mirrored

end Flat

/-! ## Priorities that grow while processes wait -/

/-- In the queue the priorities go down, and they are bounded by the number of
those that may have been chosen since.  Others have the priority they started with. -/
structure Graded (script : Script) (value : Nat) (queue : List Nat) (prio : Nat -> Nat) : Prop where
  nodup : queue.Nodup
  inside : forall process, process ∈ queue -> process < script.length
  sorted : queue.Pairwise fun earlier later => prio later ≤ prio earlier
  bounds : forall i (found : i < queue.length),
    value ≤ prio queue[i] ∧ prio queue[i] + i + 1 ≤ value + script.length
  outside : forall process, process < script.length -> process ∉ queue -> prio process = value

section Graded

variable {script : Script} {value : Nat} {queue : List Nat} {prio : Nat -> Nat}

private theorem Graded.value_le (graded : Graded script value queue prio) {process : Nat} (member : process ∈ queue) :
    value ≤ prio process := by
  rcases List.getElem_of_mem member with ⟨i, found, rfl⟩
  exact (graded.bounds i found).1

private theorem Graded.append {process : Nat} (graded : Graded script value queue prio)
    (inside : process < script.length) (new : process ∉ queue) : Graded script value (queue ++ [process]) prio := by
  have nodup : (queue ++ [process]).Nodup := by
    apply graded.nodup.append (List.nodup_singleton process)
    intro other member last
    exact new (List.mem_singleton.mp last ▸ member)
  have within : forall other, other ∈ queue ++ [process] -> other < script.length := by
    intro other member
    rcases List.mem_append.mp member with earlier | last
    · exact graded.inside other earlier
    · rw [List.mem_singleton.mp last]
      exact inside
  have room : queue.length + 1 ≤ script.length := by
    have subset : queue ++ [process] ⊆ List.range script.length :=
      fun other member => List.mem_range.mpr (within other member)
    have shorter := (nodup.subperm subset).length_le
    rw [List.length_append, List.length_singleton, List.length_range] at shorter
    exact shorter
  have itself := graded.outside process inside new
  constructor
  case nodup => exact nodup
  case inside => exact within
  case sorted =>
    apply List.pairwise_append.mpr
    refine ⟨graded.sorted, List.pairwise_singleton _ _, ?_⟩
    intro earlier member last isLast
    rw [List.mem_singleton.mp isLast, itself]
    exact graded.value_le member
  case bounds =>
    intro i found
    rw [List.length_append, List.length_singleton] at found
    by_cases early : i < queue.length
    · rw [List.getElem_append_left early]
      exact graded.bounds i early
    · have last : i = queue.length := by omega
      subst last
      rw [List.getElem_concat_length rfl, itself]
      omega
  case outside =>
    intro other within absent
    exact graded.outside other within fun member => absent (List.mem_append_left _ member)

/-- The first process has the largest priority. -/
theorem Graded.notLarger {first : Nat} {rest : List Nat} (graded : Graded script value (first :: rest) prio)
    {process : Nat} (member : process ∈ rest) : prio process ≤ prio first :=
  (List.pairwise_cons.mp graded.sorted).1 process member

/-- The first process gets its priority back, and all others move up. -/
theorem Graded.serve {first : Nat} {rest : List Nat} (graded : Graded script value (first :: rest) prio) :
    Graded script value rest (Function.update (boosted (first :: rest) prio) first value) := by
  rcases List.nodup_cons.mp graded.nodup with ⟨new, nodup⟩
  have moved : forall process, process ∈ rest ->
      Function.update (boosted (first :: rest) prio) first value process = prio process + 1 := by
    intro process member
    have different : process ≠ first := fun same => new (same ▸ member)
    rw [Function.update_of_ne different]
    exact if_pos (List.mem_cons_of_mem _ member)
  constructor
  case nodup => exact nodup
  case inside => exact fun process member => graded.inside process (List.mem_cons_of_mem _ member)
  case sorted =>
    apply (List.pairwise_cons.mp graded.sorted).2.imp_of_mem
    intro earlier later early late descends
    rw [moved earlier early, moved later late]
    exact Nat.succ_le_succ descends
  case bounds =>
    intro i found
    have bounds := graded.bounds (i + 1) (Nat.succ_lt_succ found)
    rw [List.getElem_cons_succ] at bounds
    rw [moved _ (List.getElem_mem found)]
    omega
  case outside =>
    intro process inside absent
    by_cases same : process = first
    · rw [same, Function.update_self]
    · rw [Function.update_of_ne same]
      have unqueued : process ∉ first :: rest := List.not_mem_cons_of_ne_of_not_mem same absent
      exact (if_neg unqueued).trans (graded.outside process inside unqueued)

theorem paScheduler_mirrors (equal : forall description, description ∈ script -> description.prio = value)
    (bounded : value + script.length < Word.size) : Mirrors script paScheduler (Graded script value) := by
  constructor
  case append => exact fun graded inside new => graded.append inside new
  case schedule =>
    intro state prio _ level
    have graded := level.queue
    have chosen : Exists fun prio' => paSchedule (state.reprioritized prio) =
        ((rrSchedule state).1, (rrSchedule state).2.reprioritized prio') ∧
          Graded script value (rrSchedule state).2.readyqueue prio' := by
      cases queue : state.requeue.readyqueue with
      | nil =>
          refine ⟨prio, ?_, ?_⟩
          · have empty : (state.requeue.reprioritized prio).readyqueue = [] := queue
            rw [rrSchedule_nil queue]
            unfold paSchedule
            rw [State.requeue_reprioritized]
            dsimp only
            rw [empty]
          · rw [rrSchedule_nil queue]
            exact graded
      | cons first rest =>
          rw [queue] at graded
          have room : forall process, process ∈ first :: rest -> prio process + 1 < Word.size := by
            intro process member
            rcases List.getElem_of_mem member with ⟨i, found, rfl⟩
            have bounds := (graded.bounds i found).2
            omega
          rcases paSchedule_eq state queue graded.nodup room with ⟨best, earliest, scheduled⟩
          have same : best = first := earliest.eq_head fun process member => graded.notLarger member
          have original : (state.process first).prioOrig = value := by
            rw [← state.requeue_process, level.prioOrig first]
            exact equal _ (Script.description_mem (graded.inside first List.mem_cons_self))
          rw [same, original, List.erase_cons_head] at scheduled
          rw [rrSchedule_cons queue]
          exact ⟨_, scheduled, graded.serve⟩
    exact chosen
  case acquire => exact fun _ _ asked => fcfsAcquire_mirrors asked
  case release =>
    intro current rs state after prio invariant _ level asked
    exact prioRelease_mirrors (invariant.wakes_head level.queue.outside) asked

end Graded

/-! ## All four schedulers -/

/-- With equal priorities the run of each of the four schedulers is that of round
robin, but for the priorities themselves.  For aging the priorities have to stay
below the word size. -/
theorem equal_prio_lockstep {script : Script} (valid : script.Valid) {value : Nat}
    (equal : forall description, description ∈ script -> description.prio = value) {name : SchedulerName}
    (rotates : name ∈ [SchedulerName.rr, .prio, .pa, .pip])
    (bounded : name = .pa -> value + script.length < Word.size) {rounds : Nat} {left : Bool} {state : State}
    (simulates : Simulates rrScheduler script rounds left state) :
    Exists fun prio => Simulates name.scheduler script rounds left (state.reprioritized prio) := by
  have value_of : forall process, process < script.length -> (script.description process).prio = value :=
    fun process inside => equal _ (Script.description_mem inside)
  have flat : Flat script value [] fun process => (script.description process).prio :=
    ⟨fun _ never => absurd never List.not_mem_nil, value_of⟩
  have graded : Graded script value [] fun process => (script.description process).prio :=
    ⟨List.nodup_nil, fun _ never => absurd never List.not_mem_nil, List.Pairwise.nil,
      fun _ found => absurd found (Nat.not_lt_zero _), fun process inside _ => value_of process inside⟩
  cases name with
  | rr => exact ⟨_, simulates⟩
  | prio => exact (prioScheduler_mirrors script value).simulates valid flat simulates
  | pa => exact (paScheduler_mirrors equal (bounded rfl)).simulates valid graded simulates
  | pip => exact (pipScheduler_mirrors equal).simulates valid flat simulates
  | fcfs => simp at rotates
  | sjf => simp at rotates
  | stcf => simp at rotates
  | pcp => simp at rotates

theorem equal_prio_lockstep_crossing : Exists fun state => Exists fun prio =>
    Simulates rrScheduler crossing 4 false state ∧
      Simulates paScheduler crossing 4 false (state.reprioritized prio) := by
  have simulates : Simulates rrScheduler crossing 4 false _ := ⟨_, rfl, rfl⟩
  have equal : forall description, description ∈ crossing -> description.prio = 1 := by decide
  have rotates : SchedulerName.pa ∈ [SchedulerName.rr, .prio, .pa, .pip] := by decide
  rcases equal_prio_lockstep crossing_valid equal rotates (fun _ => by decide) simulates with ⟨prio, mirrored⟩
  exact ⟨_, prio, simulates, mirrored⟩

/-- Two processes with the largest priority that an `unsigned int` can have. -/
def wrapping : Script := [⟨1, 2, 4294967295, 0, []⟩, ⟨2, 2, 4294967295, 0, []⟩]

/-- The priority of the first process wraps before it is compared with that of
the second one, which is chosen then. -/
theorem aging_wraps : wrapping.Valid ∧ (forall description, description ∈ wrapping -> description.prio = 4294967295) ∧
    Exists fun state => Exists fun state' => Simulates rrScheduler wrapping 1 false state ∧
      Simulates paScheduler wrapping 1 false state' ∧ state.current = some 0 ∧ state'.current = some 1 :=
  ⟨by decide, by decide, _, _, ⟨_, rfl, rfl⟩, ⟨_, rfl, rfl⟩, rfl, rfl⟩

end Sched
end OsPa
