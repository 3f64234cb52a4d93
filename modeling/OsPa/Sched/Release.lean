import OsPa.Sched.Acquire

namespace OsPa
namespace Sched

open Library

/-!
# The release loop

A process that has acquired what was due becomes one tick older, and then
`__run_current_release` counts down what it holds.  In the middle of the loop the
entries that have been passed agree with the new age and the others still with
the age before.

A release frees the resource and makes one waiter ready.  That waiter asks for
the same resource first when it runs, so that the others are attended.
-/

/-! ## Waking up a waiter -/

def State.wake (state : State) (r : Fin nrResources) (waiter : Nat) : State :=
  ((state.setWaitqueue r ((state.waitqueue r).erase waiter)).setStatus waiter .ready).addReady waiter

section Wake

variable {script : Script} {detached : Option Nat} {state : State} {r : Fin nrResources} {waiter : Nat}

@[simp] theorem State.wake_process (state : State) (r : Fin nrResources) (waiter process : Nat) :
    (state.wake r waiter).process process =
      { state.process process with
        status := if process = waiter then .ready else (state.process process).status } :=
  (state.setWaitqueue r ((state.waitqueue r).erase waiter)).setStatus_process waiter .ready process

@[simp] theorem State.wake_waitqueue (state : State) (r : Fin nrResources) (waiter : Nat) :
    (state.wake r waiter).waitqueue = Function.update state.waitqueue r ((state.waitqueue r).erase waiter) :=
  state.waitqueue_setWaitqueue r _

theorem State.queued_wake (member : waiter ∈ state.waitqueue r) (process : Nat) :
    (state.wake r waiter).queued process = state.queued process := by
  unfold State.wake
  rw [State.queued_addReady, State.queued_setStatus]
  have queued := state.queued_setWaitqueue r ((state.waitqueue r).erase waiter) process
  have erased := (List.perm_cons_erase member).count_eq process
  rw [List.count_cons] at erased
  by_cases same : process = waiter
  · subst process
    rw [beq_self_eq_true, if_pos rfl] at erased
    rw [if_pos rfl]
    omega
  · rw [if_neg (fun equal => same (beq_iff_eq.mp equal).symm)] at erased
    rw [if_neg same]
    omega

/-- A waiter is linked into one wait queue once. -/
theorem State.wake_not_waiting (once : state.queued waiter ≤ 1) (member : waiter ∈ state.waitqueue r)
    (other : Fin nrResources) : waiter ∉ (state.wake r waiter).waitqueue other := by
  have copies : copies state.waitqueue waiter ≤ 1 := by
    unfold State.queued at once
    omega
  intro waits
  rw [State.wake_waitqueue] at waits
  by_cases same : other = r
  · subst other
    rw [Function.update_self] at waits
    have before := List.count_pos_iff.mpr waits
    have erased := (List.perm_cons_erase member).count_eq waiter
    have bounded := count_le_copies state.waitqueue r waiter
    rw [List.count_cons_self] at erased
    omega
  · rw [Function.update_of_ne same] at waits
    exact same (eq_of_copies_le_one copies member waits)

theorem State.mem_of_mem_wake {process : Nat} {other : Fin nrResources}
    (waits : process ∈ (state.wake r waiter).waitqueue other) : process ∈ state.waitqueue other := by
  rw [State.wake_waitqueue] at waits
  by_cases same : other = r
  · subst other
    rw [Function.update_self] at waits
    exact List.mem_of_mem_erase waits
  · rw [Function.update_of_ne same] at waits
    exact waits

private theorem Placed.wake (placed : Placed script detached state) (member : waiter ∈ state.waitqueue r) :
    Placed script detached (state.wake r waiter) := by
  have queued := State.queued_of_waiting member
  have found := placed.of_queued queued
  have waiting := placed.waiting r waiter member
  apply placed.move (placed.lt_length queued) (state.wake_process r waiter)
  case stays =>
    intro process _
    rw [State.queued_wake member]
  case arrives =>
    rw [State.queued_wake member, found.2.2, if_neg found.1, if_neg ProcessStatus.noConfusion]
  case forking => exact fun _ forks => forks
  case ready =>
    intro process ready
    rcases List.mem_append.mp ready with earlier | new
    · refine Or.inl ⟨?_, earlier⟩
      rintro rfl
      exact ProcessStatus.noConfusion (waiting.1.symm.trans (placed.ready process earlier).1)
    · exact Or.inr ⟨List.mem_singleton.mp new, rfl, waiting.2.1⟩
  case waiting =>
    intro other process waits
    refine Or.inl ⟨?_, State.mem_of_mem_wake waits⟩
    rintro rfl
    exact State.wake_not_waiting (Nat.le_of_eq found.2.2) member other waits
  case exited => exact fun never => ProcessStatus.noConfusion never

end Wake

/-! ## The effect of a release -/

namespace Released

variable {script : Script} {detached : Option Nat} {r : Fin nrResources} {before after : State}

theorem woken_eq (waiter : Nat) (prio : Nat -> Nat) :
    ((((before.setOwner r none).setWaitqueue r ((before.resources r).waitqueue.erase waiter)).setStatus
      waiter .ready).addReady waiter).reprioritized prio =
        ((before.setOwner r none).wake r waiter).reprioritized prio := by
  unfold State.wake
  rw [State.waitqueue_setOwner]
  rfl

theorem current (released : Released r before after) : after.current = before.current := by
  cases released <;> rfl

theorem output (released : Released r before after) :
    after.ticks = before.ticks ∧ after.stderr = before.stderr := by
  cases released <;> exact ⟨rfl, rfl⟩

theorem owner (released : Released r before after) : after.owner = Function.update before.owner r none := by
  cases released with
  | unwanted prio empty => exact before.owner_setOwner r none
  | woken prio waiter member =>
      exact (State.owner_setWaitqueue ..).trans (before.owner_setOwner r none)

/-- Only priorities change, and the status of waiters. -/
theorem process (released : Released r before after) (process : Nat) :
    Exists fun status => Exists fun prio =>
      after.process process = { before.process process with status := status, prio := prio } ∧
        (process ∉ before.waitqueue r -> status = (before.process process).status) := by
  cases released with
  | unwanted prio empty => exact ⟨_, _, rfl, fun _ => rfl⟩
  | woken prio waiter member =>
      rw [woken_eq]
      refine ⟨_, prio process, congrArg (fun changed : Process => { changed with prio := prio process })
        ((before.setOwner r none).wake_process r waiter process), ?_⟩
      intro outside
      apply if_neg
      intro same
      exact outside (same ▸ member)

private theorem placed (released : Released r before after) (placed : Placed script detached before) :
    Placed script detached after := by
  cases released with
  | unwanted prio empty => exact (placed.setOwner r none).besides
  | woken prio waiter member =>
      rw [woken_eq]
      have waits : waiter ∈ (before.setOwner r none).waitqueue r := by
        rw [State.waitqueue_setOwner]
        exact member
      exact ((placed.setOwner r none).wake waits).besides

theorem mem_waitqueue (released : Released r before after) {other : Nat} {resource : Fin nrResources}
    (waits : other ∈ after.waitqueue resource) : other ∈ before.waitqueue resource := by
  cases released with
  | unwanted prio empty =>
      have member : other ∈ (before.setOwner r none).waitqueue resource := waits
      rw [State.waitqueue_setOwner] at member
      exact member
  | woken prio waiter member =>
      rw [woken_eq] at waits
      have earlier : other ∈ (before.setOwner r none).waitqueue resource := State.mem_of_mem_wake waits
      rw [State.waitqueue_setOwner] at earlier
      exact earlier

theorem mem_readyqueue (released : Released r before after) {other : Nat} (member : other ∈ before.readyqueue) :
    other ∈ after.readyqueue := by
  cases released with
  | unwanted prio empty => exact member
  | woken prio waiter waits => exact List.mem_append_left _ member

/-- While processes wait for the resource, one of its waiters is ready. -/
private theorem waiter (released : Released r before after) {other : Nat} (waits : other ∈ after.waitqueue r) :
    Exists fun waiter => waiter ∈ after.readyqueue ∧ waiter ∈ before.waitqueue r := by
  have waited := released.mem_waitqueue waits
  cases released with
  | unwanted prio empty => exact absurd waited (List.eq_nil_iff_forall_not_mem.mp empty other)
  | woken prio waiter member => exact ⟨waiter, List.mem_append_right _ List.mem_cons_self, member⟩

/-- Whoever still waits for the resource is attended by the waiter that woke up. -/
private theorem attended (released : Released r before after) (placed : Placed script detached before)
    (attended : (before.locks detached none).Attended) : (after.locks detached none).Attended := by
  have sameDue : forall other, (after.process other).firstDue = (before.process other).firstDue := by
    intro other
    rcases released.process other with ⟨status, prio, changed, _⟩
    rw [changed]
    rfl
  apply attended.step r
  · intro other different owned
    have same : after.owner other = before.owner other := by
      rw [released.owner, Function.update_of_ne different]
    exact same.trans_ne owned
  · intro other resource _ waits
    exact released.mem_waitqueue waits
  · rintro other resource _ (⟨member, retries⟩ | ⟨_, never⟩)
    · exact Or.inl ⟨released.mem_readyqueue member, (sameDue other).trans retries⟩
    · cases never
  · intro other waits
    rcases released.waiter waits with ⟨waiter, ready, waited⟩
    exact Or.inr ⟨waiter, Or.inl ⟨ready, (sameDue waiter).trans (placed.waiting r waiter waited).2.2⟩⟩

end Released

/-! ## The rule of the loop -/

def Process.hold (process : Process) (holding : List ResourceSchedule) : Process :=
  { process with resourcesHolding := holding }

def State.hold (state : State) (current : Nat) (holding : List ResourceSchedule) : State :=
  state.modify current fun process => process.hold holding

@[simp] theorem State.hold_process_self (state : State) (current : Nat) (holding : List ResourceSchedule) :
    (state.hold current holding).process current = (state.process current).hold holding :=
  Function.update_self ..

theorem State.hold_process_of_ne (state : State) {current process : Nat} (different : process ≠ current)
    (holding : List ResourceSchedule) : (state.hold current holding).process process = state.process process :=
  Function.update_of_ne different ..

/-- An entry after one more tick of holding. -/
def ResourceSchedule.countDown (rs : ResourceSchedule) : ResourceSchedule :=
  { rs with duration := Word.pred rs.duration }

theorem runCurrentRelease_cons (sched : Scheduler) (current : Nat) (kept : List ResourceSchedule)
    (rs : ResourceSchedule) (todo : List ResourceSchedule) (state : State) :
    runCurrentRelease sched current kept (rs :: todo) state =
      if rs.countDown.duration ≠ 0 then
        runCurrentRelease sched current (kept ++ [rs.countDown]) todo
          (state.hold current (kept ++ rs.countDown :: todo))
      else
        match sched.release rs.resourceId (state.hold current (kept ++ rs.countDown :: todo)) with
        | .error fault => .error fault
        | .ok released =>
            runCurrentRelease sched current kept todo
              ((released.print (.released current rs.resourceId)).hold current (kept ++ todo)) := rfl

/-- If every release succeeds and keeps the invariant of the loop, the loop
comes to its end. -/
theorem runCurrentRelease_rule {sched : Scheduler} {current : Nat}
    (releasing : List ResourceSchedule -> List ResourceSchedule -> State -> Prop)
    (keep : forall kept rs todo state, releasing kept (rs :: todo) state -> rs.countDown.duration ≠ 0 ->
      releasing (kept ++ [rs.countDown]) todo (state.hold current (kept ++ rs.countDown :: todo)))
    (release : forall kept rs todo state, releasing kept (rs :: todo) state -> rs.countDown.duration = 0 ->
      Exists fun after =>
        sched.release rs.resourceId (state.hold current (kept ++ rs.countDown :: todo)) = .ok after ∧
          releasing kept todo ((after.print (.released current rs.resourceId)).hold current (kept ++ todo)))
    {kept todo : List ResourceSchedule} {state : State} (start : releasing kept todo state) :
    Exists fun left => Exists fun after =>
      runCurrentRelease sched current kept todo state = .ok after ∧ releasing left [] after := by
  induction todo generalizing kept state with
  | nil => exact ⟨kept, state, rfl, start⟩
  | cons rs todo inductionHypothesis =>
      rw [runCurrentRelease_cons]
      by_cases expires : rs.countDown.duration = 0
      · rw [if_neg (not_not_intro expires)]
        rcases release kept rs todo state start expires with ⟨after, released, rest⟩
        rw [released]
        exact inductionHypothesis rest
      · rw [if_pos expires]
        exact inductionHypothesis (keep kept rs todo state start expires)

/-! ## The invariant of the loop -/

/-- Of what a process holds, `kept` is counted at its age and `todo` at the age
before. -/
structure Counting (acquires : List ResourceSchedule) (age : Nat) (kept todo pending : List ResourceSchedule) :
    Prop where
  entries : (kept.map (ResourceSchedule.restore age) ++
    (todo.map (ResourceSchedule.restore (age - 1)) ++ pending)).Subperm acquires
  kept : forall rs, rs ∈ kept -> rs.at_ ≤ age ∧ 1 ≤ rs.duration
  todo : forall rs, rs ∈ todo -> rs.at_ < age ∧ 1 ≤ rs.duration
  pending : forall rs, rs ∈ pending -> age ≤ rs.at_

theorem ResourceSchedule.restore_countDown {age : Nat} {rs : ResourceSchedule} (begun : rs.at_ < age)
    (lasting : 1 ≤ rs.duration) : rs.countDown.restore age = rs.restore (age - 1) := by
  unfold ResourceSchedule.restore ResourceSchedule.countDown
  rw [Word.pred_of_pos lasting]
  dsimp only
  congr 1
  omega

namespace Counting

variable {acquires kept todo pending : List ResourceSchedule} {rs : ResourceSchedule} {age : Nat}

/-- A process that has acquired all that was due becomes older. -/
theorem start (punctual : Punctual acquires age todo pending) (acquired : forall rs, rs ∈ pending -> rs.at_ ≠ age) :
    Counting acquires (age + 1) [] todo pending := by
  refine ⟨punctual.entries, fun _ never => absurd never List.not_mem_nil, ?_, ?_⟩
  · intro rs member
    have held := punctual.held rs member
    exact ⟨Nat.lt_succ_of_le held.1, held.2⟩
  · intro rs member
    have ahead := punctual.pending rs member
    have notDue := acquired rs member
    omega

theorem finish (counting : Counting acquires age kept [] pending) : Punctual acquires age kept pending :=
  ⟨counting.entries, counting.kept, counting.pending⟩

private theorem keep (counting : Counting acquires age kept (rs :: todo) pending)
    (remains : rs.countDown.duration ≠ 0) : Counting acquires age (kept ++ [rs.countDown]) todo pending := by
  have begun := counting.todo rs List.mem_cons_self
  constructor
  case entries =>
    rw [List.map_append, List.append_assoc, List.map_singleton,
      ResourceSchedule.restore_countDown begun.1 begun.2]
    exact counting.entries
  case kept =>
    intro other member
    rcases List.mem_append.mp member with earlier | last
    · exact counting.kept other earlier
    · rw [List.mem_singleton.mp last]
      exact ⟨Nat.le_of_lt begun.1, Nat.pos_of_ne_zero remains⟩
  case todo => exact fun other member => counting.todo other (List.mem_cons_of_mem _ member)
  case pending => exact counting.pending

private theorem drop (counting : Counting acquires age kept (rs :: todo) pending) :
    Counting acquires age kept todo pending := by
  constructor
  case entries =>
    have shorter : (kept.map (ResourceSchedule.restore age) ++
        (todo.map (ResourceSchedule.restore (age - 1)) ++ pending)).Sublist
        (kept.map (ResourceSchedule.restore age) ++
          ((rs :: todo).map (ResourceSchedule.restore (age - 1)) ++ pending)) :=
      (List.sublist_cons_self _ _).append_left _
    exact shorter.subperm.trans counting.entries
  case kept => exact counting.kept
  case todo => exact fun other member => counting.todo other (List.mem_cons_of_mem _ member)
  case pending => exact counting.pending

end Counting

structure Releasing (script : Script) (current : Nat) (kept todo : List ResourceSchedule) (state : State) : Prop where
  isCurrent : state.current = some current
  invariant : Invariant script (some current) none state
  running : (state.process current).status = .running
  aged : (state.process current).age ≤ (state.process current).lifespan
  resources : (state.process current).resourcesHolding = kept ++ todo
  counting : Counting (script.description current).acquires (state.process current).age kept todo
    (state.process current).resourcesToAcquire

/-- A change of the detached process alone, while nobody depends on what it
asks for. -/
theorem Invariant.modify {script : Script} {state : State} {current : Nat} (placed : Placed script (some current) state)
    (punctual : forall process, some current ≠ some process ->
      Punctual (script.description process).acquires (state.process process).age
        (state.process process).resourcesHolding (state.process process).resourcesToAcquire)
    (attended : (state.locks (some current) none).Attended) (change : Process -> Process)
    (lifespan : (change (state.process current)).lifespan = (state.process current).lifespan)
    (alive : (change (state.process current)).status ≠ .exit) (owned : Owned (state.modify current change)) :
    Invariant script (some current) none (state.modify current change) := by
  refine ⟨placed.modify change lifespan alive, owned, ?_, ?_⟩
  · intro process different
    rw [State.process_modify_of_ne state (fun same => different (congrArg some same.symm))]
    exact punctual process different
  · refine attended.mono (fun _ owned => owned) (fun _ _ waits => waits) ?_
    rintro process r (⟨member, retries⟩ | ⟨_, never⟩)
    · have different : process ≠ current := by
        intro same
        subst process
        have queued := State.queued_of_ready member
        have detached := placed.of_detached
        omega
      refine Or.inl ⟨member, ?_⟩
      rw [State.process_modify_of_ne state different]
      exact retries
    · cases never

def Process.grow (process : Process) : Process := { process with age := process.age + 1 }

/-- The current process runs for a tick. -/
def State.grow (state : State) (current : Nat) : State := (state.print (.ran current)).modify current Process.grow

@[simp] theorem State.grow_process_self (state : State) (current : Nat) :
    (state.grow current).process current = (state.process current).grow := Function.update_self ..

theorem State.grow_process_of_ne (state : State) {current process : Nat} (different : process ≠ current) :
    (state.grow current).process process = state.process process := Function.update_of_ne different ..

/-- The process that has acquired all that was due runs for a tick. -/
theorem Acquiring.grow {script : Script} {current : Nat} {kept : List ResourceSchedule} {state : State}
    (acquiring : Acquiring script current kept [] state) :
    Releasing script current [] (state.process current).resourcesHolding (state.grow current) := by
  have invariant := acquiring.invariant
  have itself := state.grow_process_self current
  have owned : Owned (state.grow current) := by
    intro r process
    by_cases same : process = current
    · subst process
      rw [itself]
      exact invariant.owned r current
    · rw [state.grow_process_of_ne same]
      exact invariant.owned r process
  constructor
  case isCurrent => exact acquiring.isCurrent
  case invariant =>
    exact (Invariant.modify invariant.placed invariant.punctual invariant.attended Process.grow rfl
      invariant.placed.of_detached.2.2 owned).besides
  case running =>
    rw [itself]
    exact acquiring.running
  case aged =>
    rw [itself]
    exact acquiring.young
  case resources =>
    rw [itself]
    rfl
  case counting =>
    rw [itself]
    have punctual := acquiring.punctual
    rw [← acquiring.resources] at punctual
    apply Counting.start punctual
    rw [acquiring.resources, List.append_nil]
    exact acquiring.passed

namespace Releasing

variable {script : Script} {current : Nat} {kept todo : List ResourceSchedule} {rs : ResourceSchedule} {state : State}

/-- The resource of an entry is owned by the process that holds it. -/
theorem owner (releasing : Releasing script current kept (rs :: todo) state) {r : Fin nrResources}
    (indexed : r.val = rs.resourceId) : state.owner r = some current := by
  have owned := releasing.invariant.owned r current
  by_contra unowned
  rw [if_neg unowned] at owned
  unfold Process.holds at owned
  rw [releasing.resources, List.countP_eq_zero] at owned
  exact owned rs (List.mem_append_right _ List.mem_cons_self) (decide_eq_true indexed.symm)

/-- A resource that a process holds exists. -/
theorem indexed (valid : script.Valid) (releasing : Releasing script current kept (rs :: todo) state) :
    Exists fun r => resourceIndex rs.resourceId = some r ∧ r.val = rs.resourceId := by
  have entry : rs.restore ((state.process current).age - 1) ∈ (script.description current).acquires := by
    apply releasing.counting.entries.subset
    apply List.mem_append_right
    exact List.mem_append_left _ List.mem_cons_self
  have description := valid.description releasing.invariant.placed.of_detached.1
  have inside := description.resourceId _ entry
  exact ⟨⟨rs.resourceId, inside⟩, dif_pos inside, rfl⟩

private theorem holds_countDown (r : Fin nrResources) (kept todo : List ResourceSchedule) (rs : ResourceSchedule) :
    (kept ++ rs.countDown :: todo).countP (fun held => held.resourceId = r.val) =
      (kept ++ rs :: todo).countP fun held => held.resourceId = r.val := by
  rw [List.countP_append, List.countP_append, List.countP_cons, List.countP_cons]
  rfl

/-- Counting an entry down changes neither ownership nor the other processes. -/
theorem count (releasing : Releasing script current kept (rs :: todo) state) :
    Invariant script (some current) none (state.hold current (kept ++ rs.countDown :: todo)) := by
  have invariant := releasing.invariant
  have owned : Owned (state.hold current (kept ++ rs.countDown :: todo)) := by
    intro r process
    by_cases same : process = current
    · subst process
      have holds := holds_countDown r kept todo rs
      rw [← releasing.resources] at holds
      rw [state.hold_process_self]
      exact holds.trans (invariant.owned r current)
    · rw [state.hold_process_of_ne same]
      exact invariant.owned r process
  exact Invariant.modify invariant.placed invariant.punctual invariant.attended
    (fun process => process.hold (kept ++ rs.countDown :: todo)) rfl invariant.placed.of_detached.2.2 owned

theorem keep (releasing : Releasing script current kept (rs :: todo) state) (remains : rs.countDown.duration ≠ 0) :
    Releasing script current (kept ++ [rs.countDown]) todo (state.hold current (kept ++ rs.countDown :: todo)) := by
  have itself := state.hold_process_self current (kept ++ rs.countDown :: todo)
  constructor
  case isCurrent => exact releasing.isCurrent
  case invariant => exact releasing.count
  case running =>
    rw [itself]
    exact releasing.running
  case aged =>
    rw [itself]
    exact releasing.aged
  case resources =>
    rw [itself]
    exact List.append_cons ..
  case counting =>
    rw [itself]
    exact releasing.counting.keep remains

/-- The entry whose time is over is dropped together with the resource. -/
theorem drop (releasing : Releasing script current kept (rs :: todo) state) {r : Fin nrResources}
    (indexed : r.val = rs.resourceId) {after : State}
    (released : Released r (state.hold current (kept ++ rs.countDown :: todo)) after) :
    Releasing script current kept todo (after.hold current (kept ++ todo)) := by
  have invariant := releasing.count
  have counted := state.hold_process_self current (kept ++ rs.countDown :: todo)
  have itself := after.hold_process_self current (kept ++ todo)
  have notWaiting : current ∉ (state.hold current (kept ++ rs.countDown :: todo)).waitqueue r := by
    intro waits
    have queued := State.queued_of_waiting waits
    have detached := invariant.placed.of_detached
    omega
  rcases released.process current with ⟨status, prio, changed, unchanged⟩
  have running : status = .running :=
    (unchanged notWaiting).trans ((congrArg Process.status counted).trans releasing.running)
  subst running
  rw [changed, counted] at itself
  have others : forall process, process ≠ current -> Exists fun status => Exists fun prio =>
      after.process process = { state.process process with status := status, prio := prio } := by
    intro process different
    rcases released.process process with ⟨status, prio, changed, _⟩
    rw [state.hold_process_of_ne different] at changed
    exact ⟨status, prio, changed⟩
  have owned : Owned (after.hold current (kept ++ todo)) := by
    apply invariant.owned.change r
    · intro process different
      rcases others process different with ⟨status, prio, changed⟩
      rw [after.hold_process_of_ne different, state.hold_process_of_ne different, changed]
    · intro other different
      have unowned : after.owner other = state.owner other := by
        rw [released.owner, Function.update_of_ne different]
        rfl
      refine ⟨unowned, ?_⟩
      rw [itself, counted]
      have notThis : ¬ rs.countDown.resourceId = other.val :=
        fun same => different (Fin.ext (same.symm.trans indexed.symm))
      unfold Process.holds Process.hold
      dsimp only
      rw [List.countP_append, List.countP_append, List.countP_cons_of_neg]
      exact fun same => notThis (of_decide_eq_true same)
    · have before := invariant.owned r current
      have owns : (state.hold current (kept ++ rs.countDown :: todo)).owner r = some current := releasing.owner indexed
      have one : (rs.countDown :: todo).countP (fun held => held.resourceId = r.val) =
          todo.countP (fun held => held.resourceId = r.val) + 1 :=
        List.countP_cons_of_pos (decide_eq_true indexed.symm)
      have unowned : (after.hold current (kept ++ todo)).owner r = none :=
        (congrFun released.owner r).trans (Function.update_self ..)
      rw [counted, if_pos owns] at before
      rw [itself, unowned, if_neg (Option.some_ne_none _).symm]
      unfold Process.holds Process.hold at before ⊢
      dsimp only at before ⊢
      rw [List.countP_append, one] at before
      rw [List.countP_append]
      omega
    · intro process different
      have owns : (state.hold current (kept ++ rs.countDown :: todo)).owner r = some current := releasing.owner indexed
      have unowned : (after.hold current (kept ++ todo)).owner r = none :=
        (congrFun released.owner r).trans (Function.update_self ..)
      rw [owns, unowned]
      exact ⟨fun same => different (Option.some.inj same).symm, (Option.some_ne_none _).symm⟩
  constructor
  case isCurrent => exact released.current.trans releasing.isCurrent
  case invariant =>
    apply Invariant.modify (released.placed invariant.placed) _ (released.attended invariant.placed invariant.attended)
      (fun process => process.hold (kept ++ todo)) rfl (released.placed invariant.placed).of_detached.2.2 owned
    intro process different
    rcases others process fun same => different (congrArg some same.symm) with ⟨status, prio, changed⟩
    rw [changed]
    exact releasing.invariant.punctual process different
  case running => exact congrArg Process.status itself
  case aged =>
    rw [itself]
    exact releasing.aged
  case resources => exact congrArg Process.resourcesHolding itself
  case counting =>
    rw [itself]
    exact releasing.counting.drop

/-- What is printed for it does not matter. -/
theorem dropped (releasing : Releasing script current kept (rs :: todo) state) {r : Fin nrResources}
    (indexed : r.val = rs.resourceId) {after : State}
    (released : Released r (state.hold current (kept ++ rs.countDown :: todo)) after) (event : Event) :
    Releasing script current kept todo ((after.print event).hold current (kept ++ todo)) := by
  have dropped := releasing.drop indexed released
  exact ⟨dropped.isCurrent, dropped.invariant.besides, dropped.running, dropped.aged, dropped.resources,
    dropped.counting⟩

/-- A lawful scheduler is able to release what the process holds. -/
theorem released {sched : Scheduler} (valid : script.Valid) (lawful : Lawful sched)
    (releasing : Releasing script current kept (rs :: todo) state) :
    Exists fun r : Fin nrResources => Exists fun after => r.val = rs.resourceId ∧
      sched.release rs.resourceId (state.hold current (kept ++ rs.countDown :: todo)) = .ok after ∧
        Released r (state.hold current (kept ++ rs.countDown :: todo)) after := by
  rcases releasing.indexed valid with ⟨r, index, indexed⟩
  have isCurrent : (state.hold current (kept ++ rs.countDown :: todo)).current = some current := releasing.isCurrent
  have blocked := fun waiter waits => (releasing.count.placed.waiting r waiter waits).1
  rcases lawful.release index isCurrent (releasing.owner indexed) blocked with ⟨after, asked, effect⟩
  exact ⟨r, after, indexed, asked, effect⟩

/-- A lawful scheduler releases what the process holds. -/
theorem expire {sched : Scheduler} (valid : script.Valid) (lawful : Lawful sched)
    (releasing : Releasing script current kept (rs :: todo) state) :
    Exists fun after =>
      sched.release rs.resourceId (state.hold current (kept ++ rs.countDown :: todo)) = .ok after ∧
        Releasing script current kept todo
          ((after.print (.released current rs.resourceId)).hold current (kept ++ todo)) := by
  rcases releasing.released valid lawful with ⟨r, after, indexed, asked, effect⟩
  exact ⟨after, asked, releasing.dropped indexed effect _⟩

end Releasing

end Sched
end OsPa
