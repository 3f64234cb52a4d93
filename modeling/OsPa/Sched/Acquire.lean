import OsPa.Sched.Dispatch

namespace OsPa
namespace Sched

open Library

/-!
# The acquire loop

Inside of `__run_current_acquire` the current process is detached.  Entries it
has come past are not due, and the resource it asks for next is the first one
due in what is left.  A resource that is granted has an owner from then on, and
so has the one that the process is blocked on.  Nothing else is promised to a
process that waits.
-/

/-! ## Changes around the detached process -/

section Detached

variable {script : Script} {detached : Option Nat} {state : State} {current : Nat}

theorem Placed.modify (placed : Placed script (some current) state) (change : Process -> Process)
    (lifespan : (change (state.process current)).lifespan = (state.process current).lifespan)
    (alive : (change (state.process current)).status ≠ .exit) :
    Placed script (some current) (state.modify current change) := by
  have detached := placed.of_detached
  have listed : forall {other}, 0 < state.queued other ->
      (state.modify current change).process other = state.process other := by
    intro other found
    apply State.process_modify_of_ne
    intro same
    subst other
    omega
  constructor
  case lifespan =>
    intro other
    by_cases same : other = current
    · subst other
      rw [State.process_modify_self, lifespan]
      exact placed.lifespan current
    · rw [State.process_modify_of_ne state same]
      exact placed.lifespan other
  case once =>
    intro other
    have once := placed.once other
    have queued : (state.modify current change).queued other = state.queued other := rfl
    rw [queued]
    by_cases same : other = current
    · subst other
      rw [State.process_modify_self, if_neg alive]
      rw [if_neg detached.2.2] at once
      exact once
    · rw [State.process_modify_of_ne state same]
      exact once
  case forking =>
    intro other member
    rw [listed (State.queued_of_forking member)]
    exact placed.forking other member
  case ready =>
    intro other member
    rw [listed (State.queued_of_ready member)]
    exact placed.ready other member
  case waiting =>
    intro r other waits
    rw [listed (State.queued_of_waiting waits)]
    exact placed.waiting r other waits
  case exited =>
    intro other exited
    by_cases same : other = current
    · subst other
      rw [State.process_modify_self] at exited
      exact absurd exited alive
    · rw [State.process_modify_of_ne state same] at exited ⊢
      exact placed.exited other exited

theorem Placed.setOwner (placed : Placed script detached state) (r : Fin nrResources) (owner : Option Nat) :
    Placed script detached (state.setOwner r owner) := by
  have waitqueue := state.waitqueue_setOwner r owner
  refine ⟨placed.lifespan, ?_, placed.forking, placed.ready, ?_, placed.exited⟩
  · intro process
    have queued : (state.setOwner r owner).queued process = state.queued process := by
      unfold State.queued
      rw [waitqueue]
      rfl
    rw [queued]
    exact placed.once process
  · intro other process waits
    rw [waitqueue] at waits
    exact placed.waiting other process waits

/-- Ownership is a matter of the process that changes and the resource that it
takes or releases. -/
theorem Owned.change {before after : State} (owned : Owned before) (r : Fin nrResources)
    (others : forall process, process ≠ current ->
      (after.process process).resourcesHolding = (before.process process).resourcesHolding)
    (elsewhere : forall other, other ≠ r ->
      after.owner other = before.owner other ∧
        (after.process current).holds other = (before.process current).holds other)
    (here : (after.process current).holds r = if after.owner r = some current then 1 else 0)
    (nobody : forall process, process ≠ current -> before.owner r ≠ some process ∧ after.owner r ≠ some process) :
    Owned after := by
  intro other process
  by_cases same : process = current
  · subst process
    by_cases touched : other = r
    · subst other
      exact here
    · rw [(elsewhere other touched).1, (elsewhere other touched).2]
      exact owned other current
  · have holds : (after.process process).holds other = (before.process process).holds other :=
      congrArg (List.countP _) (others process same)
    rw [holds, owned other process]
    by_cases touched : other = r
    · subst other
      rw [if_neg (nobody process same).1, if_neg (nobody process same).2]
    · rw [(elsewhere other touched).1]

end Detached

theorem State.queued_setWaitqueue (state : State) (r : Fin nrResources) (waitqueue : List Nat) (process : Nat) :
    (state.setWaitqueue r waitqueue).queued process + (state.waitqueue r).count process =
      state.queued process + waitqueue.count process := by
  have changed := copies_update state.waitqueue r waitqueue process
  rw [← state.waitqueue_setWaitqueue] at changed
  have lists : (state.setWaitqueue r waitqueue).forkqueue = state.forkqueue ∧
      (state.setWaitqueue r waitqueue).readyqueue = state.readyqueue := ⟨rfl, rfl⟩
  unfold State.queued
  rw [lists.1, lists.2]
  omega

/-- The detached process goes to the end of a wait queue. -/
theorem Placed.wait {script : Script} {state : State} {current : Nat} (placed : Placed script (some current) state)
    {r : Fin nrResources} (young : (state.process current).age < (state.process current).lifespan)
    (isDue : (state.process current).firstDue = some r.val) :
    Placed script none ((state.setStatus current .blocked).setWaitqueue r (state.waitqueue r ++ [current])) := by
  have detached := placed.of_detached
  have queued : forall other, ((state.setStatus current .blocked).setWaitqueue r
      (state.waitqueue r ++ [current])).queued other = state.queued other + [current].count other := by
    intro other
    have changed := (state.setStatus current .blocked).queued_setWaitqueue r (state.waitqueue r ++ [current]) other
    have old : (state.setStatus current .blocked).waitqueue r = state.waitqueue r := rfl
    rw [State.queued_setStatus, List.count_append, old] at changed
    omega
  apply placed.move detached.1
  case fields => exact state.setStatus_process current .blocked
  case stays =>
    intro other different
    rw [queued, List.count_eq_zero.mpr (fun member => different (List.mem_singleton.mp member)),
      if_neg (fun same => different (Option.some.inj same).symm), if_neg (Option.some_ne_none _).symm]
  case arrives =>
    rw [queued, detached.2.1, List.count_singleton_self, if_neg (Option.some_ne_none _).symm,
      if_neg ProcessStatus.noConfusion]
  case forking => exact fun _ member => member
  case ready => exact fun other member => Or.inl ⟨placed.ne_of_queued (State.queued_of_ready member), member⟩
  case waiting =>
    intro other process waits
    have here : process ∈ state.waitqueue other -> process ≠ current :=
      fun earlier => placed.ne_of_queued (State.queued_of_waiting earlier)
    rw [State.waitqueue_setWaitqueue] at waits
    by_cases same : other = r
    · subst other
      rw [Function.update_self] at waits
      rcases List.mem_append.mp waits with earlier | last
      · exact Or.inl ⟨here earlier, earlier⟩
      · exact Or.inr ⟨List.mem_singleton.mp last, rfl, young, isDue⟩
    · rw [Function.update_of_ne same] at waits
      exact Or.inl ⟨here waits, waits⟩
  case exited => exact fun never => ProcessStatus.noConfusion never

/-! ## The rule of the loop -/

/-- The entry moves from the one list of a process to the other. -/
def Process.take (process : Process) (kept todo : List ResourceSchedule) (rs : ResourceSchedule) : Process :=
  { process with
    resourcesToAcquire := kept ++ todo
    resourcesHolding := process.resourcesHolding ++ [rs] }

/-- What `__run_current_acquire` does after the scheduler has granted a
resource. -/
def State.take (state : State) (current : Nat) (kept todo : List ResourceSchedule) (rs : ResourceSchedule) : State :=
  (state.modify current fun process => process.take kept todo rs).print (.acquired current rs.resourceId)

@[simp] theorem State.take_process_self (state : State) (current : Nat) (kept todo : List ResourceSchedule)
    (rs : ResourceSchedule) :
    (state.take current kept todo rs).process current = (state.process current).take kept todo rs :=
  Function.update_self ..

theorem State.take_process_of_ne (state : State) {current process : Nat} (different : process ≠ current)
    (kept todo : List ResourceSchedule) (rs : ResourceSchedule) :
    (state.take current kept todo rs).process process = state.process process :=
  Function.update_of_ne different ..

theorem runCurrentAcquire_cons (sched : Scheduler) (current : Nat) (kept : List ResourceSchedule)
    (rs : ResourceSchedule) (todo : List ResourceSchedule) (state : State) :
    runCurrentAcquire sched current kept (rs :: todo) state =
      if rs.at_ = (state.process current).age then
        match sched.acquire rs.resourceId state with
        | .error fault => .error fault
        | .ok (false, refused) => .ok (false, refused.print (.blocked current rs.resourceId))
        | .ok (true, granted) => runCurrentAcquire sched current kept todo (granted.take current kept todo rs)
      else runCurrentAcquire sched current (kept ++ [rs]) todo state := rfl

/-- The loop ends in a state of its invariant, or is left with a refusal. -/
theorem runCurrentAcquire_rule {sched : Scheduler} {current : Nat}
    (acquiring : List ResourceSchedule -> List ResourceSchedule -> State -> Prop) (refused : State -> Prop)
    (skip : forall kept rs todo state, acquiring kept (rs :: todo) state -> rs.at_ ≠ (state.process current).age ->
      acquiring (kept ++ [rs]) todo state)
    (ask : forall kept rs todo state, acquiring kept (rs :: todo) state -> rs.at_ = (state.process current).age ->
      (Exists fun after => sched.acquire rs.resourceId state = .ok (true, after) ∧
        acquiring kept todo (after.take current kept todo rs)) ∨
      (Exists fun after => sched.acquire rs.resourceId state = .ok (false, after) ∧
        refused (after.print (.blocked current rs.resourceId))))
    {kept todo : List ResourceSchedule} {state : State} (start : acquiring kept todo state) :
    (Exists fun passed => Exists fun after =>
      runCurrentAcquire sched current kept todo state = .ok (true, after) ∧ acquiring passed [] after) ∨
    (Exists fun after => runCurrentAcquire sched current kept todo state = .ok (false, after) ∧ refused after) := by
  induction todo generalizing kept state with
  | nil => exact Or.inl ⟨kept, state, rfl, start⟩
  | cons rs todo inductionHypothesis =>
      rw [runCurrentAcquire_cons]
      by_cases isDue : rs.at_ = (state.process current).age
      · rw [if_pos isDue]
        rcases ask kept rs todo state start isDue with ⟨after, granted, taken⟩ | ⟨after, denied, blocked⟩
        · rw [granted]
          exact inductionHypothesis taken
        · rw [denied]
          exact Or.inr ⟨_, rfl, blocked⟩
      · rw [if_neg isDue]
        exact inductionHypothesis (skip kept rs todo state start isDue)

/-! ## The invariant of the loop -/

/-- The current process has come past `kept` and has `todo` in front of it. -/
structure Acquiring (script : Script) (current : Nat) (kept todo : List ResourceSchedule) (state : State) : Prop where
  isCurrent : state.current = some current
  invariant : Invariant script (some current) (due (state.process current).age todo) state
  running : (state.process current).status = .running
  young : (state.process current).age < (state.process current).lifespan
  resources : (state.process current).resourcesToAcquire = kept ++ todo
  passed : forall rs, rs ∈ kept -> rs.at_ ≠ (state.process current).age
  punctual : Punctual (script.description current).acquires (state.process current).age
    (state.process current).resourcesHolding (kept ++ todo)

theorem due_cons_of_eq {age : Nat} {rs : ResourceSchedule} (todo : List ResourceSchedule) (isDue : rs.at_ = age) :
    due age (rs :: todo) = some rs.resourceId := by
  simp only [due, List.find?_cons, decide_eq_true isDue, Option.map_some]

theorem due_cons_of_ne {age : Nat} {rs : ResourceSchedule} (todo : List ResourceSchedule) (notDue : rs.at_ ≠ age) :
    due age (rs :: todo) = due age todo := by
  simp only [due, List.find?_cons, decide_eq_false notDue]

theorem due_append {age : Nat} {kept : List ResourceSchedule} (todo : List ResourceSchedule)
    (passed : forall rs, rs ∈ kept -> rs.at_ ≠ age) : due age (kept ++ todo) = due age todo := by
  induction kept with
  | nil => rfl
  | cons rs kept inductionHypothesis =>
      rw [List.cons_append, due_cons_of_ne _ (passed rs List.mem_cons_self)]
      exact inductionHypothesis fun later member => passed later (List.mem_cons_of_mem _ member)

/-- An entry that is due has not been counted down. -/
theorem ResourceSchedule.restore_of_due {age : Nat} {rs : ResourceSchedule} (isDue : rs.at_ = age) :
    rs.restore age = rs := by
  subst isDue
  unfold ResourceSchedule.restore
  rw [Nat.add_sub_cancel_left]

/-- An entry that is due moves to what the process holds. -/
theorem Punctual.take {acquires held kept todo : List ResourceSchedule} {age : Nat} {rs : ResourceSchedule}
    (punctual : Punctual acquires age held (kept ++ rs :: todo)) (isDue : rs.at_ = age) (lasting : 1 ≤ rs.duration) :
    Punctual acquires age (held ++ [rs]) (kept ++ todo) := by
  constructor
  case entries =>
    have moved : ((held ++ [rs]).map (ResourceSchedule.restore age) ++ (kept ++ todo)).Perm
        (held.map (ResourceSchedule.restore age) ++ (kept ++ rs :: todo)) := by
      rw [List.map_append, List.append_assoc, List.map_singleton, ResourceSchedule.restore_of_due isDue,
        List.singleton_append]
      exact List.perm_middle.symm.append_left _
    exact moved.subperm.trans punctual.entries
  case held =>
    intro other member
    rcases List.mem_append.mp member with earlier | last
    · exact punctual.held other earlier
    · rw [List.mem_singleton.mp last]
      exact ⟨Nat.le_of_eq isDue, lasting⟩
  case pending =>
    intro other member
    apply punctual.pending other
    rcases List.mem_append.mp member with earlier | later
    · exact List.mem_append_left _ earlier
    · exact List.mem_append_right _ (List.mem_cons_of_mem _ later)

namespace Acquiring

variable {script : Script} {current : Nat} {kept todo : List ResourceSchedule} {rs : ResourceSchedule} {state : State}

theorem reprioritized (acquiring : Acquiring script current kept todo state) (prio : Nat -> Nat) :
    Acquiring script current kept todo (state.reprioritized prio) :=
  ⟨acquiring.isCurrent, acquiring.invariant.besides, acquiring.running, acquiring.young, acquiring.resources,
    acquiring.passed, acquiring.punctual⟩

theorem skip (acquiring : Acquiring script current kept (rs :: todo) state)
    (notDue : rs.at_ ≠ (state.process current).age) : Acquiring script current (kept ++ [rs]) todo state := by
  have split : kept ++ rs :: todo = (kept ++ [rs]) ++ todo := List.append_cons ..
  refine ⟨acquiring.isCurrent, ?_, acquiring.running, acquiring.young, acquiring.resources.trans split, ?_, ?_⟩
  · rw [← due_cons_of_ne todo notDue]
    exact acquiring.invariant
  · intro other member
    rcases List.mem_append.mp member with earlier | last
    · exact acquiring.passed other earlier
    · rw [List.mem_singleton.mp last]
      exact notDue
  · rw [← split]
    exact acquiring.punctual

/-- A resource that a process asks for exists. -/
theorem indexed (valid : script.Valid) (acquiring : Acquiring script current kept (rs :: todo) state) :
    Exists fun r => resourceIndex rs.resourceId = some r ∧ r.val = rs.resourceId := by
  have member : rs ∈ kept ++ rs :: todo := List.mem_append_right _ List.mem_cons_self
  have description := valid.description acquiring.invariant.placed.of_detached.1
  have inside := description.resourceId rs (acquiring.punctual.pending_mem member)
  exact ⟨⟨rs.resourceId, inside⟩, dif_pos inside, rfl⟩

theorem first (acquiring : Acquiring script current kept (rs :: todo) state)
    (isDue : rs.at_ = (state.process current).age) : (state.process current).firstDue = some rs.resourceId := by
  unfold Process.firstDue
  rw [acquiring.resources, due_append _ acquiring.passed]
  exact due_cons_of_eq todo isDue

/-- The resource is free and the process gets it. -/
theorem take (valid : script.Valid) (acquiring : Acquiring script current kept (rs :: todo) state)
    (isDue : rs.at_ = (state.process current).age) {r : Fin nrResources} (indexed : r.val = rs.resourceId)
    (free : state.owner r = none) :
    Acquiring script current kept todo ((state.setOwner r (some current)).take current kept todo rs) := by
  have placed := acquiring.invariant.placed
  have member : rs ∈ kept ++ rs :: todo := List.mem_append_right _ List.mem_cons_self
  have lasting := (valid.description placed.of_detached.1).duration rs (acquiring.punctual.pending_mem member)
  let after := (state.setOwner r (some current)).take current kept todo rs
  have itself : after.process current = (state.process current).take kept todo rs :=
    (state.setOwner r (some current)).take_process_self current kept todo rs
  have others : forall process, process ≠ current -> after.process process = state.process process :=
    fun process different => (state.setOwner r (some current)).take_process_of_ne different kept todo rs
  have owner : after.owner = Function.update state.owner r (some current) := state.owner_setOwner ..
  have waitqueue : after.waitqueue = state.waitqueue := state.waitqueue_setOwner ..
  have ready : forall process, process ∈ state.readyqueue -> process ≠ current := by
    intro process member same
    subst process
    have queued := State.queued_of_ready member
    have detached := placed.of_detached
    omega
  have age : (after.process current).age = (state.process current).age := by
    rw [itself]
    rfl
  constructor
  case isCurrent => exact acquiring.isCurrent
  case invariant =>
    constructor
    case placed =>
      have modified := (placed.setOwner r (some current)).modify (fun process => process.take kept todo rs) rfl
        placed.of_detached.2.2
      exact modified.besides
    case owned =>
      have counted : forall other : Fin nrResources, (after.process current).holds other =
          (state.process current).holds other + if rs.resourceId = other.val then 1 else 0 := by
        intro other
        rw [itself]
        unfold Process.holds Process.take
        dsimp only
        rw [List.countP_append, List.countP_singleton]
        simp only [decide_eq_true_eq]
      apply acquiring.invariant.owned.change r
      · intro process different
        rw [others process different]
      · intro other different
        rw [owner, Function.update_of_ne different, counted, if_neg]
        · exact ⟨rfl, rfl⟩
        · exact fun same => different (Fin.ext (same.symm.trans indexed.symm))
      · have before := acquiring.invariant.owned r current
        rw [free, if_neg (Option.some_ne_none _).symm] at before
        rw [counted, before, if_pos indexed.symm, owner, Function.update_self, if_pos rfl]
      · intro process different
        rw [free, owner, Function.update_self]
        exact ⟨(Option.some_ne_none _).symm, fun same => different (Option.some.inj same).symm⟩
    case punctual =>
      intro process different
      rw [others process fun same => different (congrArg some same.symm)]
      exact acquiring.invariant.punctual process different
    case attended =>
      apply acquiring.invariant.attended.step r
      · intro other different owned
        have same : after.owner other = state.owner other := by rw [owner, Function.update_of_ne different]
        exact same.trans_ne owned
      · intro process other _ waits
        have member : process ∈ after.waitqueue other := waits
        rw [waitqueue] at member
        exact member
      · rintro process other different (⟨member, retries⟩ | ⟨_, next⟩)
        · exact Or.inl ⟨member, (congrArg Process.firstDue (others process (ready process member))).trans retries⟩
        · rw [due_cons_of_eq todo isDue] at next
          exact absurd (Fin.ext ((Option.some.inj next).symm.trans indexed.symm)) different
      · intro _ _
        have owned : after.owner r = some current := by rw [owner, Function.update_self]
        exact Or.inl (owned.trans_ne (Option.some_ne_none _))
  case running => exact (congrArg Process.status itself).trans acquiring.running
  case young =>
    rw [itself]
    exact acquiring.young
  case resources => exact congrArg Process.resourcesToAcquire itself
  case passed =>
    rw [age]
    exact acquiring.passed
  case punctual =>
    rw [itself]
    exact acquiring.punctual.take isDue lasting

/-- The resource has an owner and the process waits. -/
theorem refuse (acquiring : Acquiring script current kept (rs :: todo) state)
    (isDue : rs.at_ = (state.process current).age) {r : Fin nrResources} (indexed : r.val = rs.resourceId)
    {owner : Nat} (owned : state.owner r = some owner) :
    Invariant script none none
      ((state.setStatus current .blocked).setWaitqueue r (state.waitqueue r ++ [current])) := by
  have first : (state.process current).firstDue = some r.val := indexed.symm ▸ acquiring.first isDue
  let after := (state.setStatus current .blocked).setWaitqueue r (state.waitqueue r ++ [current])
  have blocked : forall process, after.process process =
      { state.process process with
        status := if process = current then .blocked else (state.process process).status } :=
    State.setStatus_process state current .blocked
  have sameOwner : after.owner = state.owner := State.owner_setWaitqueue ..
  have waitqueue : after.waitqueue = Function.update state.waitqueue r (state.waitqueue r ++ [current]) :=
    State.waitqueue_setWaitqueue ..
  constructor
  case placed => exact acquiring.invariant.placed.wait acquiring.young first
  case owned =>
    intro other process
    rw [blocked process, sameOwner]
    exact acquiring.invariant.owned other process
  case punctual =>
    intro process _
    rw [blocked process]
    by_cases same : process = current
    · subst process
      dsimp only
      rw [acquiring.resources]
      exact acquiring.punctual
    · exact acquiring.invariant.punctual process fun equal => same (Option.some.inj equal).symm
  case attended =>
    apply acquiring.invariant.attended.step r
    · intro other _ owned
      exact (congrFun sameOwner other).trans_ne owned
    · intro process other different waits
      have member : process ∈ after.waitqueue other := waits
      rw [waitqueue, Function.update_of_ne different] at member
      exact member
    · rintro process other different (⟨member, retries⟩ | ⟨_, next⟩)
      · refine Or.inl ⟨member, ?_⟩
        rw [blocked process]
        exact retries
      · rw [due_cons_of_eq todo isDue] at next
        exact absurd (Fin.ext ((Option.some.inj next).symm.trans indexed.symm)) different
    · intro _ _
      exact Or.inl (((congrFun sameOwner r).trans owned).trans_ne (Option.some_ne_none _))

end Acquiring

/-- A round may end with a process that is blocked. -/
theorem Invariant.between_of_waiting {script : Script} {state : State} (invariant : Invariant script none none state)
    {current : Nat} (isCurrent : state.current = some current) {r : Fin nrResources}
    (waits : current ∈ state.waitqueue r) : Between script state := by
  have idle : state.running = none := by
    apply State.running_eq_none
    intro process isSome
    rw [isCurrent] at isSome
    cases isSome
    exact (invariant.placed.waiting r current waits).1
  refine ⟨idle ▸ invariant, ?_, ?_⟩
  · intro other isOther
    rw [isCurrent] at isOther
    cases isOther
    exact Or.inr ⟨r, waits⟩
  · intro other runs
    rw [idle] at runs
    cases runs

/-- Who is refused waits. -/
theorem mem_waitqueue_refused {current : Nat} {r : Fin nrResources} (state : State) :
    current ∈ ((state.setStatus current .blocked).setWaitqueue r (state.waitqueue r ++ [current])).waitqueue r := by
  rw [State.waitqueue_setWaitqueue, Function.update_self]
  exact List.mem_append_right _ List.mem_cons_self

/-- A lawful scheduler grants or refuses what the process asks for. -/
theorem Acquiring.answered {script : Script} {sched : Scheduler} {current : Nat} {kept todo : List ResourceSchedule}
    {rs : ResourceSchedule} {state : State} (valid : script.Valid) (lawful : Lawful sched)
    (acquiring : Acquiring script current kept (rs :: todo) state) :
    Exists fun r : Fin nrResources => Exists fun granted => Exists fun after => r.val = rs.resourceId ∧
      sched.acquire rs.resourceId state = .ok (granted, after) ∧ Acquired current r state granted after := by
  rcases acquiring.indexed valid with ⟨r, index, indexed⟩
  rcases lawful.acquire index acquiring.isCurrent with ⟨granted, after, asked, answer⟩
  exact ⟨r, granted, after, indexed, asked, answer⟩

/-- A lawful scheduler is asked for a resource. -/
theorem Acquiring.ask {script : Script} {sched : Scheduler} (valid : script.Valid) (lawful : Lawful sched)
    {current : Nat} (kept : List ResourceSchedule) (rs : ResourceSchedule) (todo : List ResourceSchedule)
    (state : State) (acquiring : Acquiring script current kept (rs :: todo) state)
    (isDue : rs.at_ = (state.process current).age) :
    (Exists fun after => sched.acquire rs.resourceId state = .ok (true, after) ∧
      Acquiring script current kept todo (after.take current kept todo rs)) ∨
    (Exists fun after => sched.acquire rs.resourceId state = .ok (false, after) ∧
      Between script (after.print (.blocked current rs.resourceId))) := by
  rcases acquiring.answered valid lawful with ⟨r, granted, after, indexed, asked, answer⟩
  cases answer with
  | granted prio free =>
      refine Or.inl ⟨_, asked, ?_⟩
      exact (acquiring.reprioritized prio).take valid isDue indexed free
  | refused prio owner owned =>
      refine Or.inr ⟨_, asked, ?_⟩
      have refused := acquiring.refuse isDue indexed owned
      exact refused.besides.between_of_waiting acquiring.isCurrent (mem_waitqueue_refused state)

end Sched
end OsPa
