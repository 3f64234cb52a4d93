import OsPa.Sched.ListHeads
import OsPa.Sched.Links
import OsPa.Sched.WakeUp

namespace OsPa
namespace Sched

open Library LinkedLists

/-!
# Runs with list heads

The eight schedulers do with list heads what they do with lists, whenever the current
process is allocated and in no list and every owner is allocated.  The invariant of
the rounds says so.  A round of the one loop is therefore a round of the other, from
the first one on, and no run uses a process after it has been freed.
-/

/-- Whoever holds a resource or asks for it is allocated, and who asks is in no
list. -/
def Acquires (script : Script) (acquire : Nat -> State -> Except Fault (Bool × State))
    (pointers : Nat -> PointerState -> Except PointerFault (Bool × PointerState)) : Prop :=
  forall {state after : State} {memory : Memory Queue Nat} {resourceId current : Nat} {granted : Bool},
    Stands script state memory -> state.current = some current -> memory.live current = true ->
    state.queued current = 0 -> (forall r owner, state.owner r = some owner -> memory.live owner = true) ->
    acquire resourceId state = .ok (granted, after) ->
      Follows script (pointers resourceId (state.pointers memory)) granted after

def Releases (script : Script) (release : Nat -> State -> Except Fault State)
    (pointers : Nat -> PointerState -> Except PointerFault PointerState) : Prop :=
  forall {state after : State} {memory : Memory Queue Nat} {resourceId current : Nat},
    Stands script state memory -> state.current = some current -> memory.live current = true ->
    release resourceId state = .ok after ->
      Becomes script (pointers resourceId (state.pointers memory)) after

/-- The callbacks with list heads do what the ones with lists do. -/
structure Wired (script : Script) (sched : Scheduler) (pointers : PointerScheduler) : Prop where
  schedule : forall {state : State} {memory : Memory Queue Nat}, Stands script state memory ->
    (forall current, state.current = some current -> memory.live current = true) ->
    (forall current, state.runnable = some current -> state.queued current = 0) ->
      Follows script (pointers.schedule (state.pointers memory)) (sched.schedule state).1 (sched.schedule state).2
  acquire : Acquires script sched.acquire pointers.acquire
  release : Releases script sched.release pointers.release

/-! ## Acquire and release -/

section Callbacks

variable {script : Script} {memory : Memory Queue Nat} {current : Nat}

theorem acquireWith_follows {take : Nat -> State -> State} {wait : Nat -> Nat -> State -> State}
    {takePointers : Nat -> PointerState -> Except PointerFault PointerState}
    {waitPointers : Nat -> Nat -> PointerState -> Except PointerFault PointerState}
    (takes : forall {state : State} {memory : Memory Queue Nat} {current : Nat}, memory.live current = true ->
      takePointers current (state.pointers memory) = .ok ((take current state).pointers memory))
    (waits : forall {state : State} {memory : Memory Queue Nat} {owner current : Nat}, memory.live owner = true ->
      memory.live current = true ->
        waitPointers owner current (state.pointers memory) = .ok ((wait owner current state).pointers memory))
    (takePrio : forall current, PrioOnly (take current))
    (waitPrio : forall owner current, PrioOnly (wait owner current)) :
    Acquires script (acquireWith take wait) (Pointers.acquireWith takePointers waitPointers) := by
  intro state after memory resourceId current granted stands isCurrent live unlinked owners acquired
  rcases acquireWith_ok acquired with ⟨r, current', indexed, isCurrent', free | refused⟩
  · rw [isCurrent] at isCurrent'
    cases isCurrent'
    rcases free with ⟨rfl, free, rfl⟩
    have index : resourceIndex resourceId = some r := resourceIndex_eq_some.mpr indexed
    have isCurrent'' : (state.pointers memory).current = some current := isCurrent
    have unowned : (state.pointers memory).owner r = none := free
    unfold Pointers.acquireWith
    rw [index, isCurrent'']
    dsimp only
    rw [unowned]
    dsimp only
    rw [setOwner_eq, takes live]
    rcases takePrio current (state.setOwner r (some current)) with ⟨prio, taken⟩
    rw [taken]
    exact ⟨memory, rfl, (stands.setOwner r (some current)).reprioritized prio⟩
  · rw [isCurrent] at isCurrent'
    cases isCurrent'
    rcases refused with ⟨rfl, owner, owned, rfl⟩
    have index : resourceIndex resourceId = some r := resourceIndex_eq_some.mpr indexed
    have isCurrent'' : (state.pointers memory).current = some current := isCurrent
    have owned' : (state.pointers memory).owner r = some owner := owned
    rcases waitPrio owner current state with ⟨prio, waiting⟩
    have waiting' : waitPointers owner current (state.pointers memory) =
        .ok ((wait owner current state).pointers memory) :=
      waits (owners r owner owned) live
    unfold Pointers.acquireWith
    rw [index, isCurrent'']
    dsimp only
    rw [owned']
    dsimp only
    rw [waiting', waiting]
    have blocked : ((state.reprioritized prio).pointers memory).setStatus current .blocked = _ := modify_eq live _
    have stands' : Stands script ((state.reprioritized prio).setStatus current .blocked) memory :=
      (stands.reprioritized prio).modify live ProcessStatus.noConfusion
    have queued : ((state.reprioritized prio).setStatus current .blocked).queued current = 0 := unlinked
    rcases stands'.addWaiter live (State.detached_of_queued queued) r with ⟨memory', added, after⟩
    dsimp only [bind, Except.bind]
    rw [blocked]
    have same : (state.reprioritized prio).modify current (fun record => { record with status := .blocked }) =
      (state.reprioritized prio).setStatus current .blocked := rfl
    rw [same]
    dsimp only
    rw [added]
    exact ⟨memory', rfl, after⟩

theorem releaseWith_becomes {restore : Nat -> State -> State} {select : State -> List Nat -> Option Nat}
    {restorePointers : Nat -> PointerState -> Except PointerFault PointerState}
    {walk : Queue -> PointerState -> Nat -> Except PointerFault Nat} (walks : Walks script select walk)
    (restores : forall {state : State} {memory : Memory Queue Nat} {current : Nat}, memory.live current = true ->
      restorePointers current (state.pointers memory) = .ok ((restore current state).pointers memory))
    (restorePrio : forall current, PrioOnly (restore current)) :
    Releases script (releaseWith restore select) (Pointers.releaseWith restorePointers walk) := by
  intro state after memory resourceId current stands isCurrent live released
  have isCurrent' : (state.pointers memory).current = some current := isCurrent
  unfold releaseWith at released
  unfold Pointers.releaseWith
  rw [isCurrent']
  rw [isCurrent] at released
  cases index : resourceIndex resourceId with
  | none =>
      rw [index] at released
      cases released
  | some r =>
      rw [index] at released
      dsimp only at released ⊢
      have owner : (state.pointers memory).owner r = (state.resources r).owner := rfl
      rw [owner]
      split at released
      case isFalse => cases released
      case isTrue owned =>
        rw [if_pos owned, restores live]
        dsimp only [bind, Except.bind]
        rw [setOwner_eq]
        rcases restorePrio current state with ⟨prio, restored⟩
        rw [restored] at released ⊢
        generalize unowns : (state.reprioritized prio).setOwner r none = unowned at released
        have stands' : Stands script unowned memory := unowns ▸ (stands.reprioritized prio).setOwner r none
        rw [askList_eq (listEmpty_head stands'.keeps (.waitqueue r))]
        cases queue : (unowned.resources r).waitqueue with
        | nil =>
            have empty : unowned.queue (.waitqueue r) = [] := queue
            rw [queue] at released
            cases released
            rw [empty]
            exact ⟨memory, rfl, stands'⟩
        | cons first rest =>
            have isQueue : unowned.queue (.waitqueue r) = first :: rest := queue
            have notEmpty : decide (unowned.queue (.waitqueue r) = []) = false := by
              rw [isQueue]
              rfl
            have inside : memory.live first = true :=
              stands'.live_of_mem (.waitqueue r) (isQueue ▸ List.mem_cons_self)
            have record : (unowned.pointers memory).read first = _ := read_eq inside
            rw [queue] at released
            dsimp only at released
            rw [notEmpty]
            dsimp only
            rw [if_neg Bool.false_ne_true, askList_eq (listFirstEntry_eq stands'.keeps isQueue)]
            dsimp only
            rw [record]
            dsimp only
            split at released
            case isFalse => cases released
            case isTrue blocked =>
              rw [if_pos blocked]
              rcases walks.cons stands' isQueue with ⟨waiter, walked, selected, member⟩
              rw [selected] at released
              cases released
              rw [walked]
              dsimp only
              have waits : waiter ∈ unowned.queue (.waitqueue r) := isQueue ▸ member
              rcases stands'.delWaiter waits with ⟨memory', deleted, shorter⟩
              rw [deleted, ← queue]
              dsimp only
              have same : (unowned.resources r).waitqueue = unowned.waitqueue r := rfl
              rw [same]
              have live' : memory'.live waiter = true :=
                (shorter.live waiter).mpr ((stands'.live waiter).mp (stands'.live_of_mem (.waitqueue r) waits))
              have ready : ((unowned.setWaitqueue r ((unowned.waitqueue r).erase waiter)).pointers memory').setStatus
                waiter .ready = _ := modify_eq live' _
              rw [ready]
              have detached : forall queue,
                  waiter ∉ (unowned.setWaitqueue r ((unowned.waitqueue r).erase waiter)).queue queue := by
                intro queue
                rw [State.queue_setWaitqueue]
                exact stands'.keeps.detached_of_erase waits queue
              exact (shorter.modify live' ProcessStatus.noConfusion).addReady live' detached

private theorem restorePrio_pointers (live : memory.live current = true) {state : State} :
    Pointers.restorePrio current (state.pointers memory) = .ok ((restorePrio current state).pointers memory) := by
  have record : (state.pointers memory).read current = _ := read_eq live
  unfold Pointers.restorePrio
  rw [record]
  have restored : (state.pointers memory).setPrio current (state.process current).prioOrig = _ := modify_eq live _
  exact restored

private theorem inherit_pointers {owner : Nat} (owning : memory.live owner = true) (live : memory.live current = true)
    {state : State} :
    (do
      let owner' ← (state.pointers memory).read owner
      let waiting ← (state.pointers memory).read current
      if owner'.prio < waiting.prio then (state.pointers memory).setPrio owner waiting.prio
      else .ok (state.pointers memory)) =
      .ok ((if (state.process owner).prio < (state.process current).prio then
        state.setPrio owner (state.process current).prio else state).pointers memory) := by
  have owner' : (state.pointers memory).read owner = _ := read_eq owning
  have waiting : (state.pointers memory).read current = _ := read_eq live
  rw [owner', waiting]
  dsimp only [bind, Except.bind]
  split
  · exact modify_eq owning _
  · rfl

end Callbacks

private theorem SchedulerName.wired (name : SchedulerName) {script : Script} {fuel : Nat}
    (enough : script.length < fuel) : Wired script name.scheduler (Pointers.scheduler fuel name) := by
  have byPrio : Walks script highestPrio (Pointers.scanQueue fuel Pointers.largerPrio) :=
    walks_scan enough Pointers.largerPrio
  have keeps : forall current : Nat, PrioOnly fun state => state := fun _ => PrioOnly.id
  have fcfsAcquires : Acquires script fcfsAcquire Pointers.fcfsAcquire :=
    acquireWith_follows (fun _ => rfl) (fun _ _ => rfl) keeps fun _ => keeps
  have inherits : forall owner current : Nat, PrioOnly fun state =>
      if (state.process owner).prio < (state.process current).prio then
        state.setPrio owner (state.process current).prio
      else state := by
    intro owner current state
    dsimp only
    split
    · exact ⟨_, state.setPrio_eq owner _⟩
    · exact ⟨_, state.reprioritized_self⟩
  cases name with
  | fcfs =>
      exact ⟨fun stands alive _ => nonpreemptive_follows (walks_first script) stands alive, fcfsAcquires,
        releaseWith_becomes (walks_first script) (fun _ => rfl) keeps⟩
  | sjf =>
      have shortest := walks_scan enough fun pos next => decide (pos.lifespan < next.lifespan)
      exact ⟨fun stands alive _ => nonpreemptive_follows shortest stands alive, fcfsAcquires,
        releaseWith_becomes (walks_first script) (fun _ => rfl) keeps⟩
  | stcf =>
      have shortest := walks_scan enough fun pos next => decide (pos.remaining < next.remaining)
      exact ⟨preemptive_follows shortest, fcfsAcquires,
        releaseWith_becomes (walks_first script) (fun _ => rfl) keeps⟩
  | rr =>
      exact ⟨preemptive_follows (walks_first script), fcfsAcquires,
        releaseWith_becomes (walks_first script) (fun _ => rfl) keeps⟩
  | prio =>
      exact ⟨preemptive_follows byPrio, fcfsAcquires, releaseWith_becomes byPrio (fun _ => rfl) keeps⟩
  | pa =>
      exact ⟨fun stands alive detached => paSchedule_follows stands enough alive detached, fcfsAcquires,
        releaseWith_becomes byPrio (fun _ => rfl) keeps⟩
  | pcp =>
      have acquires : Acquires script pcpAcquire Pointers.pcpAcquire :=
        acquireWith_follows (fun live => modify_eq live _) (fun _ _ => rfl)
          (fun current => PrioOnly.setPrio current fun _ => maxPrio) fun _ => keeps
      exact ⟨preemptive_follows byPrio, acquires,
        releaseWith_becomes byPrio (fun live => restorePrio_pointers live) restorePrio_prioOnly⟩
  | pip =>
      have acquires : Acquires script pipAcquire Pointers.pipAcquire :=
        acquireWith_follows (fun _ => rfl) (fun owning live => inherit_pointers owning live) keeps inherits
      exact ⟨preemptive_follows byPrio, acquires,
        releaseWith_becomes byPrio (fun live => restorePrio_pointers live) restorePrio_prioOnly⟩

/-! ## Fork -/

section Fork

variable {script : Script} {state : State} {memory : Memory Queue Nat} {process : Nat}

private theorem Stands.moveTail (stands : Stands script state memory) (member : process ∈ state.forkqueue) :
    Becomes script (onList (listMoveTail (.item process) (.head .readyqueue)) (state.pointers memory))
      (({ state with forkqueue := state.forkqueue.erase process } : State).addReady process) := by
  have inside : process ∈ state.queue .forkqueue := member
  rcases listMoveTail_keeps stands.keeps inside .readyqueue with ⟨links, moved, keeps⟩
  refine ⟨_, onList_eq moved, stands.relink ?_ rfl⟩
  have queue : (({ state with forkqueue := state.forkqueue.erase process } : State).addReady process).queue =
      Function.update (Function.update state.queue .forkqueue ((state.queue .forkqueue).erase process)) .readyqueue
        (state.readyqueue ++ [process]) := by
    funext queue
    cases queue <;> rfl
  rw [queue]
  exact keeps

theorem forkProcess_becomes (stands : Stands script state memory) (member : process ∈ state.forkqueue) :
    Becomes script (Pointers.forkProcess process (state.pointers memory)) (forkProcess state process) := by
  have live := stands.live_of_mem .forkqueue member
  have record : (state.pointers memory).read process = _ := read_eq live
  have ticks : (state.pointers memory).ticks = state.ticks := rfl
  unfold Pointers.forkProcess
  rw [record, forkProcess_eq]
  dsimp only [bind, Except.bind]
  rw [ticks]
  split
  case isFalse => exact ⟨memory, rfl, stands⟩
  case isTrue arrived =>
    rcases stands.moveTail member with ⟨memory', moved, after⟩
    have live' := after.live_of_mem .readyqueue (List.mem_append_right _ List.mem_cons_self)
    rw [moved]
    dsimp only
    rw [setStatus_eq live']
    exact ⟨memory', rfl, (after.setStatus live' ProcessStatus.noConfusion).print _⟩

/-- What the loop has not come to yet stays where it is. -/
theorem forkProcess_forkqueue {kept todo : List Nat} (nodup : state.forkqueue.Nodup)
    (split : state.forkqueue = kept ++ process :: todo) :
    Exists fun kept' => (forkProcess state process).forkqueue = kept' ++ todo := by
  rw [forkProcess_eq]
  split
  case isFalse => exact ⟨kept ++ [process], split.trans (List.append_cons ..)⟩
  case isTrue =>
    have new : process ∉ kept := by
      intro early
      rw [split] at nodup
      exact (List.nodup_append'.mp nodup).2.2 early List.mem_cons_self
    refine ⟨kept, ?_⟩
    have erased : ((state.fork process).print (.forked process)).forkqueue = state.forkqueue.erase process := rfl
    rw [erased, split, List.erase_append_right _ new, List.erase_cons_head]

/-- The loop over the fork queue, which has looked at the cell behind `pos` already. -/
theorem forkLoop_becomes {kept todo : List Nat} (split : state.forkqueue = kept ++ todo) {fuel : Nat}
    (enough : todo.length < fuel) {tmp : Cell Queue Nat}
    (behind : forall process rest, todo = process :: rest -> tmp = frontier .forkqueue rest)
    (stands : Stands script state memory) :
    Becomes script (Pointers.forkLoop fuel (frontier .forkqueue todo) tmp (state.pointers memory))
      (todo.foldl forkProcess state) := by
  induction todo generalizing kept state memory fuel tmp with
  | nil =>
      cases fuel with
      | zero => exact absurd enough (Nat.not_lt_zero _)
      | succ fuel => exact ⟨memory, rfl, stands⟩
  | cons process todo inductionHypothesis =>
      cases fuel with
      | zero => exact absurd enough (Nat.not_lt_zero _)
      | succ fuel =>
          have isBehind := behind process todo rfl
          have member : process ∈ state.forkqueue := split ▸ List.mem_append_right _ List.mem_cons_self
          have nodup : state.forkqueue.Nodup := stands.keeps.represents.nodup .forkqueue
          rcases forkProcess_becomes stands member with ⟨memory', forked, after⟩
          rcases forkProcess_forkqueue nodup split with ⟨kept', split'⟩
          have notHead : (frontier .forkqueue (process :: todo) : Cell Queue Nat) ≠ .head .forkqueue := nofun
          have entry : listEntry (frontier .forkqueue (process :: todo) : Cell Queue Nat) = .ok process := rfl
          have goesOn : Exists fun next => memory'.next tmp = .ok next ∧
              forall later rest, todo = later :: rest -> next = frontier .forkqueue rest := by
            rw [isBehind]
            cases todo with
            | nil => exact ⟨_, Memory.next_eq rfl, nofun⟩
            | cons later rest =>
                have inside : (forkProcess state process).queue .forkqueue = kept' ++ later :: rest := split'
                refine ⟨_, next_of_mem after.keeps inside, ?_⟩
                rintro _ _ same
                cases same
                rfl
          rcases goesOn with ⟨next, read, further⟩
          rw [Pointers.forkLoop, if_neg notHead, entry, List.foldl_cons]
          dsimp only [bind, Except.bind]
          rw [forked]
          dsimp only
          rw [askList_eq read]
          dsimp only
          rw [isBehind]
          exact inductionHypothesis split' (Nat.lt_of_succ_lt_succ enough) further after

theorem forkOnSchedule_becomes (stands : Stands script state memory) {fuel : Nat} (enough : script.length < fuel) :
    Becomes script (Pointers.forkOnSchedule fuel (state.pointers memory)) (forkOnSchedule state) := by
  have start : memory.next (.head .forkqueue) = .ok (frontier .forkqueue state.forkqueue) :=
    stands.keeps.next_head .forkqueue
  have shorter : state.forkqueue.length ≤ script.length := stands.length_le .forkqueue
  have goesOn : Exists fun next => memory.next (frontier .forkqueue state.forkqueue) = .ok next ∧
      forall process rest, state.forkqueue = process :: rest -> next = frontier .forkqueue rest := by
    cases forks : state.forkqueue with
    | nil => exact ⟨_, Memory.next_eq rfl, nofun⟩
    | cons process rest =>
        have inside : state.queue .forkqueue = [] ++ process :: rest := forks
        refine ⟨_, next_of_mem stands.keeps inside, ?_⟩
        rintro _ _ same
        cases same
        rfl
  rcases goesOn with ⟨tmp, read, behind⟩
  unfold Pointers.forkOnSchedule
  rw [askList_eq start]
  dsimp only [bind, Except.bind]
  rw [askList_eq read]
  have split : state.forkqueue = [] ++ state.forkqueue := rfl
  exact forkLoop_becomes split (Nat.lt_of_le_of_lt shorter enough) behind stands

end Fork

/-! ## Exit -/

section Exit

variable {script : Script} {state after : State} {memory : Memory Queue Nat} {process : Nat}

/-- A process that is in no list can be freed when it exits. -/
theorem Stands.exit (stands : Stands script state memory) (live : memory.live process = true)
    (unlinked : state.queued process = 0) :
    Exists fun memory' => memory.free process = .ok memory' ∧
      Stands script (state.setStatus process .exit) memory' := by
  have queue : (state.setStatus process .exit).queue = state.queue := by
    funext queue
    cases queue <;> rfl
  rcases stands.keeps.free live (State.detached_of_queued unlinked) with ⟨memory', freed, keeps, gone⟩
  refine ⟨memory', freed, queue ▸ keeps, ?_⟩
  intro other
  rw [State.setStatus_process, gone]
  by_cases same : other = process
  · subst same
    rw [Function.update_self, if_pos rfl]
    exact iff_of_false Bool.false_ne_true fun alive => alive.2 rfl
  · rw [Function.update_of_ne same, if_neg same]
    exact stands.live other

theorem exitProcess_becomes (stands : Stands script state memory) (live : memory.live process = true)
    (exited : exitProcess process (state.setStatus process .exit) = .ok after) :
    Becomes script (Pointers.exitProcess process ((state.setStatus process .exit).pointers memory)) after := by
  have unlinked : state.queued process = 0 := (exitProcess_ok exited).1
  have alone := listEmpty_of_detached stands.keeps live (State.detached_of_queued unlinked)
  have record : ((state.setStatus process .exit).pointers memory).read process = _ := read_eq live
  unfold exitProcess at exited
  unfold Pointers.exitProcess
  rw [askList_eq alone]
  dsimp only [bind, Except.bind]
  rw [if_neg (Ne.symm Bool.false_ne_true), record]
  dsimp only
  split at exited
  case isTrue => cases exited
  case isFalse =>
    split at exited
    case isTrue => cases exited
    case isFalse released =>
      split at exited
      case isTrue => cases exited
      case isFalse acquired =>
        cases exited
        rw [if_neg released, if_neg acquired]
        rcases stands.exit live unlinked with ⟨memory', freed, stands'⟩
        have freeing : onList (fun memory => memory.free process)
            (((state.setStatus process .exit).print (.exited process)).pointers memory) = _ := onList_eq freed
        exact ⟨memory', freeing, stands'.print _⟩

theorem retire_becomes {prev : Option Nat} (stands : Stands script state memory)
    (alive : forall process, prev = some process -> memory.live process = true)
    (retired : retire prev state = .ok after) :
    Becomes script (Pointers.retire prev (state.pointers memory)) after := by
  cases prev with
  | none =>
      cases retired
      exact ⟨memory, rfl, stands⟩
  | some process =>
      have live := alive process rfl
      -- what is left to do once the process is ready again
      have rest : forall ready : State, Stands script ready memory ->
          (if (ready.process process).age = (ready.process process).lifespan then
            exitProcess process (ready.setStatus process .exit) else .ok ready) = .ok after ->
          Becomes script (if (ready.process process).age = (ready.process process).lifespan then do
              let state ← (ready.pointers memory).setStatus process .exit
              Pointers.exitProcess process state
            else return ready.pointers memory) after := by
        intro ready stands retired
        split at retired
        case isTrue completed =>
          rw [if_pos completed, setStatus_eq live]
          exact exitProcess_becomes stands live retired
        case isFalse young =>
          cases retired
          rw [if_neg young]
          exact ⟨memory, rfl, stands⟩
      have record : forall ready : State, (ready.pointers memory).read process = .ok (ready.process process) :=
        fun _ => read_eq live
      unfold retire at retired
      unfold Pointers.retire
      dsimp only [bind, Except.bind] at retired ⊢
      rw [record]
      dsimp only
      by_cases runs : (state.process process).status = .running
      · rw [if_pos runs] at retired ⊢
        rw [setStatus_eq live]
        dsimp only
        rw [record]
        exact rest _ (stands.setStatus live ProcessStatus.noConfusion) retired
      · rw [if_neg runs] at retired ⊢
        exact rest _ stands retired

end Exit

/-! ## Execution -/

section Execution

variable {script : Script} {sched : Scheduler} {pointers : PointerScheduler} {state after : State}
  {memory : Memory Queue Nat} {current : Nat} {kept todo : List ResourceSchedule}

theorem Stands.live_of_detached (stands : Stands script state memory) (placed : Placed script (some current) state) :
    memory.live current = true :=
  (stands.live current).mpr ⟨placed.of_detached.1, placed.of_detached.2.2⟩

/-- Owners are allocated while a process acquires resources. -/
theorem Acquiring.owner_live (valid : script.Valid) (acquiring : Acquiring script current kept todo state)
    (stands : Stands script state memory) {r : Fin nrResources} {owner : Nat} (owns : state.owner r = some owner) :
    memory.live owner = true := by
  have placed := acquiring.invariant.placed
  by_cases same : owner = current
  · subst same
    exact stands.live_of_detached placed
  · rcases acquiring.invariant.owned.holding owns with ⟨rs, held, _⟩
    have punctual := acquiring.invariant.punctual owner fun equal => same (Option.some.inj equal).symm
    have inside := Script.lt_length_of_acquire (punctual.restore_mem held)
    have young := punctual.held_young (valid.description inside) held
    refine (stands.live owner).mpr ⟨inside, ?_⟩
    intro exited
    have completed := placed.exited owner exited
    rw [placed.lifespan owner] at completed
    omega

theorem runCurrentAcquire_follows (valid : script.Valid) (lawful : Lawful sched) (wired : Wired script sched pointers)
    (acquiring : Acquiring script current kept todo state) (stands : Stands script state memory) {granted : Bool}
    (ran : runCurrentAcquire sched current kept todo state = .ok (granted, after)) :
    Follows script (Pointers.runCurrentAcquire pointers current kept todo (state.pointers memory)) granted after := by
  induction todo generalizing kept state memory with
  | nil =>
      cases ran
      exact ⟨memory, rfl, stands⟩
  | cons rs todo inductionHypothesis =>
      have live := stands.live_of_detached acquiring.invariant.placed
      have record : (state.pointers memory).read current = _ := read_eq live
      rw [runCurrentAcquire_cons] at ran
      unfold Pointers.runCurrentAcquire
      rw [record]
      dsimp only [bind, Except.bind]
      split at ran
      case isFalse notDue =>
        rw [if_neg notDue]
        exact inductionHypothesis (acquiring.skip notDue) stands ran
      case isTrue isDue =>
        rw [if_pos isDue]
        have asks : forall {answer : State} {granted : Bool},
            sched.acquire rs.resourceId state = .ok (granted, answer) ->
              Follows script (pointers.acquire rs.resourceId (state.pointers memory)) granted answer :=
          wired.acquire stands acquiring.isCurrent live acquiring.invariant.placed.of_detached.2.1
            fun _ _ owns => acquiring.owner_live valid stands owns
        rcases Acquiring.ask valid lawful kept rs todo state acquiring isDue with
          ⟨answer, asked, further⟩ | ⟨answer, asked, _⟩
        · rcases asks asked with ⟨memory', asked', stands'⟩
          have alive := further.invariant.placed.of_detached
          rw [State.take_process_self] at alive
          have live' : memory'.live current = true := (stands'.live current).mpr ⟨alive.1, alive.2.2⟩
          have taken : Stands script (answer.modify current fun process => process.take kept todo rs) memory' :=
            stands'.modify live' alive.2.2
          have moved : (answer.pointers memory').modify current (fun process => process.take kept todo rs) = _ :=
            modify_eq live' _
          rw [asked] at ran
          rw [asked']
          dsimp only at ran ⊢
          rw [if_pos rfl]
          unfold Process.take at moved
          rw [moved]
          exact inductionHypothesis further (taken.print _) ran
        · rcases asks asked with ⟨memory', asked', stands'⟩
          rw [asked] at ran
          cases ran
          rw [asked']
          exact ⟨memory', rfl, stands'.print _⟩

theorem runCurrentRelease_becomes (valid : script.Valid) (lawful : Lawful sched) (wired : Wired script sched pointers)
    (releasing : Releasing script current kept todo state) (stands : Stands script state memory)
    (ran : runCurrentRelease sched current kept todo state = .ok after) :
    Becomes script (Pointers.runCurrentRelease pointers current kept todo (state.pointers memory)) after := by
  induction todo generalizing kept state memory with
  | nil =>
      cases ran
      exact ⟨memory, rfl, stands⟩
  | cons rs todo inductionHypothesis =>
      have live := stands.live_of_detached releasing.invariant.placed
      have counted := releasing.count
      have held : Stands script (state.hold current (kept ++ rs.countDown :: todo)) memory :=
        stands.modify live releasing.invariant.placed.of_detached.2.2
      have hold : (state.pointers memory).modify current
          (fun process => { process with resourcesHolding := kept ++ rs.countDown :: todo }) =
            .ok ((state.hold current (kept ++ rs.countDown :: todo)).pointers memory) := modify_eq live _
      rw [runCurrentRelease_cons] at ran
      unfold Pointers.runCurrentRelease
      unfold ResourceSchedule.countDown at hold
      dsimp only [bind, Except.bind]
      rw [hold]
      dsimp only
      split at ran
      case isTrue remains =>
        have remains' : Word.pred rs.duration ≠ 0 := remains
        rw [if_pos remains']
        exact inductionHypothesis (releasing.keep remains) held ran
      case isFalse expires =>
        have expires' : ¬ Word.pred rs.duration ≠ 0 := expires
        rw [if_neg expires']
        rcases releasing.expire valid lawful with ⟨released, asked, further⟩
        rcases wired.release held releasing.isCurrent live asked with ⟨memory', asked', stands'⟩
        have alive := further.invariant.placed.of_detached
        rw [State.hold_process_self] at alive
        have live' : memory'.live current = true := (stands'.live current).mpr ⟨alive.1, alive.2.2⟩
        have printed := stands'.print (.released current rs.resourceId)
        have dropped : Stands script ((released.print (.released current rs.resourceId)).hold current (kept ++ todo))
            memory' := printed.modify live' alive.2.2
        have drop : ((released.print (.released current rs.resourceId)).pointers memory').modify current
            (fun process => { process with resourcesHolding := kept ++ todo }) =
              .ok (((released.print (.released current rs.resourceId)).hold current (kept ++ todo)).pointers memory') :=
          modify_eq live' _
        rw [asked] at ran
        unfold ResourceSchedule.countDown at asked'
        rw [asked']
        dsimp only at ran ⊢
        have print : (released.pointers memory').print (.released current rs.resourceId) =
          (released.print (.released current rs.resourceId)).pointers memory' := rfl
        rw [print, drop]
        exact inductionHypothesis further dropped ran

/-- The process that has been chosen starts to run with its own list empty. -/
theorem execute_becomes (valid : script.Valid) (lawful : Lawful sched) (wired : Wired script sched pointers)
    (invariant : Invariant script (some current) (state.process current).firstDue state)
    (isCurrent : state.current = some current)
    (young : (state.process current).age < (state.process current).lifespan)
    (punctual : Punctual (script.description current).acquires (state.process current).age
      (state.process current).resourcesHolding (state.process current).resourcesToAcquire)
    (stands : Stands script state memory) (ran : execute sched current state = .ok after) :
    Becomes script (Pointers.execute pointers current (state.pointers memory)) after := by
  have live := stands.live_of_detached invariant.placed
  have running := stands.setStatus live (ProcessStatus.noConfusion : ProcessStatus.running ≠ .exit)
  have starts := invariant.start isCurrent young punctual
  have alone := listEmpty_of_detached running.keeps live
    (State.detached_of_queued starts.invariant.placed.of_detached.2.1)
  have record : forall state : State, (state.pointers memory).read current = .ok (state.process current) :=
    fun _ => read_eq live
  have resources : ((state.setStatus current .running).process current).resourcesToAcquire =
      (state.process current).resourcesToAcquire := by
    rw [State.setStatus_process]
  unfold execute at ran
  dsimp only at ran
  split at ran
  case isTrue => cases ran
  case isFalse =>
    rw [resources] at ran
    unfold Pointers.execute
    rw [setStatus_eq live]
    dsimp only [bind, Except.bind]
    rw [askList_eq alone]
    dsimp only
    rw [if_neg (Ne.symm Bool.false_ne_true), record]
    dsimp only
    rw [resources]
    rcases runCurrentAcquire_rule (Acquiring script current) (Between script)
        (fun _ _ _ _ acquiring notDue => acquiring.skip notDue) (Acquiring.ask valid lawful) starts with
      ⟨passed, acquired, asked, acquiring⟩ | ⟨refused, asked, _⟩
    · rcases runCurrentAcquire_follows valid lawful wired starts running asked with ⟨memory', asked', stands'⟩
      have releasing := acquiring.grow
      have live' := stands'.live_of_detached acquiring.invariant.placed
      have aged : Stands script (acquired.grow current) memory' :=
        (stands'.print (.ran current)).modify live' acquiring.invariant.placed.of_detached.2.2
      have grow : ((acquired.print (.ran current)).pointers memory').modify current
          (fun process => { process with age := process.age + 1 }) =
            .ok ((acquired.grow current).pointers memory') := modify_eq live' _
      have print : (acquired.pointers memory').print (.ran current) =
        (acquired.print (.ran current)).pointers memory' := rfl
      have record' : ((acquired.grow current).pointers memory').read current = _ := read_eq live'
      have holding : ((acquired.grow current).process current).resourcesHolding =
          (acquired.process current).resourcesHolding := by
        rw [State.grow_process_self]
        rfl
      rw [asked] at ran
      rw [asked']
      dsimp only at ran ⊢
      rw [if_pos rfl, print, grow]
      dsimp only
      rw [record']
      dsimp only
      rw [holding]
      have ran' : runCurrentRelease sched current [] ((acquired.grow current).process current).resourcesHolding
        (acquired.grow current) = .ok after := ran
      rw [holding] at ran'
      exact runCurrentRelease_becomes valid lawful wired releasing aged ran'
    · rcases runCurrentAcquire_follows valid lawful wired starts running asked with ⟨memory', asked', stands'⟩
      rw [asked] at ran
      cases ran
      rw [asked']
      exact ⟨memory', rfl, stands'⟩

/-- The current process is allocated when a round begins. -/
theorem Between.current_live (between : Between script state) (stands : Stands script state memory)
    (isCurrent : state.current = some current) : memory.live current = true := by
  rcases between.current current isCurrent with runs | ⟨r, waits⟩
  · have placed := between.invariant.placed
    rw [State.running_eq_some.mpr ⟨isCurrent, runs⟩] at placed
    exact stands.live_of_detached placed
  · exact stands.live_of_mem (.waitqueue r) waits

/-- And it is in no list if it can run on. -/
theorem Between.runnable_unlinked (between : Between script state) (runs : state.runnable = some current) :
    state.queued current = 0 := by
  rw [between.runnable_eq] at runs
  have placed := between.invariant.placed
  rw [(Option.filter_eq_some_iff.mp runs).1] at placed
  exact placed.of_detached.2.1

/-- A round with list heads is a round with lists. -/
theorem Between.iteration_follows (valid : script.Valid) (lawful : Lawful sched) (wired : Wired script sched pointers)
    (between : Between script state) (stands : Stands script state memory) {fuel : Nat} (enough : script.length < fuel)
    {left : Bool} (ran : Sched.iteration sched state = .ok (left, after)) :
    Follows script (Pointers.iteration fuel pointers (state.pointers memory)) left after := by
  have forked := forkOnSchedule_between between
  rcases forkOnSchedule_becomes stands enough with ⟨memory₁, forks, stands₁⟩
  rcases wired.schedule stands₁ (fun _ isCurrent => forked.current_live stands₁ isCurrent)
      (fun _ runs => forked.runnable_unlinked runs) with ⟨memory₂, schedules, stands₂⟩
  have lives : forall process, memory₁.live process = memory₂.live process := by
    intro process
    rcases lawful.schedule (forkOnSchedule state) with ⟨⟨prio, scheduled⟩, _, _⟩
    have status : ((sched.schedule (forkOnSchedule state)).2.process process).status =
        ((forkOnSchedule state).process process).status := by
      rw [scheduled]
      rfl
    rw [Bool.eq_iff_iff, stands₁.live process, stands₂.live process, status]
  rcases forked.dispatch valid lawful with ⟨updated, retired, isCurrent, invariant, chosen⟩
  have stands₃ : Stands script { (sched.schedule (forkOnSchedule state)).2 with
      current := (sched.schedule (forkOnSchedule state)).1 } memory₂ := by
    apply stands₂.congr
    · funext queue
      cases queue <;> rfl
    · exact fun _ => Iff.rfl
  have alive : forall process, (forkOnSchedule state).current = some process -> memory₂.live process = true :=
    fun process isPrev => (lives process).symm.trans (forked.current_live stands₁ isPrev)
  rcases retire_becomes stands₃ alive retired with ⟨memory₄, retires, stands₄⟩
  unfold Pointers.iteration
  rw [forks]
  dsimp only [bind, Except.bind]
  rw [schedules]
  dsimp only
  have prev : ((forkOnSchedule state).pointers memory₁).current = (forkOnSchedule state).current := rfl
  have view : { (sched.schedule (forkOnSchedule state)).2.pointers memory₂ with
      current := (sched.schedule (forkOnSchedule state)).1 } =
        ({ (sched.schedule (forkOnSchedule state)).2 with
          current := (sched.schedule (forkOnSchedule state)).1 } : State).pointers memory₂ := rfl
  rw [prev, view, retires]
  dsimp only
  cases next : (sched.schedule (forkOnSchedule state)).1 with
  | none =>
      rw [iteration_of_none retired next] at ran
      dsimp only
      rw [askList_eq (listEmpty_head stands₄.keeps .readyqueue)]
      dsimp only
      rw [askList_eq (listEmpty_head stands₄.keeps .forkqueue)]
      dsimp only
      have empty : (decide (updated.queue .readyqueue = []) && decide (updated.queue .forkqueue = [])) = true ↔
          updated.readyqueue = [] ∧ updated.forkqueue = [] := by
        rw [Bool.and_eq_true, decide_eq_true_iff, decide_eq_true_iff]
        rfl
      split at ran
      case isTrue gone =>
        cases ran
        rw [if_pos (empty.mpr gone)]
        exact ⟨memory₄, rfl, stands₄⟩
      case isFalse waits =>
        cases ran
        rw [if_neg fun gone => waits (empty.mp gone)]
        exact ⟨memory₄, rfl, (stands₄.print .idle).congr rfl fun _ => Iff.rfl⟩
  | some current =>
      rw [next] at isCurrent
      rw [isCurrent] at invariant
      have facts := chosen current isCurrent
      rcases invariant.execute valid lawful isCurrent facts.1 facts.2 with ⟨executed, runs, _⟩
      rw [iteration_of_some retired next runs] at ran
      cases ran
      rcases execute_becomes valid lawful wired invariant isCurrent facts.1 facts.2 stands₄ runs with
        ⟨memory₅, executes, stands₅⟩
      dsimp only
      rw [executes]
      exact ⟨memory₅, rfl, stands₅.congr rfl fun _ => Iff.rfl⟩

end Execution

/-! ## Runs -/

section Runs

variable {script : Script}

/-- The heads are empty lists before any process is allocated. -/
theorem initializeQueues_keeps {memory : Memory Queue Nat} (dead : forall process, memory.live process = false) :
    Exists fun links => Pointers.initializeQueues memory = .ok (memory.relink links) ∧
      (memory.relink links).Keeps fun _ => [] := by
  have waitqueues : forall (resources : List (Fin nrResources)) (links : Links (Cell Queue Nat)),
      Exists fun links' => resources.foldlM (fun memory r => initListHead (.head (.waitqueue r)) memory)
          (memory.relink links) = .ok (memory.relink links') ∧
        (forall queue : Queue, links.Joined (.head queue) (.head queue) -> links'.Joined (.head queue) (.head queue)) ∧
          forall r, r ∈ resources -> links'.Joined (.head (.waitqueue r)) (.head (.waitqueue r)) := by
    intro resources
    induction resources with
    | nil => exact fun links => ⟨links, rfl, fun _ empty => empty, fun _ never => absurd never List.not_mem_nil⟩
    | cons r resources inductionHypothesis =>
        intro links
        rcases initListHead_head (memory.relink links) (.waitqueue r) with ⟨links₁, began, empty, others⟩
        rcases inductionHypothesis links₁ with ⟨links₂, went, kept, emptied⟩
        refine ⟨links₂, ?_, fun queue before => kept queue (others queue before), ?_⟩
        · rw [List.foldlM_cons, began]
          exact went
        · intro other member
          rcases List.mem_cons.mp member with rfl | later
          · exact kept _ empty
          · exact emptied other later
  rcases initListHead_head memory .readyqueue with ⟨links₁, ready, isReady, _⟩
  rcases waitqueues (List.finRange nrResources) links₁ with ⟨links₂, waits, kept, areWaits⟩
  rcases initListHead_head (memory.relink links₂) .forkqueue with ⟨links₃, forks, isForks, others⟩
  refine ⟨links₃, ?_, Memory.keeps_nil ?_ dead⟩
  · unfold Pointers.initializeQueues
    rw [ready]
    dsimp only [bind, Except.bind]
    rw [waits]
    exact forks
  · intro queue
    cases queue with
    | forkqueue => exact isForks
    | readyqueue => exact others _ (kept _ isReady)
    | waitqueue r => exact others _ (areWaits r (List.mem_finRange r))

private theorem loadProcess_keeps {memory : Memory Queue Nat} {count : Nat}
    (keeps : memory.Keeps (Function.update (fun _ => []) .forkqueue (List.range count)))
    (live : forall process, memory.live process = true ↔ process < count) :
    Exists fun memory' => Pointers.loadProcess memory count = .ok memory' ∧
      memory'.Keeps (Function.update (fun _ => []) .forkqueue (List.range (count + 1))) ∧
        forall process, memory'.live process = true ↔ process < count + 1 := by
  have fresh : memory.live count = false :=
    Bool.eq_false_iff.mpr fun allocated => Nat.lt_irrefl count ((live count).mp allocated)
  rcases keeps.create fresh with ⟨links, began, created⟩
  have detached : forall queue : Queue, count ∉ (Function.update (fun _ => []) .forkqueue (List.range count) :
      Queue -> List Nat) queue := by
    intro queue member
    exact absurd (fresh.symm.trans (keeps.live queue count member)) Bool.false_ne_true
  have allocated : ((memory.allocate count).relink links).live count = true := Function.update_self ..
  rcases listAddTail_keeps created allocated detached .forkqueue with ⟨links', added, kept⟩
  refine ⟨((memory.allocate count).relink links).relink links', ?_, ?_, ?_⟩
  · unfold Pointers.loadProcess
    rw [began]
    exact added
  · rw [Function.update_self, Function.update_idem, ← List.range_succ] at kept
    exact kept
  · intro process
    by_cases same : process = count
    · subst same
      exact iff_of_true (Function.update_self ..) (Nat.lt_succ_self _)
    · have before : (memory.allocate count).live process = memory.live process := Function.update_of_ne same ..
      have now : (((memory.allocate count).relink links).relink links').live process = memory.live process := before
      rw [now, live process]
      omega

/-- Whatever the links are at first, the program starts with the list heads of the
lists. -/
theorem load_becomes (script : Script) (links : Links (Cell Queue Nat)) :
    Becomes script (Pointers.load script links) script.initial := by
  have dead : forall process, (⟨links, fun _ => false⟩ : Memory Queue Nat).live process = false := fun _ => rfl
  rcases initializeQueues_keeps dead with ⟨links', began, empty⟩
  have loads : forall count : Nat, Exists fun memory =>
      (List.range count).foldlM Pointers.loadProcess (⟨links', fun _ => false⟩ : Memory Queue Nat) = .ok memory ∧
        memory.Keeps (Function.update (fun _ => []) .forkqueue (List.range count)) ∧
          forall process, memory.live process = true ↔ process < count := by
    intro count
    induction count with
    | zero =>
        refine ⟨_, rfl, ?_, fun process => iff_of_false Bool.false_ne_true (Nat.not_lt_zero process)⟩
        rw [List.range_zero, Function.update_eq_self_iff.mpr rfl]
        exact empty
    | succ count inductionHypothesis =>
        rcases inductionHypothesis with ⟨memory, loaded, keeps, live⟩
        rcases loadProcess_keeps keeps live with ⟨memory', next, keeps', live'⟩
        refine ⟨memory', ?_, keeps', live'⟩
        rw [List.range_succ, List.foldlM_append, loaded]
        dsimp only [bind, Except.bind]
        rw [List.foldlM_cons, next]
        rfl
  rcases loads script.length with ⟨memory, loaded, keeps, live⟩
  refine ⟨memory, ?_, ?_, ?_⟩
  · unfold Pointers.load onList
    dsimp only [bind, Except.bind]
    rw [began]
    dsimp only
    have relinked : (⟨links, fun _ => false⟩ : Memory Queue Nat).relink links' = ⟨links', fun _ => false⟩ := rfl
    rw [relinked, loaded]
    rfl
  · have queue : script.initial.queue = Function.update (fun _ => []) .forkqueue (List.range script.length) := by
      funext queue
      cases queue <;> rfl
    rw [queue]
    exact keeps
  · intro process
    rw [live process]
    exact ⟨fun inside => ⟨inside, ProcessStatus.noConfusion⟩, fun alive => alive.1⟩

end Runs

/-- The simulation with list heads runs through the same rounds and prints the same
as the one with lists.  It uses no process that has been freed, comes to the end of
each of its lists, and frees a process just when it exits. -/
theorem list_heads_refine (name : SchedulerName) {script : Script} (valid : script.Valid) {fuel : Nat}
    (enough : script.length < fuel) (links : Links (Cell Queue Nat)) (rounds : Nat) :
    Exists fun start => Exists fun outputs => Exists fun state => Exists fun memory =>
      Pointers.load script links = .ok start ∧
        (simulation name.scheduler).run (List.replicate rounds ()) script.initial = .ok (outputs, state) ∧
          (Pointers.simulation fuel name).run (List.replicate rounds ()) start =
            .ok (outputs, state.pointers memory) ∧ Stands script state memory := by
  rcases load_becomes script links with ⟨begun, loaded, stands⟩
  rcases exists_simulates (fun _ between => Between.iteration valid name.lawful between) valid.initial rounds with
    ⟨_, state, ⟨outputs, ran, _⟩, _⟩
  have wired := name.wired enough
  have step : forall (input : Unit) (state : State) (heads : PointerState) (left : Bool) (next : State),
      (Between script state ∧ Exists fun memory => heads = state.pointers memory ∧ Stands script state memory) ->
      (simulation name.scheduler).step input state = .ok (left, next) ->
        Exists fun after => (Pointers.simulation fuel name).step input heads = .ok (left, after) ∧
          Between script next ∧ Exists fun memory => after = next.pointers memory ∧ Stands script next memory := by
    rintro _ state _ left next ⟨between, memory, rfl, stands⟩ stepped
    rcases between.iteration valid name.lawful with ⟨_, _, ran, kept, _⟩
    have same := ran.symm.trans stepped
    cases same
    rcases between.iteration_follows valid name.lawful wired stands enough stepped with ⟨memory', ran', stands'⟩
    exact ⟨_, ran', kept, memory', rfl, stands'⟩
  rcases (simulation name.scheduler).run_simulated (Pointers.simulation fuel name) _ rfl step
      ⟨valid.initial, begun, rfl, stands⟩ ran with ⟨_, ran', _, memory, rfl, stands'⟩
  exact ⟨_, outputs, state, memory, loaded, ran, ran', stands'⟩

theorem list_heads_refine_crossing : Exists fun start => Exists fun outputs => Exists fun state => Exists fun memory =>
    Pointers.load crossing ⟨id, id⟩ = .ok start ∧
      (simulation rrScheduler).run (List.replicate 5 ()) crossing.initial = .ok (outputs, state) ∧
        (Pointers.simulation 3 .rr).run (List.replicate 5 ()) start = .ok (outputs, state.pointers memory) ∧
          Stands crossing state memory :=
  list_heads_refine .rr crossing_valid (by decide) ⟨id, id⟩ 5

end Sched
end OsPa
