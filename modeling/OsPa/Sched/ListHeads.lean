import OsPa.LinkedLists.Queues
import OsPa.Sched.Pointers
import OsPa.Sched.Steps

namespace OsPa
namespace Sched

open Library LinkedLists

/-!
# The list heads stand for the lists

The functions with list heads do in their memory what the functions with lists do to
the lists.  A function of the first kind is compared with its counterpart from a
state and a memory that `Stands` for it.  What has to be known for that is where the
current process is: it may be added to a list only when it is in none, and nothing
may be read from a process that has exited.
-/

/-- The processes linked into a list. -/
def State.queue (state : State) : Queue -> List Nat
  | .forkqueue => state.forkqueue
  | .readyqueue => state.readyqueue
  | .waitqueue r => state.waitqueue r

/-- A state with list heads in place of the lists. -/
def State.pointers (state : State) (memory : Memory Queue Nat) : PointerState where
  process := state.process
  owner := state.owner
  memory := memory
  current := state.current
  ticks := state.ticks
  stderr := state.stderr

/-- The list heads are those of the lists, and the processes that have not exited are
allocated. -/
structure Stands (script : Script) (state : State) (memory : Memory Queue Nat) : Prop where
  keeps : memory.Keeps state.queue
  live : forall process, memory.live process = true ↔
    process < script.length ∧ (state.process process).status ≠ .exit

/-- A result with list heads is the one with lists. -/
def Follows {Answer : Type} (script : Script) (result : Except PointerFault (Answer × PointerState))
    (answer : Answer) (after : State) : Prop :=
  Exists fun memory => result = .ok (answer, after.pointers memory) ∧ Stands script after memory

/-- The same, where there is nothing to answer. -/
def Becomes (script : Script) (result : Except PointerFault PointerState) (after : State) : Prop :=
  Exists fun memory => result = .ok (after.pointers memory) ∧ Stands script after memory

/-! ## Views -/

section Views

variable {script : Script} {state after : State} {memory : Memory Queue Nat} {process : Nat}

theorem State.queue_setReadyqueue (state : State) (readyqueue : List Nat) :
    (state.setReadyqueue readyqueue).queue = Function.update state.queue .readyqueue readyqueue := by
  funext queue
  cases queue <;> rfl

theorem State.queue_setWaitqueue (state : State) (r : Fin nrResources) (waitqueue : List Nat) :
    (state.setWaitqueue r waitqueue).queue = Function.update state.queue (.waitqueue r) waitqueue := by
  funext queue
  cases queue with
  | forkqueue => rfl
  | readyqueue => rfl
  | waitqueue other =>
      have changed := congrFun (state.waitqueue_setWaitqueue r waitqueue) other
      by_cases same : other = r
      · subst same
        rw [Function.update_self] at changed ⊢
        exact changed
      · rw [Function.update_of_ne same] at changed
        rw [Function.update_of_ne (fun equal => same (Queue.waitqueue.inj equal))]
        exact changed

private theorem State.queue_setOwner (state : State) (r : Fin nrResources) (owner : Option Nat) :
    (state.setOwner r owner).queue = state.queue := by
  funext queue
  cases queue with
  | forkqueue => rfl
  | readyqueue => rfl
  | waitqueue other => exact congrFun (state.waitqueue_setOwner r owner) other

/-- The process is in no list. -/
theorem State.detached_of_queued (unlinked : state.queued process = 0) (queue : Queue) :
    process ∉ state.queue queue := by
  intro member
  cases queue with
  | forkqueue => exact absurd (State.queued_of_forking member) (by omega)
  | readyqueue => exact absurd (State.queued_of_ready member) (by omega)
  | waitqueue r => exact absurd (State.queued_of_waiting member) (by omega)

theorem Stands.live_of_mem (stands : Stands script state memory) (queue : Queue)
    (member : process ∈ state.queue queue) : memory.live process = true :=
  stands.keeps.live queue process member

theorem read_eq (live : memory.live process = true) :
    (state.pointers memory).read process = .ok (state.process process) :=
  if_pos live

theorem modify_eq (live : memory.live process = true) (change : Process -> Process) :
    (state.pointers memory).modify process change = .ok ((state.modify process change).pointers memory) :=
  if_pos live

theorem setOwner_eq (r : Fin nrResources) (owner : Option Nat) :
    (state.pointers memory).setOwner r owner = (state.setOwner r owner).pointers memory := by
  unfold State.pointers PointerState.setOwner
  rw [State.owner_setOwner]
  rfl

theorem onList_eq {change : Memory Queue Nat -> Except LinkedLists.Fault (Memory Queue Nat)}
    {memory' : Memory Queue Nat} (changed : change memory = .ok memory') :
    onList change (state.pointers memory) = .ok (state.pointers memory') := by
  unfold onList State.pointers
  dsimp only
  rw [changed]

theorem askList_eq {Answer : Type} {question : Memory Queue Nat -> Except LinkedLists.Fault Answer} {answer : Answer}
    (answered : question memory = .ok answer) : askList question (state.pointers memory) = .ok answer := by
  unfold askList State.pointers
  dsimp only
  rw [answered]

/-- The lists and who has exited are all that matters. -/
theorem Stands.congr (stands : Stands script state memory) (queue : after.queue = state.queue)
    (status : forall process, (after.process process).status = .exit ↔ (state.process process).status = .exit) :
    Stands script after memory := by
  refine ⟨queue ▸ stands.keeps, ?_⟩
  intro process
  rw [stands.live process, Ne, Ne, status process]

/-- A change of a process that does not let it exit. -/
theorem Stands.modify (stands : Stands script state memory) (live : memory.live process = true)
    {change : Process -> Process} (alive : (change (state.process process)).status ≠ .exit) :
    Stands script (state.modify process change) memory := by
  apply stands.congr
  · funext queue
    cases queue <;> rfl
  · intro other
    by_cases same : other = process
    · subst other
      rw [State.process_modify_self]
      exact iff_of_false alive ((stands.live process).mp live).2
    · rw [state.process_modify_of_ne same]

/-- What prints leaves the lists alone. -/
theorem Stands.print (stands : Stands script state memory) (event : Event) :
    Stands script (state.print event) memory := stands.congr rfl fun _ => Iff.rfl

theorem Stands.setStatus (stands : Stands script state memory) (live : memory.live process = true)
    {status : ProcessStatus} (alive : status ≠ .exit) : Stands script (state.setStatus process status) memory :=
  stands.modify live alive

theorem setStatus_eq (live : memory.live process = true) (status : ProcessStatus) :
    (state.pointers memory).setStatus process status = .ok ((state.setStatus process status).pointers memory) :=
  modify_eq live _

theorem Stands.setOwner (stands : Stands script state memory) (r : Fin nrResources) (owner : Option Nat) :
    Stands script (state.setOwner r owner) memory :=
  stands.congr (state.queue_setOwner r owner) fun _ => Iff.rfl

/-- Other links, for a state with other lists. -/
theorem Stands.relink (stands : Stands script state memory) {links : Links (Cell Queue Nat)}
    (keeps : (memory.relink links).Keeps after.queue) (process : after.process = state.process) :
    Stands script after (memory.relink links) := by
  refine ⟨keeps, ?_⟩
  intro other
  rw [process]
  exact stands.live other

end Views

/-! ## Operations on lists -/

section Operations

variable {script : Script} {state : State} {memory : Memory Queue Nat} {process : Nat}

theorem Stands.addReady (stands : Stands script state memory) (live : memory.live process = true)
    (detached : forall queue, process ∉ state.queue queue) :
    Becomes script (onList (listAddTail (.item process) (.head .readyqueue)) (state.pointers memory))
      (state.addReady process) := by
  rcases listAddTail_keeps stands.keeps live detached .readyqueue with ⟨links, added, keeps⟩
  refine ⟨_, onList_eq added, stands.relink ?_ rfl⟩
  have queue : (state.addReady process).queue = _ := state.queue_setReadyqueue (state.readyqueue ++ [process])
  rw [queue]
  exact keeps

theorem Stands.addWaiter (stands : Stands script state memory) (live : memory.live process = true)
    (detached : forall queue, process ∉ state.queue queue) (r : Fin nrResources) :
    Becomes script (onList (listAddTail (.item process) (.head (.waitqueue r))) (state.pointers memory))
      (state.setWaitqueue r (state.waitqueue r ++ [process])) := by
  rcases listAddTail_keeps stands.keeps live detached (.waitqueue r) with ⟨links, added, keeps⟩
  have owner := state.owner_setWaitqueue r (state.waitqueue r ++ [process])
  refine ⟨memory.relink links, ?_, stands.relink ?_ rfl⟩
  · rw [onList_eq added]
    unfold State.pointers
    rw [owner]
    rfl
  · rw [State.queue_setWaitqueue]
    exact keeps

theorem Stands.delReady (stands : Stands script state memory) (member : process ∈ state.readyqueue) :
    Becomes script (onList (listDelInit (.item process)) (state.pointers memory))
      (state.setReadyqueue (state.readyqueue.erase process)) := by
  have inside : process ∈ state.queue .readyqueue := member
  rcases listDelInit_keeps stands.keeps inside with ⟨links, deleted, keeps⟩
  refine ⟨_, onList_eq deleted, stands.relink ?_ rfl⟩
  rw [State.queue_setReadyqueue]
  exact keeps

theorem Stands.delWaiter (stands : Stands script state memory) {r : Fin nrResources}
    (member : process ∈ state.waitqueue r) :
    Becomes script (onList (listDelInit (.item process)) (state.pointers memory))
      (state.setWaitqueue r ((state.waitqueue r).erase process)) := by
  have inside : process ∈ state.queue (.waitqueue r) := member
  rcases listDelInit_keeps stands.keeps inside with ⟨links, deleted, keeps⟩
  have owner := state.owner_setWaitqueue r ((state.waitqueue r).erase process)
  refine ⟨memory.relink links, ?_, stands.relink ?_ rfl⟩
  · rw [onList_eq deleted]
    unfold State.pointers
    rw [owner]
    rfl
  · rw [State.queue_setWaitqueue]
    exact keeps

/-- The loop that looks for the best process of a queue finds the one that the scan
finds. -/
theorem scanQueue_eq (stands : Stands script state memory) {queue : Queue} {first : Nat} {rest : List Nat}
    (queued : state.queue queue = first :: rest) {fuel : Nat} (enough : (first :: rest).length < fuel)
    (replaces : Process -> Process -> Bool) :
    Exists fun best => Pointers.scanQueue fuel replaces queue (state.pointers memory) first = .ok best ∧
      scan (fun pos next => replaces (state.process pos) (state.process next)) (first :: rest) = some best := by
  have inside : forall item, item ∈ state.queue queue -> memory.live item = true :=
    fun _ member => stands.live_of_mem queue member
  have live : memory.live first = true := inside first (queued.symm ▸ List.mem_cons_self)
  rw [← queued] at enough
  refine ⟨_, ?_, rfl⟩
  unfold Pointers.scanQueue
  rw [askList_eq (stands.keeps.next_head queue), ← queued]
  apply listForEachEntry_foldl _ id
    (fun next pos => if replaces (state.process pos) (state.process next) then pos else next)
    (fun next => memory.live next = true) first stands.keeps queue enough _ live
  intro pos member next live
  have looked : (state.pointers memory).read pos = _ := read_eq (inside pos member)
  have best : (state.pointers memory).read next = _ := read_eq live
  constructor
  · dsimp only [id]
    rw [looked, best]
    rfl
  · split
    · exact inside pos member
    · exact live

/-- A queue has no more entries than there are processes. -/
theorem Stands.length_le (stands : Stands script state memory) (queue : Queue) :
    (state.queue queue).length ≤ script.length := by
  have inside : state.queue queue ⊆ List.range script.length := by
    intro process member
    exact List.mem_range.mpr ((stands.live process).mp (stands.live_of_mem queue member)).1
  have shorter := (List.subperm_of_subset (stands.keeps.represents.nodup queue) inside).length_le
  rwa [List.length_range] at shorter

end Operations

/-! ## Schedule -/

/-- A selection that walks along a queue picks what the one that looks at a list
does. -/
structure Walks (script : Script) (select : State -> List Nat -> Option Nat)
    (walk : Queue -> PointerState -> Nat -> Except PointerFault Nat) : Prop where
  nil : forall state, select state [] = none
  cons : forall {state : State} {memory : Memory Queue Nat} {queue : Queue} {first : Nat} {rest : List Nat},
    Stands script state memory -> state.queue queue = first :: rest ->
      Exists fun best => walk queue (state.pointers memory) first = .ok best ∧
        select state (first :: rest) = some best ∧ best ∈ first :: rest

section Schedule

variable {script : Script} {state : State} {memory : Memory Queue Nat} {fuel : Nat}
  {select : State -> List Nat -> Option Nat} {walk : Queue -> PointerState -> Nat -> Except PointerFault Nat}

theorem walks_first (script : Script) : Walks script (fun _ queue => queue.head?) fun _ _ first => .ok first := by
  refine ⟨fun _ => rfl, ?_⟩
  intro _ _ _ first _ _ _
  exact ⟨first, rfl, rfl, List.mem_cons_self⟩

theorem walks_scan (enough : script.length < fuel) (replaces : Process -> Process -> Bool) :
    Walks script (fun state => scan fun pos next => replaces (state.process pos) (state.process next))
      (Pointers.scanQueue fuel replaces) := by
  refine ⟨fun _ => rfl, ?_⟩
  intro state memory queue first rest stands queued
  have shorter := stands.length_le queue
  rw [queued] at shorter
  rcases scanQueue_eq stands queued (Nat.lt_of_le_of_lt shorter enough) replaces with ⟨best, found, scanned⟩
  exact ⟨best, found, scanned, mem_of_scan scanned⟩

theorem runnable_eq (alive : forall current, state.current = some current -> memory.live current = true) :
    Pointers.runnable (state.pointers memory) = .ok state.runnable := by
  have same : (state.pointers memory).current = state.current := rfl
  unfold Pointers.runnable State.runnable
  rw [same]
  cases isCurrent : state.current with
  | none => rfl
  | some current =>
      dsimp only
      rw [read_eq (alive current isCurrent)]
      rfl

theorem pickNext_follows (walks : Walks script select walk) (stands : Stands script state memory) :
    Follows script (Pointers.pickNext walk (state.pointers memory)) (pickNext select state).1
      (pickNext select state).2 := by
  have asked := listEmpty_head stands.keeps .readyqueue
  unfold Pointers.pickNext pickNext
  rw [askList_eq asked]
  dsimp only [bind, Except.bind]
  cases queued : state.readyqueue with
  | nil =>
      have empty : state.queue .readyqueue = [] := queued
      rw [empty, walks.nil]
      exact ⟨memory, rfl, stands⟩
  | cons first rest =>
      have waiting : state.queue .readyqueue = first :: rest := queued
      rcases walks.cons stands waiting with ⟨best, walked, selected, member⟩
      have inside : best ∈ state.readyqueue := queued ▸ member
      rcases stands.delReady inside with ⟨memory', deleted, after⟩
      have notEmpty : decide (state.queue .readyqueue = []) = false := by
        rw [waiting]
        rfl
      rw [notEmpty, selected, if_neg Bool.false_ne_true, askList_eq (listFirstEntry_eq stands.keeps waiting)]
      dsimp only
      rw [walked]
      dsimp only
      rw [deleted, ← queued]
      exact ⟨memory', rfl, after⟩

theorem nonpreemptive_follows (walks : Walks script select walk) (stands : Stands script state memory)
    (alive : forall current, state.current = some current -> memory.live current = true) :
    Follows script (Pointers.nonpreemptive walk (state.pointers memory)) (nonpreemptive select state).1
      (nonpreemptive select state).2 := by
  unfold Pointers.nonpreemptive nonpreemptive
  rw [runnable_eq alive]
  dsimp only [bind, Except.bind]
  cases state.runnable with
  | none => exact pickNext_follows walks stands
  | some current => exact ⟨memory, rfl, stands⟩

theorem requeue_becomes (stands : Stands script state memory)
    (alive : forall current, state.current = some current -> memory.live current = true)
    (detached : forall current, state.runnable = some current -> state.queued current = 0) :
    Becomes script (Pointers.requeue (state.pointers memory)) state.requeue := by
  unfold Pointers.requeue State.requeue
  rw [runnable_eq alive]
  dsimp only [bind, Except.bind]
  cases runs : state.runnable with
  | none => exact ⟨memory, rfl, stands⟩
  | some current =>
      have isCurrent := (Option.filter_eq_some_iff.mp runs).1
      exact stands.addReady (alive current isCurrent) (State.detached_of_queued (detached current runs))

theorem preemptive_follows (walks : Walks script select walk) (stands : Stands script state memory)
    (alive : forall current, state.current = some current -> memory.live current = true)
    (detached : forall current, state.runnable = some current -> state.queued current = 0) :
    Follows script (Pointers.preemptive walk (state.pointers memory)) (preemptive select state).1
      (preemptive select state).2 := by
  rcases requeue_becomes stands alive detached with ⟨memory', requeued, after⟩
  unfold Pointers.preemptive preemptive
  rw [requeued]
  exact pickNext_follows walks after

/-- Other priorities do not matter for the lists. -/
theorem Stands.reprioritized (stands : Stands script state memory) (prio : Nat -> Nat) :
    Stands script (state.reprioritized prio) memory := by
  apply stands.congr
  · funext queue
    cases queue <;> rfl
  · exact fun _ => Iff.rfl

private theorem Stands.setPrio (stands : Stands script state memory) (process prio : Nat) :
    Stands script (state.setPrio process prio) memory := by
  rw [State.setPrio_eq]
  exact stands.reprioritized _

/-- The loop of `pa_schedule` promotes what the fold promotes. -/
theorem paLoop_eq (stands : Stands script state memory) {first : Nat} {rest : List Nat}
    (queued : state.readyqueue = first :: rest) (enough : (first :: rest).length < fuel) :
    Pointers.paLoop fuel (state.pointers memory) first =
      .ok (((first :: rest).foldl paRound (first, state)).1,
        ((first :: rest).foldl paRound (first, state)).2.pointers memory) := by
  have isQueue : state.queue .readyqueue = first :: rest := queued
  have inside : forall item, item ∈ state.queue .readyqueue -> memory.live item = true :=
    fun _ member => stands.live_of_mem .readyqueue member
  have live : memory.live first = true := inside first (isQueue.symm ▸ List.mem_cons_self)
  rw [← isQueue] at enough
  unfold Pointers.paLoop
  rw [askList_eq (stands.keeps.next_head .readyqueue), ← isQueue]
  apply listForEachEntry_foldl _ (fun walked : Nat × State => (walked.1, walked.2.pointers memory)) paRound
    (fun walked => memory.live walked.1 = true) (first, state) stands.keeps .readyqueue enough _ live
  rintro pos member ⟨next, passed⟩ live
  have best : (passed.pointers memory).read next = _ := read_eq live
  have looked : (passed.pointers memory).read pos = _ := read_eq (inside pos member)
  have promoted : forall prio, (passed.pointers memory).setPrio pos prio =
    .ok ((passed.setPrio pos prio).pointers memory) := fun prio => modify_eq (inside pos member) _
  constructor
  · dsimp only
    rw [best, looked]
    dsimp only [bind, Except.bind]
    rw [promoted]
    rfl
  · unfold paRound
    dsimp only
    split
    · exact inside pos member
    · exact live

theorem paSchedule_follows (stands : Stands script state memory) (enough : script.length < fuel)
    (alive : forall current, state.current = some current -> memory.live current = true)
    (detached : forall current, state.runnable = some current -> state.queued current = 0) :
    Follows script (Pointers.paSchedule fuel (state.pointers memory)) (paSchedule state).1 (paSchedule state).2 := by
  rcases requeue_becomes stands alive detached with ⟨memory', requeued, after⟩
  have asked := listEmpty_head after.keeps .readyqueue
  unfold Pointers.paSchedule paSchedule
  rw [requeued]
  dsimp only [bind, Except.bind]
  rw [askList_eq asked]
  dsimp only
  cases queued : state.requeue.readyqueue with
  | nil =>
      have empty : state.requeue.queue .readyqueue = [] := queued
      rw [empty]
      exact ⟨memory', rfl, after⟩
  | cons first rest =>
      have isQueue : state.requeue.queue .readyqueue = first :: rest := queued
      have shorter := after.length_le .readyqueue
      rw [isQueue] at shorter
      have notEmpty : decide (state.requeue.queue .readyqueue = []) = false := by
        rw [isQueue]
        rfl
      rw [notEmpty, if_neg Bool.false_ne_true, askList_eq (listFirstEntry_eq after.keeps isQueue)]
      dsimp only
      rw [paLoop_eq after queued (Nat.lt_of_le_of_lt shorter enough)]
      dsimp only
      rcases paRound_foldl (first :: rest) (first, state.requeue) with ⟨chosen, prio, promoted⟩
      have member : ((first :: rest).foldl paRound (first, state.requeue)).1 ∈ first :: rest := by
        rcases List.mem_cons.mp chosen with same | later
        · rw [same]
          exact List.mem_cons_self
        · exact later
      generalize (first :: rest).foldl paRound (first, state.requeue) = walked at member promoted ⊢
      rcases walked with ⟨next, walked⟩
      dsimp only at member promoted ⊢
      subst promoted
      have live := after.live_of_mem .readyqueue (isQueue ▸ member)
      have looked : ((state.requeue.reprioritized prio).pointers memory').read next = _ := read_eq live
      rw [looked]
      dsimp only
      have restored : ((state.requeue.reprioritized prio).pointers memory').setPrio next
          ((state.requeue.reprioritized prio).process next).prioOrig = _ := modify_eq live _
      rw [restored]
      dsimp only
      have stands' := (after.reprioritized prio).setPrio next
        ((state.requeue.reprioritized prio).process next).prioOrig
      have inside : next ∈ ((state.requeue.reprioritized prio).setPrio next
          ((state.requeue.reprioritized prio).process next).prioOrig).readyqueue := queued.symm ▸ member
      rcases stands'.delReady inside with ⟨memory'', deleted, final⟩
      have same : (state.requeue.reprioritized prio).modify next (fun record =>
        { record with prio := ((state.requeue.reprioritized prio).process next).prioOrig }) =
          (state.requeue.reprioritized prio).setPrio next
            ((state.requeue.reprioritized prio).process next).prioOrig := rfl
      rw [same, deleted]
      exact ⟨memory'', rfl, final⟩

end Schedule
end Sched
end OsPa
