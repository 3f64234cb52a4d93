import OsPa.Sched.Policy

namespace OsPa
namespace Sched

open Library

/-!
# The loop of the aging scheduler

`pa_schedule` promotes processes while it looks for the best one.  The candidate
in hand has been promoted and the process it is compared with has not, so that a
process of the same priority does not replace it.  As long as no priority wraps,
the loop ends with the first process of largest priority, and everybody in the
queue has been promoted once.
-/

/-- The priorities after those of the processes in the queue have gone up. -/
def boosted (queue : List Nat) (prio : Nat -> Nat) (process : Nat) : Nat :=
  if process ∈ queue then prio process + 1 else prio process

theorem boosted_append (queue : List Nat) (prio : Nat -> Nat) (last : Nat) :
    boosted (queue ++ [last]) prio = Function.update (boosted queue prio) last (prio last + 1) := by
  funext process
  by_cases same : process = last
  · subst process
    rw [Function.update_self]
    exact if_pos (List.mem_append_right _ List.mem_cons_self)
  · rw [Function.update_of_ne same]
    unfold boosted
    by_cases member : process ∈ queue
    · rw [if_pos member, if_pos (List.mem_append_left _ member)]
    · rw [if_neg member, if_neg]
      intro appended
      rcases List.mem_append.mp appended with earlier | final
      · exact member earlier
      · exact same (List.mem_singleton.mp final)

/-- One round of the loop, with a candidate that is the first of largest priority
in the part of the queue that has been walked through. -/
private theorem paRound_boosted (state : State) {prio : Nat -> Nat} {walked : List Nat} {next pos : Nat}
    (earliest : EarliestMax prio walked next) (new : pos ∉ walked) (room : prio pos + 1 < Word.size) :
    Exists fun best => EarliestMax prio (walked ++ [pos]) best ∧
      paRound (next, state.reprioritized (boosted walked prio)) pos =
        (best, state.reprioritized (boosted (walked ++ [pos]) prio)) := by
  have candidate : boosted walked prio next = prio next + 1 := if_pos earliest.mem
  have compared : boosted walked prio pos = prio pos := if_neg new
  have promoted : (state.reprioritized (boosted walked prio)).setPrio pos (Word.succ (prio pos)) =
      state.reprioritized (boosted (walked ++ [pos]) prio) := by
    rw [State.setPrio_eq, boosted_append walked prio pos, Word.succ, Nat.mod_eq_of_lt room]
    rfl
  have round : paRound (next, state.reprioritized (boosted walked prio)) pos =
      (if boosted walked prio next ≤ boosted walked prio pos then pos else next,
        (state.reprioritized (boosted walked prio)).setPrio pos (Word.succ (boosted walked prio pos))) := rfl
  rw [candidate, compared, promoted] at round
  rw [round]
  by_cases better : prio next < prio pos
  · rw [if_pos (Nat.succ_le_of_lt better)]
    exact ⟨pos, earliest.append_of_lt better, rfl⟩
  · rw [if_neg fun notLess => better (Nat.lt_of_succ_le notLess)]
    exact ⟨next, earliest.append_of_le (Nat.le_of_not_lt better), rfl⟩

private theorem paRound_foldl_boosted (state : State) {prio : Nat -> Nat} (rest : List Nat) {walked : List Nat}
    {next : Nat} (earliest : EarliestMax prio walked next) (nodup : (walked ++ rest).Nodup)
    (room : forall process, process ∈ rest -> prio process + 1 < Word.size) :
    Exists fun best => EarliestMax prio (walked ++ rest) best ∧
      rest.foldl paRound (next, state.reprioritized (boosted walked prio)) =
        (best, state.reprioritized (boosted (walked ++ rest) prio)) := by
  induction rest generalizing walked next with
  | nil =>
      rw [List.append_nil]
      exact ⟨next, earliest, rfl⟩
  | cons pos rest inductionHypothesis =>
      have new : pos ∉ walked := fun member =>
        (List.nodup_append.mp nodup).2.2 pos member pos List.mem_cons_self rfl
      rcases paRound_boosted state earliest new (room pos List.mem_cons_self) with ⟨best, better, round⟩
      rw [List.append_cons] at nodup ⊢
      rw [List.foldl_cons, round]
      exact inductionHypothesis better nodup fun process member => room process (List.mem_cons_of_mem _ member)

/-- The loop begins with a candidate that it compares with itself. -/
theorem paRound_first (state : State) (prio : Nat -> Nat) {first : Nat} (room : prio first + 1 < Word.size) :
    paRound (first, state.reprioritized prio) first = (first, state.reprioritized (boosted [first] prio)) := by
  have promoted : (state.reprioritized prio).setPrio first (Word.succ (prio first)) =
      state.reprioritized (boosted [first] prio) := by
    have none : boosted [] prio = prio := funext fun process => if_neg List.not_mem_nil
    rw [State.setPrio_eq, ← List.nil_append [first], boosted_append [] prio first, none, Word.succ,
      Nat.mod_eq_of_lt room]
    rfl
  have round : paRound (first, state.reprioritized prio) first =
      (if prio first ≤ prio first then first else first,
        (state.reprioritized prio).setPrio first (Word.succ (prio first))) := rfl
  rw [round, promoted, if_pos (Nat.le_refl _)]

theorem State.requeue_reprioritized (state : State) (prio : Nat -> Nat) :
    (state.reprioritized prio).requeue = state.requeue.reprioritized prio := by
  rw [State.requeue_eq, State.requeue_eq]
  rfl

/-- The aging scheduler takes the first process of largest priority.  It gets its
original priority back, and all others that wait go up by one. -/
theorem paSchedule_eq (state : State) {prio : Nat -> Nat} {first : Nat} {rest : List Nat}
    (queue : state.requeue.readyqueue = first :: rest) (nodup : (first :: rest).Nodup)
    (room : forall process, process ∈ first :: rest -> prio process + 1 < Word.size) :
    Exists fun best => EarliestMax prio (first :: rest) best ∧
      paSchedule (state.reprioritized prio) = (some best,
        ({ state.requeue with readyqueue := (first :: rest).erase best } : State).reprioritized
          (Function.update (boosted (first :: rest) prio) best (state.process best).prioOrig)) := by
  rcases paRound_foldl_boosted state.requeue rest (EarliestMax.singleton prio first) nodup
      fun process member => room process (List.mem_cons_of_mem _ member) with ⟨best, earliest, walked⟩
  refine ⟨best, earliest, ?_⟩
  have queue' : (state.requeue.reprioritized prio).readyqueue = first :: rest := queue
  unfold paSchedule
  rw [State.requeue_reprioritized]
  dsimp only
  rw [queue']
  dsimp only
  rw [List.foldl_cons, paRound_first state.requeue prio (room first List.mem_cons_self), walked]
  dsimp only
  rw [State.setPrio_eq]
  have original : (state.requeue.process best).prioOrig = (state.process best).prioOrig := by
    rw [State.requeue_process]
  have whole : [first] ++ rest = state.requeue.readyqueue := queue.symm
  rw [← original, ← queue, whole]
  rfl

/-- With nobody in the queue there is nothing to do. -/
theorem paSchedule_idle {state : State} (queue : state.requeue.readyqueue = []) :
    paSchedule state = (none, state.requeue) := by
  unfold paSchedule
  dsimp only
  rw [queue]

/-- The same for the priorities as they are. -/
theorem paSchedule_promotes {state : State} (occupied : state.requeue.readyqueue ≠ [])
    (nodup : state.requeue.readyqueue.Nodup)
    (room : forall process, process ∈ state.requeue.readyqueue -> (state.process process).prio + 1 < Word.size) :
    Exists fun best => EarliestMax (fun process => (state.process process).prio) state.requeue.readyqueue best ∧
      paSchedule state = (some best,
        ({ state.requeue with readyqueue := state.requeue.readyqueue.erase best } : State).reprioritized
          (Function.update (boosted state.requeue.readyqueue fun process => (state.process process).prio) best
            (state.process best).prioOrig)) := by
  cases queue : state.requeue.readyqueue with
  | nil => exact absurd queue occupied
  | cons first rest =>
      rw [queue] at nodup room
      rcases paSchedule_eq state queue nodup room with ⟨best, earliest, ran⟩
      rw [← state.reprioritized_self] at ran
      exact ⟨best, earliest, ran⟩

/-! ## The choice and the promotions -/

/-- What a moment of scheduling has to do: choose as `prio_schedule` does, by the
priorities there were before, give the chosen process its original priority, and
promote the others in the queue. -/
structure Promoted (before : State) (next : Option Nat) (after : State) : Prop where
  chosen : next = (prioSchedule before).1
  earliest : forall process, next = some process ->
    EarliestMax (fun other => (before.process other).prio) before.requeue.readyqueue process
  reset : forall process, next = some process -> (after.process process).prio = (after.process process).prioOrig
  promoted : forall process, process ∈ before.requeue.readyqueue -> next ≠ some process ->
    (after.process process).prio = (before.process process).prio + 1
  order : forall process, next = some process -> after.readyqueue = before.requeue.readyqueue.erase process
  others : Exists fun prio => after = (prioSchedule before).2.reprioritized prio ∧
    forall process, process ∉ before.requeue.readyqueue -> prio process = (before.process process).prio

/-- `prio_schedule` takes the first process of largest priority. -/
private theorem prioSchedule_eq (state : State) {best : Nat}
    (earliest : EarliestMax (fun process => (state.process process).prio) state.requeue.readyqueue best) :
    prioSchedule state = (some best,
      { state.requeue with readyqueue := state.requeue.readyqueue.erase best }) := by
  unfold prioSchedule preemptive pickNext
  cases found : highestPrio state.requeue state.requeue.readyqueue with
  | none => exact absurd earliest.mem (by rw [scan_eq_none.mp found]; exact List.not_mem_nil)
  | some next =>
      have scanned := scan_earliestMax (fun process => (state.requeue.process process).prio)
        (fun _ _ => decide_eq_true_iff) found
      rw [State.requeue_process] at scanned
      rw [scanned.unique earliest]

private theorem prioSchedule_idle {state : State} (queue : state.requeue.readyqueue = []) :
    prioSchedule state = (none, state.requeue) := by
  unfold prioSchedule preemptive pickNext
  rw [queue]
  rfl

/-- The scheduler with aging chooses as the one without does, and promotes those
that it does not choose.  The ready queue is a linked list, in which nobody has two
places, and the current process is in none. -/
theorem pa_schedule_as_prio {state : State} (nodup : state.readyqueue.Nodup)
    (detached : forall current, state.runnable = some current -> current ∉ state.readyqueue)
    (room : forall process, process ∈ state.requeue.readyqueue -> (state.process process).prio < Word.size - 1) :
    Promoted state (paSchedule state).1 (paSchedule state).2 := by
  have once : state.requeue.readyqueue.Nodup := by
    rw [State.requeue_readyqueue]
    cases runnable : state.runnable with
    | none =>
        rw [Option.toList, List.append_nil]
        exact nodup
    | some current =>
        refine List.nodup_append.mpr ⟨nodup, List.pairwise_singleton _ _, fun process ready other same => ?_⟩
        rw [List.mem_singleton.mp same]
        exact fun equal => detached current runnable (equal ▸ ready)
  by_cases queue : state.requeue.readyqueue = []
  · rw [paSchedule_idle queue]
    constructor
    case chosen => rw [prioSchedule_idle queue]
    case earliest => exact nofun
    case reset => exact nofun
    case promoted =>
      intro process member
      rw [queue] at member
      cases member
    case order => exact nofun
    case others =>
      rw [prioSchedule_idle queue]
      exact ⟨_, State.reprioritized_self _, fun process _ => by rw [State.requeue_process]⟩
  · have noWrap : forall process, process ∈ state.requeue.readyqueue ->
        (state.process process).prio + 1 < Word.size := by
      intro process member
      exact Nat.add_lt_of_lt_sub (room process member)
    rcases paSchedule_promotes queue once noWrap with ⟨best, earliest, ran⟩
    have reference := prioSchedule_eq state earliest
    rw [ran]
    constructor
    case chosen => rw [reference]
    case earliest =>
      rintro process ⟨⟩
      exact earliest
    case reset =>
      rintro process ⟨⟩
      simp only [State.reprioritized, Function.update_self, State.requeue_process]
    case promoted =>
      intro process member other
      have different : process ≠ best := fun same => other (congrArg some same.symm)
      simp only [State.reprioritized, Function.update_of_ne different, boosted, if_pos member]
    case order =>
      rintro process ⟨⟩
      rfl
    case others =>
      rw [reference]
      refine ⟨_, rfl, fun process absent => ?_⟩
      have different : process ≠ best := fun same => absent (same ▸ earliest.mem)
      rw [Function.update_of_ne different, boosted, if_neg absent]

/-- Processes 0 and 1 with the same priority are in the queue, and process 2 with a
smaller one. -/
theorem pa_schedule_as_prio_three : Exists fun state : State => state.readyqueue = [0, 1, 2] ∧
    (paSchedule state).1 = some 0 ∧ Promoted state (paSchedule state).1 (paSchedule state).2 := by
  let script : Script := [⟨0, 2, 5, 0, []⟩, ⟨1, 2, 5, 0, []⟩, ⟨2, 2, 3, 0, []⟩]
  let state : State := { script.initial with forkqueue := [], readyqueue := [0, 1, 2] }
  have below : forall process, process ∈ state.requeue.readyqueue -> (state.process process).prio < Word.size - 1 := by
    decide
  exact ⟨state, rfl, rfl, pa_schedule_as_prio (by decide) (fun _ never => by cases never) below⟩

end Sched
end OsPa
