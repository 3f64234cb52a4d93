import OsPa.Sched.Aging
import OsPa.Sched.Fairness

namespace OsPa
namespace Sched

open Library

/-!
# The ceiling of the boosts

`pa_schedule` adds one to the priority of everybody who waits and does not look
whether it is `MAX_PRIO` already.  Whoever is chosen gets the original priority
back.  A priority therefore grows past `MAX_PRIO` in the moment in which two
processes that have it are in the queue, and not before.
-/

/-- At most one process in the queue that is scheduled from has the largest
priority. -/
def State.OneAtMax (state : State) : Prop :=
  forall left right, left ∈ state.requeue.readyqueue -> right ∈ state.requeue.readyqueue ->
    (state.process left).prio = maxPrio -> (state.process right).prio = maxPrio -> left = right

/-- No priority is larger than `MAX_PRIO`. -/
def State.Capped (state : State) : Prop := forall process, (state.process process).prio ≤ maxPrio

theorem Tied.requeue_nodup {state : State} (tied : Tied (.forking [], state)) : state.requeue.readyqueue.Nodup := by
  rw [State.requeue_readyqueue]
  exact tied.line_nodup

/-- One moment of scheduling. -/
private theorem schedule_capped_iff {state : State} (capped : state.Capped)
    (original : forall process, (state.process process).prioOrig ≤ maxPrio)
    (nodup : state.requeue.readyqueue.Nodup) : (paSchedule state).2.Capped ↔ state.OneAtMax := by
  by_cases queue : state.requeue.readyqueue = []
  · rw [paSchedule_idle queue]
    refine iff_of_true ?_ ?_
    · unfold State.Capped
      rw [State.requeue_process]
      exact capped
    · intro left right leftMember
      rw [queue] at leftMember
      cases leftMember
  · have room : forall process, process ∈ state.requeue.readyqueue ->
        (state.process process).prio + 1 < Word.size := by
      intro process _
      exact Nat.lt_of_le_of_lt (Nat.succ_le_succ (capped process)) (by decide)
    rcases paSchedule_promotes queue nodup room with ⟨best, earliest, ran⟩
    have others : forall process, process ∈ state.requeue.readyqueue -> process ≠ best ->
        ((paSchedule state).2.process process).prio = (state.process process).prio + 1 := by
      intro process member different
      rw [ran]
      simp only [State.reprioritized, Function.update_of_ne different, boosted, if_pos member]
    constructor
    · intro after_
      -- Whoever has the largest priority and is not chosen grows past it.
      have chosen : forall process, process ∈ state.requeue.readyqueue -> (state.process process).prio = maxPrio ->
          process = best := by
        intro process member largest
        by_contra different
        have grown := others process member different
        have bounded := after_ process
        omega
      intro left right leftMember rightMember leftMax rightMax
      exact (chosen left leftMember leftMax).trans (chosen right rightMember rightMax).symm
    · intro one process
      by_cases same : process = best
      · subst process
        rw [ran]
        simp only [State.reprioritized, Function.update_self]
        exact original best
      · by_cases member : process ∈ state.requeue.readyqueue
        · have notMax : (state.process process).prio ≠ maxPrio := by
            intro largest
            have exceeded : (state.process process).prio ≤ (state.process best).prio := earliest.le process member
            have bestMax := Nat.le_antisymm (capped best) (largest ▸ exceeded)
            exact same (one process best member earliest.mem largest bestMax)
          rw [others process member same]
          exact Nat.lt_of_le_of_ne (capped process) notMax
        · rw [ran]
          simp only [State.reprioritized, Function.update_of_ne same, boosted, if_neg member]
          exact capped process

section Runs

variable {script : Script} {before after : Configuration}

theorem paScheduler_acquire {field : Process -> Nat} (standing : Standing field) {resourceId : Nat}
    {state after : State} {granted : Bool} (asked : paScheduler.acquire resourceId state = .ok (granted, after))
    (process : Nat) : field (after.process process) = field (state.process process) :=
  fcfsAcquire_field standing (asked : fcfsAcquire resourceId state = .ok (granted, after)) process

theorem paScheduler_release {field : Process -> Nat} (standing : Standing field) {resourceId : Nat}
    {state after : State} (asked : paScheduler.release resourceId state = .ok after) (process : Nat) :
    field (after.process process) = field (state.process process) := by
  have released : prioRelease resourceId state = .ok after := asked
  exact releaseWith_field standing released process

/-- The original priorities are those of the script. -/
theorem Reaches.prioOrig {reached : Configuration} (reaches : Reaches paScheduler script reached) (process : Nat) :
    (reached.2.process process).prioOrig = (script.description process).prio := by
  induction reaches with
  | refl => rfl
  | @tail before after _ step inductionHypothesis =>
      by_cases scheduling : Exists fun state => before = (.forking [], state)
      · rcases scheduling with ⟨state, rfl⟩
        have asked := step.field_scheduled Process.prioOrig_standing process
        rcases (SchedulerName.pa.lawful.schedule state).others with ⟨prio, scheduled⟩
        have answer : ((SchedulerName.pa.scheduler.schedule state).2.process process).prioOrig =
            (state.process process).prioOrig := by
          rw [scheduled]
          rfl
        exact asked.trans (answer.trans inductionHypothesis)
      · have kept := step.field_kept Process.prioOrig_standing (paScheduler_acquire Process.prioOrig_standing)
          (paScheduler_release Process.prioOrig_standing) (fun state same => scheduling ⟨state, same⟩) process
        exact kept.trans inductionHypothesis

theorem Script.description_prio (prios : forall description, description ∈ script -> description.prio ≤ maxPrio)
    (process : Nat) : (script.description process).prio ≤ maxPrio := by
  by_cases inside : process < script.length
  · exact prios _ (Script.description_mem inside)
  · rw [Script.description_absent inside]
    exact Nat.zero_le _

end Runs

/-- With priorities up to `MAX_PRIO` in the script, no process ever has a larger one
just if, whenever a process is chosen, at most one in the queue has `MAX_PRIO`. -/
theorem aging_capped_iff {script : Script}
    (prios : forall description, description ∈ script -> description.prio ≤ maxPrio) :
    (forall reached, Reaches paScheduler script reached ->
      forall process, (reached.2.process process).prio ≤ maxPrio) ↔
    forall state next, Reaches paScheduler script (.forking [], state) -> Step paScheduler (.forking [], state) next ->
      state.OneAtMax := by
  have scheduled : forall {state next}, Reaches paScheduler script (.forking [], state) ->
      Step paScheduler (.forking [], state) next -> state.Capped -> (next.2.Capped ↔ state.OneAtMax) := by
    intro state next reaches step capped
    have tied := reaches.tied SchedulerName.pa.lawful SchedulerName.pa.guarded
    rw [← schedule_capped_iff capped (fun process => reaches.prioOrig process ▸ Script.description_prio prios process)
      tied.requeue_nodup]
    exact forall_congr' fun process => by rw [step.field_scheduled Process.prio_standing process]; rfl
  constructor
  · intro always state next reaches step
    exact (scheduled reaches step (always _ reaches)).mp (always next (reaches.tail step))
  · intro one reached reaches
    induction reaches with
    | refl => exact Script.description_prio prios
    | @tail before after reaches step inductionHypothesis =>
        by_cases scheduling : Exists fun state => before = (.forking [], state)
        · rcases scheduling with ⟨state, rfl⟩
          exact (scheduled reaches step inductionHypothesis).mpr (one state after reaches step)
        · intro process
          rw [step.field_kept Process.prio_standing (paScheduler_acquire Process.prio_standing)
            (paScheduler_release Process.prio_standing) (fun state same => scheduling ⟨state, same⟩) process]
          exact inductionHypothesis process

/-- Only processes of the script are scheduled. -/
theorem Sound.requeue_lt {script : Script} {state : State} {process : Nat} (sound : Sound script (.forking [], state))
    (tied : Tied (.forking [], state)) (member : process ∈ state.requeue.readyqueue) : process < script.length := by
  cases sound with
  | forking between nodup members passed =>
      cases tied with
      | forking linked attending nodup' members' =>
          rw [State.requeue_readyqueue] at member
          rcases List.mem_append.mp member with ready | runs
          · exact between.invariant.placed.lt_length (State.queued_of_ready ready)
          · have counted := attending.count_runnable linked process
            have once := List.count_pos_iff.mpr runs
            have running : state.running = some process := by
              by_contra other
              rw [if_neg other] at counted
              omega
            have placed := between.invariant.placed
            rw [running] at placed
            exact placed.of_detached.1

/-- Two processes of the largest priority. -/
def pressing : Script := [⟨0, 2, 64, 0, []⟩, ⟨1, 2, 64, 0, []⟩]

/-- In the first round process 0 is chosen, and process 1 is promoted. -/
theorem aging_exceeds_ceiling : (forall description, description ∈ pressing -> description.prio ≤ maxPrio) ∧
    Exists fun reached => Reaches paScheduler pressing reached ∧ (reached.2.process 1).prio = 65 := by
  have simulates : Exists fun state => Simulates paScheduler pressing 1 false state ∧
      (state.process 1).prio = 65 := ⟨_, ⟨_, rfl, rfl⟩, rfl⟩
  rcases simulates with ⟨state, simulates, exceeded⟩
  exact ⟨by decide, _, simulates.reaches, exceeded⟩

/-- A process of the largest priority, and one that grows old next to it. -/
def unequal : Script := [⟨1, 1, 64, 0, []⟩, ⟨2, 1, 10, 0, []⟩]

private theorem State.OneAtMax.of_first {state : State} (first : state.requeue.readyqueue.all fun process =>
    (state.process process).prio != maxPrio || process == 0) : state.OneAtMax := by
  have zero : forall process, process ∈ state.requeue.readyqueue -> (state.process process).prio = maxPrio ->
      process = 0 := by
    intro process member largest
    have tested := List.all_eq_true.mp first process member
    rw [largest] at tested
    simpa using tested
  intro left right leftMember rightMember leftMax rightMax
  exact (zero left leftMember leftMax).trans (zero right rightMember rightMax).symm

/-- The run has three moments of scheduling. -/
private theorem unequal_oneAtMax {state : State} (reaches : Reaches paScheduler unequal (.forking [], state)) :
    state.OneAtMax := by
  unfold Reaches at reaches
  rcases Step.onward reaches (.begin _) with same | reaches
  · cases same
  rcases Step.onward reaches (.visit _ _ _) with same | reaches
  · cases same
  rcases Step.onward reaches (.visit _ _ _) with same | reaches
  · cases same
  rcases Step.onward reaches (.choose rfl rfl (by decide)) with same | reaches
  · cases same
    exact State.OneAtMax.of_first (by decide)
  rcases Step.onward reaches (.grow _ _ _) with same | reaches
  · cases same
  rcases Step.onward reaches (.finish _ _ _) with same | reaches
  · cases same
  rcases Step.onward reaches (.begin _) with same | reaches
  · cases same
  rcases Step.onward reaches (.choose rfl rfl (by decide)) with same | reaches
  · cases same
    exact State.OneAtMax.of_first (by decide)
  rcases Step.onward reaches (.grow _ _ _) with same | reaches
  · cases same
  rcases Step.onward reaches (.finish _ _ _) with same | reaches
  · cases same
  rcases Step.onward reaches (.begin _) with same | reaches
  · cases same
  rcases Step.onward reaches (.leave rfl rfl (by decide)) with same | reaches
  · cases same
    exact State.OneAtMax.of_first (by decide)
  rcases reaches.cases_head with same | ⟨_, step, _⟩
  · cases same
  · cases step

/-- In the first round process 0 is chosen out of the two, and process 1 is promoted. -/
theorem aging_capped_iff_unequal : Exists fun state => Simulates paScheduler unequal 1 false state ∧
    state.current = some 0 ∧ (state.process 1).prio = 11 ∧
    forall process, (state.process process).prio ≤ maxPrio := by
  have simulates : Exists fun state => Simulates paScheduler unequal 1 false state ∧
      state.current = some 0 ∧ (state.process 1).prio = 11 := ⟨_, ⟨_, rfl, rfl⟩, rfl, rfl⟩
  rcases simulates with ⟨state, simulates, chosen, promoted⟩
  exact ⟨state, simulates, chosen, promoted,
    (aging_capped_iff (by decide)).mpr (fun _ _ reaches _ => unequal_oneAtMax reaches) _ simulates.reaches⟩

end Sched
end OsPa
