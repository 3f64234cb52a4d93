import OsPa.Library.Spread

/-!
# Jobs served one unit at a time

Jobs are released at given times and take given amounts of work.  At each time a
server does a unit of the work of one job that is available, and is idle only if
there is none.  Two servers may choose differently.  What they have left to do
together is the same at all times, so that they are idle together.  A server
that always chooses a job with the least left to do has finished at least as many
jobs as any other one.
-/

namespace OsPa
namespace Library

universe u

/-- Jobs with the times at which they are released and the work they take. -/
structure Workload (Job : Type u) where
  jobs : Finset Job
  release : Job -> Nat
  length : Job -> Nat

namespace Workload

variable {Job : Type u} (load : Workload Job)

/-- What is left of a job that has been released.  `age` is the work done. -/
def left (time : Nat) (age : Job -> Nat) (job : Job) : Nat :=
  if load.release job ≤ time then load.length job - age job else 0

/-- No job has been served before its time, or for too long. -/
structure Within (time : Nat) (age : Job -> Nat) : Prop where
  early : forall job, job ∈ load.jobs -> time ≤ load.release job -> age job = 0
  bounded : forall job, job ∈ load.jobs -> age job ≤ load.length job

variable {load} {time : Nat} {age age' other other' : Job -> Nat} {chosen chosen' : Option Job}

theorem released (job : Job) (works : 1 ≤ load.left time age job) :
    load.release job ≤ time ∧ age job < load.length job := by
  unfold left at works
  split at works <;> omega

/-- The jobs that are released next. -/
def arriving (load : Workload Job) (time : Nat) (job : Job) : Nat :=
  if load.release job = time + 1 then load.length job else 0

/-- As time goes on new jobs are released. -/
theorem Within.left_succ (within : load.Within (time + 1) age) {job : Job} (isJob : job ∈ load.jobs) :
    load.left (time + 1) age job = load.left time age job + load.arriving time job := by
  unfold left arriving
  rcases Nat.lt_trichotomy (load.release job) (time + 1) with before | now | after
  · rw [if_pos (Nat.le_of_lt before), if_pos (Nat.le_of_lt_succ before), if_neg (Nat.ne_of_lt before)]
    rfl
  · have none := within.early job isJob (Nat.le_of_eq now.symm)
    rw [if_pos (Nat.le_of_eq now), if_neg (by omega), if_pos now, none]
    omega
  · rw [if_neg (by omega), if_neg (by omega), if_neg (by omega)]

private theorem Within.sum_left_succ (within : load.Within (time + 1) age) :
    ∑ job ∈ load.jobs, load.left (time + 1) age job =
      ∑ job ∈ load.jobs, load.left time age job + ∑ job ∈ load.jobs, load.arriving time job := by
  rw [← Finset.sum_add_distrib]
  exact Finset.sum_congr rfl fun job isJob => within.left_succ isJob

variable (load) [DecidableEq Job]

/-- A server that is not idle without need. -/
inductive Serves (time : Nat) (age : Job -> Nat) : Option Job -> (Job -> Nat) -> Prop
  | idle (nothing : forall job, job ∈ load.jobs -> load.left time age job = 0) : Serves time age none age
  | serve (job : Job) (isJob : job ∈ load.jobs) (works : 1 ≤ load.left time age job) :
      Serves time age (some job) (Function.update age job (age job + 1))

variable {load}

/-- A job that is served has a unit less left to do. -/
theorem left_serve (job : Job) (works : 1 ≤ load.left time age job) :
    load.left time (Function.update age job (age job + 1)) =
      Function.update (load.left time age) job (load.left time age job - 1) := by
  have available := released job works
  funext another
  by_cases same : another = job
  · subst another
    rw [Function.update_self]
    unfold left
    rw [if_pos available.1, if_pos available.1, Function.update_self, Nat.sub_sub]
  · rw [Function.update_of_ne same]
    unfold left
    rw [Function.update_of_ne same]

theorem Serves.within (serves : load.Serves time age chosen age') (within : load.Within time age) :
    load.Within (time + 1) age' := by
  cases serves with
  | idle nothing =>
      constructor
      case early => exact fun job isJob early => within.early job isJob (Nat.le_of_succ_le early)
      case bounded => exact within.bounded
  | serve job isJob works =>
      have available := released job works
      constructor
      case early =>
        intro another isAnother early
        have different : another ≠ job := by
          rintro rfl
          omega
        rw [Function.update_of_ne different]
        exact within.early another isAnother (Nat.le_of_succ_le early)
      case bounded =>
        intro another isAnother
        by_cases same : another = job
        · subst another
          rw [Function.update_self]
          exact available.2
        · rw [Function.update_of_ne same]
          exact within.bounded another isAnother

/-- The server is idle exactly if there is nothing left to do. -/
theorem Serves.idle_iff (serves : load.Serves time age chosen age') :
    chosen = none ↔ ∑ job ∈ load.jobs, load.left time age job = 0 := by
  rw [Finset.sum_eq_zero_iff]
  cases serves with
  | idle nothing => exact iff_of_true rfl nothing
  | serve job isJob works =>
      apply iff_of_false (Option.some_ne_none job)
      intro nothing
      have none := nothing job isJob
      omega

/-- Who is served has a unit more done. -/
theorem Serves.aged (serves : load.Serves time age chosen age') (job : Job) :
    age' job = age job + if chosen = some job then 1 else 0 := by
  cases serves with
  | idle nothing => rfl
  | serve served isJob works =>
      by_cases same : job = served
      · subst served
        rw [Function.update_self, if_pos rfl]
      · rw [Function.update_of_ne same, if_neg fun isServed => same (Option.some_inj.mp isServed).symm]
        rfl

/-- A unit of work is done unless the server is idle. -/
theorem Serves.sum_left (serves : load.Serves time age chosen age') :
    ∑ job ∈ load.jobs, load.left time age job =
      ∑ job ∈ load.jobs, load.left time age' job + if chosen = none then 0 else 1 := by
  cases serves with
  | idle nothing => rfl
  | serve job isJob works =>
      have served := Spreads.sum_served (load.left time age) works load.jobs
      rw [if_pos isJob] at served
      rw [left_serve job works, if_neg (Option.some_ne_none job)]
      exact served

section Two

variable (serves : load.Serves time age chosen age') (serves' : load.Serves time other chosen' other')
  (within : load.Within time age) (within' : load.Within time other)

include serves serves'

/-- Two servers with the same work left are idle together. -/
theorem Serves.idle_together
    (same : ∑ job ∈ load.jobs, load.left time age job = ∑ job ∈ load.jobs, load.left time other job) :
    chosen = none ↔ chosen' = none := by
  rw [serves.idle_iff, serves'.idle_iff, same]

include within within'

/-- They go on to have the same work left. -/
theorem Serves.same_left
    (same : ∑ job ∈ load.jobs, load.left time age job = ∑ job ∈ load.jobs, load.left time other job) :
    ∑ job ∈ load.jobs, load.left (time + 1) age' job = ∑ job ∈ load.jobs, load.left (time + 1) other' job := by
  have together := serves.idle_together serves' same
  have sum := serves.sum_left
  have sum' := serves'.sum_left
  have later := (serves.within within).sum_left_succ
  have later' := (serves'.within within').sum_left_succ
  by_cases idle : chosen = none
  · rw [if_pos idle] at sum
    rw [if_pos (together.mp idle)] at sum'
    omega
  · rw [if_neg idle] at sum
    rw [if_neg fun idle' => idle (together.mpr idle')] at sum'
    omega

/-- A server that chooses a job with the least left to do keeps the work spread
more widely. -/
theorem Serves.spreads (spreads : Spreads load.jobs (load.left time age) (load.left time other))
    (smallest : forall job, chosen = some job -> forall another, another ∈ load.jobs ->
      1 ≤ load.left time age another -> load.left time age job ≤ load.left time age another) :
    Spreads load.jobs (load.left (time + 1) age') (load.left (time + 1) other') := by
  have served : Spreads load.jobs (load.left time age') (load.left time other') := by
    have together := serves.idle_together serves' spreads.total.symm
    cases serves with
    | idle nothing =>
        cases serves' with
        | idle nothing' => exact spreads
        | serve job isJob works => exact absurd (together.mp rfl) (Option.some_ne_none job)
    | serve least isLeast works =>
        cases serves' with
        | idle nothing => exact absurd (together.mpr rfl) (Option.some_ne_none least)
        | serve job isJob works' =>
            rw [left_serve least works, left_serve job works']
            exact spreads.serve isLeast works (smallest least rfl) isJob works'
  have fresh : forall job, job ∈ load.jobs -> load.arriving time job ≠ 0 -> load.left time other' job = 0 := by
    intro job _ arrives
    unfold arriving at arrives
    split at arrives
    case isTrue now => exact if_neg (by omega)
    case isFalse => exact absurd rfl arrives
  have arrived := served.add (load.arriving time) fresh
  exact arrived.congr (fun job isJob => ((serves.within within).left_succ isJob).symm)
    fun job isJob => ((serves'.within within').left_succ isJob).symm

end Two

/-- The jobs that are finished.  -/
def finished (load : Workload Job) (age : Job -> Nat) : Finset Job :=
  load.jobs.filter fun job => age job = load.length job

/-- Who has spread the work more widely has finished at least as many jobs. -/
theorem card_finished_le (worthy : forall job, job ∈ load.jobs -> 1 ≤ load.length job)
    (within : load.Within time age) (within' : load.Within time other)
    (spreads : Spreads load.jobs (load.left time age) (load.left time other)) :
    (load.finished other).card ≤ (load.finished age).card := by
  have counted : forall {age : Job -> Nat}, load.Within time age ->
      (load.jobs.filter fun job => load.left time age job = 0).card =
        (load.finished age).card + (load.jobs.filter fun job => time < load.release job).card := by
    intro age within
    rw [← Finset.card_union_of_disjoint]
    · congr 1
      ext job
      rw [Finset.mem_union, finished, Finset.mem_filter, Finset.mem_filter, Finset.mem_filter]
      unfold left
      constructor
      · rintro ⟨isJob, nothing⟩
        have bounded := within.bounded job isJob
        split at nothing
        case isTrue released => exact Or.inl ⟨isJob, by omega⟩
        case isFalse unreleased => exact Or.inr ⟨isJob, Nat.lt_of_not_le unreleased⟩
      · rintro (⟨isJob, done⟩ | ⟨isJob, later⟩)
        · refine ⟨isJob, ?_⟩
          rw [done, Nat.sub_self, ite_self]
        · exact ⟨isJob, if_neg (Nat.not_le_of_lt later)⟩
    · apply Finset.disjoint_filter.mpr
      intro job isJob done later
      have young := within.early job isJob (Nat.le_of_lt later)
      have long := worthy job isJob
      omega
  have fewer := spreads.card_empty_le
  rw [counted within, counted within'] at fewer
  omega

end Workload
end Library
end OsPa
