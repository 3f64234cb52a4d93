import OsPa.Library.Service

/-!
# A batch of jobs served without interruption

All jobs are released at one time.  A server takes one of the shortest jobs in hand
and goes on with it until it is finished.  Nobody else has been begun meanwhile, so
that the job in hand has the least left to do at all times, as if the server chose by
what is left.
-/

namespace OsPa
namespace Library

universe u

namespace Workload

variable {Job : Type u} (load : Workload Job)

/-- All jobs are released together. -/
def Batched : Prop := forall job, job ∈ load.jobs -> forall other, other ∈ load.jobs ->
  load.release job = load.release other

/-- Only the job in hand has been begun, and none that is left is shorter. -/
structure InHand (age : Job -> Nat) (inHand : Option Job) : Prop where
  begun : forall job, job ∈ load.jobs -> 0 < age job -> age job < load.length job -> inHand = some job
  shortest : forall job, inHand = some job -> forall other, other ∈ load.jobs -> age other < load.length other ->
    load.length job ≤ load.length other

/-- The server goes on with the job in hand, and takes a shortest one when there is
none. -/
structure ShortestFirst (time : Nat) (age : Job -> Nat) (inHand chosen : Option Job) : Prop where
  goesOn : forall job, inHand = some job -> chosen = some job
  takes : inHand = none -> forall job, chosen = some job -> forall other, other ∈ load.jobs ->
    1 ≤ load.left time age other -> load.length job ≤ load.length other

variable {load} {time : Nat} {age age' : Job -> Nat} {inHand chosen : Option Job}

theorem left_le_length (time : Nat) (age : Job -> Nat) (job : Job) : load.left time age job ≤ load.length job := by
  unfold left
  split
  · exact Nat.sub_le _ _
  · exact Nat.zero_le _

/-- A job that has not been begun has all of its work left. -/
theorem left_of_fresh {job : Job} (works : 1 ≤ load.left time age job) (fresh : age job = 0) :
    load.left time age job = load.length job := by
  unfold left
  rw [if_pos (released job works).1, fresh, Nat.sub_zero]

/-- The job that is served has the least left to do. -/
theorem InHand.least (held : load.InHand age inHand) (first : load.ShortestFirst time age inHand chosen) {job : Job}
    (serves : chosen = some job) {other : Job} (isJob : other ∈ load.jobs) (works : 1 ≤ load.left time age other) :
    load.left time age job ≤ load.left time age other := by
  have available := released other works
  by_cases fresh : age other = 0
  · have shorter : load.length job ≤ load.length other := by
      cases hand : inHand with
      | none => exact first.takes hand job serves other isJob works
      | some current =>
          cases serves.symm.trans (first.goesOn current hand)
          exact held.shortest job hand other isJob available.2
    rw [left_of_fresh works fresh]
    exact (left_le_length time age job).trans shorter
  · -- It has been begun, so that it is the one that is served.
    have hand := held.begun other isJob (Nat.pos_of_ne_zero fresh) available.2
    cases serves.symm.trans (first.goesOn other hand)
    exact Nat.le_refl _

variable [DecidableEq Job]

theorem Serves.works (serves : load.Serves time age chosen age') {job : Job} (same : chosen = some job) :
    job ∈ load.jobs ∧ 1 ≤ load.left time age job := by
  cases serves with
  | idle nothing => cases same
  | serve served isJob works =>
      cases same
      exact ⟨isJob, works⟩

/-- What is in hand after the time at which a job is served. -/
theorem InHand.next (batched : load.Batched) (held : load.InHand age inHand)
    (first : load.ShortestFirst time age inHand chosen) (serves : load.Serves time age chosen age') :
    load.InHand age' (chosen.filter fun job => age' job < load.length job) := by
  constructor
  case begun =>
    intro job isJob positive young
    have same : chosen = some job := by
      by_contra other
      have aged := serves.aged job
      rw [if_neg other, Nat.add_zero] at aged
      rw [aged] at positive young
      exact other (first.goesOn job (held.begun job isJob positive young))
    rw [same, Option.filter_some, if_pos (decide_eq_true young)]
  case shortest =>
    intro job isHeld other isOther young
    rcases Option.filter_eq_some_iff.mp isHeld with ⟨same, _⟩
    have aged := serves.aged other
    have younger : age other < load.length other := by omega
    cases hand : inHand with
    | none =>
        rcases serves.works same with ⟨isJob, works⟩
        have arrived : load.release other ≤ time := by
          rw [batched other isOther job isJob]
          exact (released job works).1
        apply first.takes hand job same other isOther
        unfold left
        rw [if_pos arrived]
        omega
    | some current =>
        cases same.symm.trans (first.goesOn current hand)
        exact held.shortest job hand other isOther younger

end Workload
end Library
end OsPa
