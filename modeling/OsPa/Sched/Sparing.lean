import Mathlib.Data.List.Pairwise
import OsPa.Sched.Ordering

namespace OsPa
namespace Sched

open Library

/-!
# One resource at a time

A script may let each of its processes release what it has acquired before it
acquires something else.  Then a process holds at most one resource, and nothing
at all while it asks or waits for one.
-/

/-- The acquires of a process do not overlap. -/
def Description.Sparing (description : Description) : Prop :=
  description.acquires.Pairwise fun one other =>
    one.at_ + one.duration ≤ other.at_ ∨ other.at_ + other.duration ≤ one.at_

instance (description : Description) : Decidable description.Sparing := inferInstanceAs (Decidable (List.Pairwise _ _))

/-- A process that is due to acquire something holds nothing. -/
theorem Punctual.unladen {description : Description} (sparing : description.Sparing) (valid : description.Valid)
    {age : Nat} {held pending : List ResourceSchedule} (punctual : Punctual description.acquires age held pending)
    {rs : ResourceSchedule} (member : rs ∈ pending) (isDue : rs.at_ = age) : held = [] := by
  rcases punctual.entries with ⟨entries, same, within⟩
  have apart : (held.map (ResourceSchedule.restore age) ++ pending).Pairwise fun one other =>
      one.at_ + one.duration ≤ other.at_ ∨ other.at_ + other.duration ≤ one.at_ :=
    same.pairwise_iff (fun disjoint => disjoint.symm) |>.mp (sparing.sublist within)
  have lasting := valid.duration rs (punctual.pending_mem member)
  apply List.eq_nil_iff_forall_not_mem.mpr
  intro other holds
  have begun := punctual.held other holds
  have disjoint := (List.pairwise_append.mp apart).2.2 _ (List.mem_map_of_mem holds) rs member
  dsimp only [ResourceSchedule.restore] at disjoint
  omega

/-- Everybody holds at most one resource, and who has not been forked holds none. -/
structure Sparing (state : State) : Prop where
  single : forall process, (state.process process).resourcesHolding.length ≤ 1
  unforked : forall process, process ∈ state.forkqueue -> (state.process process).resourcesHolding = []

section Moves

variable {script : Script} {before after : Configuration} {events : List Event}

/-- The process that acts is in no queue. -/
private theorem Sound.actor_unlinked (sound : Sound script before) {process : Nat}
    (acts : before.1.actor = some process) : before.2.queued process = 0 := by
  cases sound with
  | closing between ended => cases acts
  | forking between nodup members passed => cases acts
  | acquiring acquiring =>
      cases acts
      exact acquiring.invariant.placed.of_detached.2.1
  | releasing releasing =>
      cases acts
      exact releasing.invariant.placed.of_detached.2.1

private theorem Released.forkqueue {r : Fin nrResources} {state freed : State} (released : Released r state freed) :
    freed.forkqueue = state.forkqueue := by
  cases released <;> rfl

/-- Nobody joins the fork queue. -/
private theorem Move.forkqueue (move : Move before events after) {process : Nat}
    (member : process ∈ after.2.forkqueue) : process ∈ before.2.forkqueue := by
  cases move with
  | begin state => exact member
  | wait early => exact member
  | fork arrived => exact List.mem_of_mem_erase member
  | @leave prio state ready forks => exact state.settle_forkqueue ▸ member
  | @idle prio state ready forks => exact state.settle_forkqueue ▸ member
  | @choose prio state current readyqueue moved => exact state.settle_forkqueue ▸ member
  | pass notDue => exact member
  | grant prio isDue indexed free => exact member
  | refuse prio isDue indexed owned => exact member
  | grow current kept state => exact member
  | keep remains => exact member
  | release expires indexed released => exact released.forkqueue ▸ member
  | finish current kept state => exact member

/-- What a process holds is at most one resource after a move. -/
theorem Move.sparing (valid : script.Valid)
    (sparing : forall description, description ∈ script -> description.Sparing) (sound : Sound script before)
    (move : Move before events after) (spared : Sparing before.2) : Sparing after.2 := by
  constructor
  case single =>
    intro process
    have single := spared.single process
    cases move.change process with
    | other _ changed | pass changed | refuse changed | grow changed | finish changed =>
        rw [changed]
        exact single
    | @grant kept todo rs state _ prio isDue changed =>
        cases sound with
        | acquiring acquiring =>
            have inside := acquiring.invariant.placed.of_detached.1
            have unladen := acquiring.punctual.unladen (sparing _ (Script.description_mem inside))
              (valid.description inside) (List.mem_append_right _ List.mem_cons_self) isDue
            have nothing : (state.process process).resourcesHolding ++ [rs] = [rs] := by rw [unladen]; rfl
            rw [changed]
            exact Nat.le_of_eq (congrArg List.length nothing)
    | @keep kept todo rs state _ changed =>
        cases sound with
        | releasing releasing =>
            dsimp only at single
            rw [releasing.resources, List.length_append, List.length_cons] at single
            rw [changed]
            dsimp only [Process.hold]
            rw [List.length_append, List.length_cons]
            exact single
    | @release kept todo rs state _ _ _ expires changed =>
        cases sound with
        | releasing releasing =>
            dsimp only at single
            rw [releasing.resources, List.length_append, List.length_cons] at single
            rw [changed]
            dsimp only [Process.hold]
            rw [List.length_append]
            omega
  case unforked =>
    intro process member
    have earlier := move.forkqueue member
    have idle : before.1.actor ≠ some process := by
      intro acts
      exact Nat.ne_of_gt (State.queued_of_forking earlier) (sound.actor_unlinked acts)
    rcases move.others idle with ⟨status, prio, changed⟩
    rw [changed]
    exact spared.unforked process earlier

theorem Reaches.sparing {sched : Scheduler} (valid : script.Valid) (lawful : Lawful sched)
    (sparing : forall description, description ∈ script -> description.Sparing) {reached : Configuration}
    (reaches : Reaches sched script reached) : Sparing reached.2 := by
  have loaded : Sparing script.initial := ⟨fun _ => Nat.zero_le _, fun _ _ => rfl⟩
  exact (reaches.invariant valid lawful loaded fun sound spared move => move.sparing valid sparing sound spared).2

end Moves

section Owners

variable {script : Script} {state : State}

/-- A process owns one resource. -/
theorem Sparing.unique (spared : Sparing state) (owned : Owned state) {process : Nat} {one other : Fin nrResources}
    (ownsOne : state.owner one = some process) (ownsOther : state.owner other = some process) : one = other := by
  rcases owned.holding ownsOne with ⟨rs, member, same⟩
  rcases owned.holding ownsOther with ⟨rs', member', same'⟩
  have single := spared.single process
  cases holding : (state.process process).resourcesHolding with
  | nil =>
      rw [holding] at member
      cases member
  | cons first rest =>
      rw [holding] at member member' single
      have nothing : rest = [] := List.eq_nil_of_length_eq_zero (Nat.le_zero.mp (Nat.le_of_succ_le_succ single))
      rw [nothing] at member member'
      rw [List.mem_singleton.mp member] at same
      rw [List.mem_singleton.mp member'] at same'
      exact Fin.ext (same.symm.trans same')

/-- Who waits for a resource owns none. -/
theorem Invariant.waiter_unladen {detached next : Option Nat} (invariant : Invariant script detached next state)
    (valid : script.Valid) (sparing : forall description, description ∈ script -> description.Sparing)
    {process : Nat} {asked r : Fin nrResources} (waits : process ∈ state.waitqueue asked)
    (attached : detached ≠ some process) : state.owner r ≠ some process := by
  intro owns
  have inside := invariant.placed.lt_length (State.queued_of_waiting waits)
  rcases invariant.owned.holding owns with ⟨rs, member, _⟩
  rcases Process.firstDue_mem (invariant.placed.waiting asked process waits).2.2 with ⟨asks, pending, isDue, _⟩
  have unladen := (invariant.punctual process attached).unladen (sparing _ (Script.description_mem inside))
    (valid.description inside) pending isDue
  rw [unladen] at member
  cases member

/-- When nobody runs, an owner is ready. -/
theorem Invariant.owner_ready {next : Option Nat} (invariant : Invariant script none next state)
    (valid : script.Valid) (sparing : forall description, description ∈ script -> description.Sparing)
    (spared : Sparing state) {process : Nat} {r : Fin nrResources} (owns : state.owner r = some process) :
    process ∈ state.readyqueue := by
  rcases invariant.owned.holding owns with ⟨rs, member, _⟩
  have punctual := invariant.punctual process (Option.some_ne_none _).symm
  have inside := Script.lt_length_of_acquire (punctual.restore_mem member)
  have alive : (state.process process).status ≠ .exit := by
    intro exited
    have young := punctual.held_young (valid.description inside) member
    have old := invariant.placed.exited process exited
    rw [invariant.placed.lifespan process] at old
    omega
  have forked : state.forkqueue.count process = 0 := by
    apply List.count_eq_zero.mpr
    intro unforked
    rw [spared.unforked process unforked] at member
    cases member
  have running : copies state.waitqueue process = 0 := by
    by_contra waits
    rcases copies_pos.mp (Nat.pos_of_ne_zero waits) with ⟨asked, queued⟩
    exact invariant.waiter_unladen valid sparing queued (Option.some_ne_none _).symm owns
  have once := invariant.placed.once process
  rw [if_neg (Option.some_ne_none _).symm, if_neg alive, if_pos inside] at once
  unfold State.queued at once
  exact List.count_pos_iff.mp (by omega)

end Owners

end Sched
end OsPa
