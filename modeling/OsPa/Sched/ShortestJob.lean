import OsPa.Library.Batch
import OsPa.Sched.Optimality

namespace OsPa
namespace Sched

open Library

/-!
# The shortest job first

sjf compares whole lifespans and lets the chosen process run to its end.  If all
processes start in the same tick this comes to choosing by what is left.  Nobody
else has run meanwhile, and whoever runs was one of the shortest at first.
-/

/-- All processes start in the same tick. -/
def Script.Batched (script : Script) : Prop := forall description, description ∈ script ->
  forall other, other ∈ script -> description.startsAt = other.startsAt

private theorem Script.Batched.workload {script : Script} (batched : script.Batched) : script.workload.Batched :=
  fun _ isJob _ isOther => batched _ (Script.description_mem (Finset.mem_range.mp isJob)) _
    (Script.description_mem (Finset.mem_range.mp isOther))

/-- Who has run in the last tick and has not completed. -/
def State.unfinished (script : Script) (state : State) : Option Nat :=
  state.running.filter fun process => state.age process < script.workload.length process

section Round

variable {script : Script} {state after : State} {left : Bool} {last : List Event}

/-- Whoever has not completed can run on after the forks. -/
theorem Calm.runnable (calm : Calm script state) : (forkOnSchedule state).runnable = state.unfinished script := by
  have between := forkOnSchedule_between calm.between
  have forks := forkOnSchedule_forks state calm.between.invariant.placed.forkqueue_nodup
  rw [between.runnable_eq, calm.forked_running]
  unfold State.unfinished
  apply congrArg fun young => Option.filter young state.running
  funext process
  have age : ((forkOnSchedule state).process process).age = state.age process := congrFun forks.age process
  rw [age, between.invariant.placed.lifespan process]
  rfl

/-- sjf goes on with the process that has run, and chooses one of the smallest
lifespan if there is none. -/
theorem Calm.shortestFirst (plain : script.Plain) (calm : Calm script state)
    (round : Round sjfScheduler (forkOnSchedule state) left last after) :
    script.workload.ShortestFirst state.ticks state.age (state.unfinished script) (servedBy last) := by
  have between := forkOnSchedule_between calm.between
  have settled := between.settle_readyqueue
  rw [← calm.runnable]
  constructor
  case goesOn =>
    intro process runnable
    rw [runnable] at settled
    cases round with
    | leave prio ready forks => exact absurd (settled.symm.trans ready) (List.concat_ne_nil _ _)
    | idle prio ready forks => exact absurd (settled.symm.trans ready) (List.concat_ne_nil _ _)
    | @run prio current scheduled chosen moved =>
        rcases nonpreemptive_some chosen with ⟨goesOn, _⟩ | ⟨idle, _⟩
        · exact goesOn.symm.trans runnable
        · cases runnable.symm.trans idle
  case takes =>
    intro nobody process serves other isJob works
    rw [nobody, Option.toList, List.append_nil] at settled
    have ready := (calm.available plain other).mpr ⟨isJob, works⟩
    rw [settled] at ready
    cases round with
    | leave prio ready forks => cases serves
    | idle prio ready forks => cases serves
    | @run prio current scheduled chosen moved =>
        cases serves
        rcases nonpreemptive_some chosen with ⟨goesOn, _⟩ | ⟨_, found, _⟩
        · cases nobody.symm.trans goesOn
        · have earliest := scan_earliestMax
            (fun process => OrderDual.toDual ((forkOnSchedule state).process process).lifespan)
            (fun pos next => decide_eq_true_iff.trans OrderDual.toDual_lt_toDual.symm) found
          have least := OrderDual.toDual_le_toDual.mp (earliest.le other ready)
          rw [between.invariant.placed.lifespan, between.invariant.placed.lifespan] at least
          exact least

private theorem Calm.inHand (plain : script.Plain) (batched : script.Batched) (calm : Calm script state)
    (inHand : script.workload.InHand state.age (state.unfinished script))
    (round : Round sjfScheduler (forkOnSchedule state) left last after) :
    script.workload.InHand after.age (after.unfinished script) := by
  unfold State.unfinished
  rw [round.running]
  exact inHand.next batched.workload (calm.shortestFirst plain round) (calm.serves plain round)

/-- Nobody has begun. -/
private theorem Script.initial_inHand (script : Script) :
    script.workload.InHand script.initial.age (script.initial.unfinished script) := by
  constructor
  case begun => exact fun process _ positive _ => absurd positive (Nat.lt_irrefl 0)
  case shortest => exact fun process never => nomatch never

end Round

/-- Without acquires, and if all processes start in the same tick, sjf does as well
as stcf.  At least as many processes have completed at each tick as under any other
scheduler, and the ticks of the exits add up to at most as much. -/
theorem sjf_optimal_together {script : Script} (plain : script.Plain) (batched : script.Batched)
    (name : SchedulerName) {rounds : Nat} {left : Bool} {state : State}
    (simulates : Simulates sjfScheduler script rounds left state) :
    Exists fun state' => Simulates name.scheduler script rounds left state' ∧ state'.ticks = state.ticks ∧
      state'.completed script ≤ state.completed script ∧
        (left = true -> (state.exits.map Prod.snd).Perm (List.range script.length) ∧
          (state'.exits.map Prod.snd).Perm (List.range script.length) ∧
            (state.exits.map Prod.fst).sum ≤ (state'.exits.map Prod.fst).sum) := by
  have lawful : Lawful sjfScheduler := SchedulerName.lawful .sjf
  let related := fun state state' : State => Ahead script state state' ∧
    script.workload.InHand state.age (state.unfinished script)
  have round : forall state state', related state state' -> Exists fun left => Exists fun after =>
      Exists fun after' => iteration sjfScheduler state = .ok (left, after) ∧
        iteration name.scheduler state' = .ok (left, after') ∧ related after after' := by
    rintro state state' ⟨ahead, inHand⟩
    rcases ahead.abreast.calm.round plain lawful with ⟨left, last, after, ran, round, later⟩
    rcases ahead.abreast.calm'.round plain name.lawful with ⟨left', last', after', ran', round', later'⟩
    rcases ahead.abreast.round plain round round' later later' with ⟨rfl, _, abreast⟩
    have first := ahead.abreast.calm.shortestFirst plain round
    have next := ahead.round_of_least plain round round' abreast
      fun _ chosen _ isJob works => inHand.least first chosen isJob works
    exact ⟨left, after, after', ran, ran', next, ahead.abreast.calm.inHand plain batched inHand round⟩
  rcases simulates.lockstep related round ⟨Ahead.initial plain, script.initial_inHand⟩ with
    ⟨state', simulates', ahead, _⟩
  refine ⟨state', simulates', ahead.abreast.ticks, ahead.completed plain, ?_⟩
  rintro rfl
  have exited := simulates.exited plain lawful
  have exited' := simulates'.exited plain name.lawful
  exact ⟨exited, exited', ahead.exits_le exited exited'⟩

/-- Three processes that come together. -/
def threeAtOnce : Script := [⟨1, 4, 1, 0, []⟩, ⟨2, 1, 1, 0, []⟩, ⟨3, 2, 1, 0, []⟩]

theorem sjf_optimal_together_rr : Exists fun state => Simulates sjfScheduler threeAtOnce 4 false state ∧
    Exists fun state' => Simulates rrScheduler threeAtOnce 4 false state' ∧
      state'.completed threeAtOnce ≤ state.completed threeAtOnce := by
  have plain : threeAtOnce.Plain := ⟨by decide, by decide⟩
  have batched : threeAtOnce.Batched := by
    unfold Script.Batched
    decide
  have simulates : Simulates sjfScheduler threeAtOnce 4 false _ := ⟨_, rfl, rfl⟩
  rcases sjf_optimal_together plain batched .rr simulates with ⟨state', simulates', _, fewer, _⟩
  exact ⟨_, simulates, state', simulates', fewer⟩

end Sched
end OsPa
