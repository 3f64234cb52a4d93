import OsPa.Sched.Departures
import OsPa.Sched.WorkConservation
import Mathlib.Tactic.Ring

namespace OsPa
namespace Sched

open Library

/-!
# The shortest time to completion first

Without acquires stcf serves a process with the least left to do.  That keeps
the work that is left spread as widely as possible, so that as many processes
as possible have completed at each tick, and the ticks of the exits add up to as
little as possible.
-/

/-- How many processes have completed. -/
def State.completed (script : Script) (state : State) : Nat := (script.workload.finished state.age).card

/-- The sum of the ticks of the exits if those that are left exited now. -/
def State.awaited (script : Script) (state : State) : Nat :=
  (state.exits.map Prod.fst).sum + state.ticks * (script.length - state.exits.length)

section Round

variable {script : Script} {sched : Scheduler} {state after : State} {left : Bool} {last : List Event}

/-- As many have exited after a round as had completed before it. -/
private theorem Calm.exits_length (calm : Calm script state) (departed : Departed script state)
    (round : Round sched (forkOnSchedule state) left last after) :
    after.exits.length = state.completed script := by
  rcases departed.round calm round with ⟨nodup, mem⟩
  have same : (after.exits.map Prod.snd).toFinset = script.workload.finished state.age := by
    ext process
    rw [List.mem_toFinset]
    exact mem process
  unfold State.completed
  rw [← same, List.toFinset_card_of_nodup nodup, List.length_map]

/-- Each process that has not completed waits for another tick. -/
theorem Calm.awaited_round (calm : Calm script state) (departed : Departed script state)
    (round : Round sched (forkOnSchedule state) left last after) :
    after.awaited script =
      state.awaited script + if left then 0 else script.length - state.completed script := by
  have length := calm.exits_length departed round
  have bounded : state.completed script ≤ script.length := by
    calc
      state.completed script ≤ (Finset.range script.length).card := Finset.card_filter_le _ _
      _ = script.length := Finset.card_range _
  have forks := forkOnSchedule_forks state calm.between.invariant.placed.forkqueue_nodup
  have clock := round.ticks
  rw [forks.ticks] at clock
  have exits := calm.exits_round round
  have total := congrArg List.length exits
  rw [length, List.length_append, List.length_map] at total
  have sum : (after.exits.map Prod.fst).sum =
      (state.exits.map Prod.fst).sum + state.departing.length * state.ticks := by
    rw [exits, List.map_append, List.sum_append, List.map_map]
    have constant : state.departing.map (Prod.fst ∘ fun process => (state.ticks, process)) =
        List.replicate state.departing.length state.ticks := List.map_const' ..
    rw [constant, List.sum_replicate_nat]
  rcases Nat.exists_eq_add_of_le bounded with ⟨rest, split⟩
  have waiting : script.length - state.completed script = rest := by omega
  have before : script.length - state.exits.length = state.departing.length + rest := by omega
  unfold State.awaited
  rw [sum, length, clock, waiting, before]
  cases left with
  | false =>
      rw [if_neg Bool.false_ne_true, if_neg Bool.false_ne_true]
      ring
  | true =>
      rw [if_pos rfl, if_pos rfl]
      ring

/-- stcf chooses a process with the least left to do. -/
theorem Calm.least (plain : script.Plain) (calm : Calm script state)
    (round : Round stcfScheduler (forkOnSchedule state) left last after) {current : Nat}
    (serves : servedBy last = some current) {process : Nat} (isJob : process ∈ script.workload.jobs)
    (works : 1 ≤ script.workload.left state.ticks state.age process) :
    script.workload.left state.ticks state.age current ≤ script.workload.left state.ticks state.age process := by
  have between := forkOnSchedule_between calm.between
  have forks := forkOnSchedule_forks state calm.between.invariant.placed.forkqueue_nodup
  cases round with
  | leave prio ready forks => cases serves
  | idle prio ready forks => cases serves
  | @run prio next scheduled chosen moved =>
      cases serves
      have scheduled : stcfSchedule (forkOnSchedule state) = _ := chosen
      have found := (preemptive_some scheduled).1
      rw [← between.settle_readyqueue] at found
      have remaining : forall process, process ∈ (forkOnSchedule state).settle.readyqueue ->
          ((forkOnSchedule state).requeue.process process).remaining =
            script.workload.left state.ticks state.age process := by
        intro process ready
        have available := Workload.released process ((calm.available plain process).mp ready).2
        have age : ((forkOnSchedule state).process process).age = state.age process := congrFun forks.age process
        have lifespan := between.invariant.placed.lifespan process
        have young : state.age process ≤ (script.description process).lifespan := Nat.le_of_lt available.2
        rw [State.requeue_eq]
        unfold Process.remaining Word.sub Workload.left
        dsimp only
        rw [age, lifespan, if_pos young, if_pos available.1]
        rfl
      have ready := (calm.available plain process).mpr ⟨isJob, works⟩
      have earliest := scan_earliestMax
        (fun process => OrderDual.toDual ((forkOnSchedule state).requeue.process process).remaining)
        (fun pos next => decide_eq_true_iff.trans OrderDual.toDual_lt_toDual.symm) found
      have least := OrderDual.toDual_le_toDual.mp (earliest.le process ready)
      rw [remaining current (moved.subset List.mem_cons_self), remaining process ready] at least
      exact least

end Round

/-- A run in which who has least left to do is always served, such as one under stcf,
beside a run under another scheduler. -/
structure Ahead (script : Script) (state state' : State) : Prop where
  abreast : Abreast script state state'
  spreads : Spreads script.workload.jobs (script.workload.left state.ticks state.age)
    (script.workload.left state.ticks state'.age)
  departed : Departed script state
  departed' : Departed script state'
  awaited : state.awaited script ≤ state'.awaited script

section Ahead

variable {script : Script} {sched sched' : Scheduler} {state state' after after' : State} {left : Bool}
  {last last' : List Event}

/-- At least as many processes have completed in it. -/
theorem Ahead.completed (plain : script.Plain) (ahead : Ahead script state state') :
    state'.completed script ≤ state.completed script := by
  have within' := ahead.abreast.calm'.within
  rw [ahead.abreast.ticks] at within'
  apply Workload.card_finished_le _ ahead.abreast.calm.within within' ahead.spreads
  exact fun process isJob => plain.lifespan _ (Script.description_mem (Finset.mem_range.mp isJob))

theorem Ahead.initial (plain : script.Plain) : Ahead script script.initial script.initial :=
  ⟨Abreast.initial plain, Spreads.refl _ _, Departed.initial plain, Departed.initial plain, Nat.le_refl _⟩

/-- A round in which a process with the least left to do is served keeps the run
ahead. -/
theorem Ahead.round_of_least (plain : script.Plain) (ahead : Ahead script state state')
    (round : Round sched' (forkOnSchedule state) left last after)
    (round' : Round sched (forkOnSchedule state') left last' after') (abreast : Abreast script after after')
    (least : forall current, servedBy last = some current -> forall process, process ∈ script.workload.jobs ->
      1 ≤ script.workload.left state.ticks state.age process ->
        script.workload.left state.ticks state.age current ≤ script.workload.left state.ticks state.age process) :
    Ahead script after after' := by
  have calm := ahead.abreast.calm
  have calm' := ahead.abreast.calm'
  refine ⟨abreast, ?_, ahead.departed.next plain calm round, ahead.departed'.next plain calm' round', ?_⟩
  · have serves := calm.serves plain round
    have serves' := calm'.serves plain round'
    have within' := calm'.within
    rw [ahead.abreast.ticks] at serves' within'
    have forks := forkOnSchedule_forks state calm.between.invariant.placed.forkqueue_nodup
    have clock := round.ticks
    rw [forks.ticks] at clock
    rw [clock]
    cases left with
    | false =>
        exact serves.spreads serves' calm.within within' ahead.spreads least
    | true =>
        have age := calm.ages plain round
        have age' := calm'.ages plain round'
        rw [if_pos ((calm.left_iff round).mp rfl).1] at age
        rw [if_pos ((calm'.left_iff round').mp rfl).1] at age'
        rw [age, age']
        exact ahead.spreads
  · have completed := ahead.completed plain
    rw [calm.awaited_round ahead.departed round, calm'.awaited_round ahead.departed' round']
    apply Nat.add_le_add ahead.awaited
    split
    · exact Nat.le_refl _
    · exact Nat.sub_le_sub_left completed _

/-- A round keeps stcf ahead. -/
theorem Ahead.round (plain : script.Plain) (ahead : Ahead script state state')
    (round : Round stcfScheduler (forkOnSchedule state) left last after)
    (round' : Round sched (forkOnSchedule state') left last' after') (abreast : Abreast script after after') :
    Ahead script after after' :=
  ahead.round_of_least plain round round' abreast
    fun _ chosen _ isJob works => ahead.abreast.calm.least plain round chosen isJob works

/-- The ticks of the exits are ordered as what is awaited, once all have exited. -/
theorem Ahead.exits_le (ahead : Ahead script state state')
    (exited : (state.exits.map Prod.snd).Perm (List.range script.length))
    (exited' : (state'.exits.map Prod.snd).Perm (List.range script.length)) :
    (state.exits.map Prod.fst).sum ≤ (state'.exits.map Prod.fst).sum := by
  have awaited := ahead.awaited
  have length := exited.length_eq
  have length' := exited'.length_eq
  rw [List.length_map, List.length_range] at length length'
  unfold State.awaited at awaited
  rw [length, length', Nat.sub_self, Nat.mul_zero, Nat.mul_zero] at awaited
  exact awaited

end Ahead

/-- Without acquires at least as many processes have completed under stcf at
each tick as under any other scheduler, and the ticks of the exits add up to at
most as much. -/
theorem stcf_optimal {script : Script} (plain : script.Plain) (name : SchedulerName) {rounds : Nat} {left : Bool}
    {state : State} (simulates : Simulates stcfScheduler script rounds left state) :
    Exists fun state' => Simulates name.scheduler script rounds left state' ∧ state'.ticks = state.ticks ∧
      state'.completed script ≤ state.completed script ∧
        (left = true -> (state.exits.map Prod.snd).Perm (List.range script.length) ∧
          (state'.exits.map Prod.snd).Perm (List.range script.length) ∧
            (state.exits.map Prod.fst).sum ≤ (state'.exits.map Prod.fst).sum) := by
  have lawful : Lawful stcfScheduler := SchedulerName.lawful .stcf
  have round : forall state state', Ahead script state state' -> Exists fun left => Exists fun after =>
      Exists fun after' => iteration stcfScheduler state = .ok (left, after) ∧
        iteration name.scheduler state' = .ok (left, after') ∧ Ahead script after after' := by
    intro state state' ahead
    rcases ahead.abreast.calm.round plain lawful with ⟨left, last, after, ran, round, later⟩
    rcases ahead.abreast.calm'.round plain name.lawful with ⟨left', last', after', ran', round', later'⟩
    rcases ahead.abreast.round plain round round' later later' with ⟨rfl, _, abreast⟩
    exact ⟨left, after, after', ran, ran', ahead.round plain round round' abreast⟩
  rcases simulates.lockstep (Ahead script) round (Ahead.initial plain) with ⟨state', simulates', ahead⟩
  refine ⟨state', simulates', ahead.abreast.ticks, ahead.completed plain, ?_⟩
  rintro rfl
  have exited := simulates.exited plain lawful
  have exited' := simulates'.exited plain name.lawful
  exact ⟨exited, exited', ahead.exits_le exited exited'⟩

theorem stcf_optimal_staggered : Exists fun state => Simulates stcfScheduler staggered 4 false state ∧
    Exists fun state' => Simulates fcfsScheduler staggered 4 false state' ∧
      state'.completed staggered ≤ state.completed staggered := by
  have simulates : Simulates stcfScheduler staggered 4 false _ := ⟨_, rfl, rfl⟩
  rcases stcf_optimal staggered_plain .fcfs simulates with ⟨state', simulates', _, fewer, _⟩
  exact ⟨_, simulates, state', simulates', fewer⟩

end Sched
end OsPa
