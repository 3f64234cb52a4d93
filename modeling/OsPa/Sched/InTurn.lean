import OsPa.Sched.Departures
import OsPa.Sched.Termination
import OsPa.Sched.WorkConservation

namespace OsPa
namespace Sched

open Library

/-!
# First come, first served

Without acquires the processes that have exited, the one that runs and those that
are ready make up a line under fcfs.  A process that is forked joins it at the
end.  A round takes the next process in the line without changing the order, and
only when the one before has completed, so that each process runs in one block.
-/

/-- The order in which processes start, with the order in the script for those
that start together. -/
def Script.Earlier (script : Script) (process other : Nat) : Prop :=
  (script.description process).startsAt < (script.description other).startsAt ∨
    (script.description process).startsAt = (script.description other).startsAt ∧ process < other

/-- The processes that have exited, the one that runs, and those that are ready. -/
def State.line (state : State) : List Nat :=
  state.exits.map Prod.snd ++ (state.running.toList ++ state.readyqueue)

/-- The ticks for which an event has been printed. -/
def State.ticksOf (state : State) (event : Event) : List Nat :=
  (state.stderr.filter fun printed => printed.2 = event).map Prod.fst

section InTurn

variable {script : Script} {sched : Scheduler} {state after : State} {left : Bool} {last : List Event}

/-- Whatever is printed in a tick is printed for this tick. -/
theorem State.ticksOf_append {events : List Event}
    (printed : after.stderr = state.stderr ++ events.map fun event => (state.ticks, event)) (event : Event) :
    after.ticksOf event = state.ticksOf event ++ List.replicate (events.count event) state.ticks := by
  have now : ((events.map fun event => (state.ticks, event)).filter fun printed => printed.2 = event).map Prod.fst =
      List.replicate (events.count event) state.ticks := by
    rw [List.filter_map, List.map_map, List.count_eq_length_filter, ← List.map_const']
    congr 1
  unfold State.ticksOf
  rw [printed, List.filter_append, List.map_append, now]

/-- Who leaves the fork queue starts at the tick. -/
theorem Calm.starting (calm : Calm script state) {process : Nat}
    (joined : process ∈ state.forkqueue.filter fun process => state.Arrived process) :
    process < script.length ∧ (script.description process).startsAt = state.ticks := by
  rcases List.mem_filter.mp joined with ⟨member, arrived⟩
  have inside := calm.between.invariant.placed.lt_length (State.queued_of_forking member)
  have early := (calm.forkqueue process inside).mp member
  have startsAt := calm.startsAt process
  have arrived : (state.process process).startsAt ≤ state.ticks := of_decide_eq_true arrived
  exact ⟨inside, by omega⟩

theorem count_map_of_ne (print : Nat -> Event) {other : Event} (different : forall process, print process ≠ other)
    (processes : List Nat) : (processes.map print).count other = 0 := by
  apply List.count_eq_zero.mpr
  intro member
  rcases List.mem_map.mp member with ⟨process, _, same⟩
  exact different process same

/-- A process is printed as forked when it leaves the fork queue. -/
theorem Calm.ticksOf_forked (calm : Calm script state) (round : Round sched (forkOnSchedule state) left last after)
    (process : Nat) : after.ticksOf (.forked process) = state.ticksOf (.forked process) ++
      if process ∈ state.forkqueue ∧ process ∉ after.forkqueue then [(script.description process).startsAt]
      else [] := by
  have nodup := calm.between.invariant.placed.forkqueue_nodup
  have forks := forkOnSchedule_forks state nodup
  have joins : process ∈ state.forkqueue ∧ process ∉ after.forkqueue ↔
      process ∈ state.forkqueue.filter fun process => state.Arrived process := by
    rw [round.forkqueue, forks.forkqueue, List.mem_filter, List.mem_filter, decide_eq_true_iff, decide_eq_true_iff]
    tauto
  have exits := count_map_of_ne Event.exited (fun _ => nofun : forall other, Event.exited other ≠ .forked process)
    state.departing
  have later : last.count (.forked process) = 0 := by
    cases round <;> rfl
  have injective : Function.Injective Event.forked := fun _ _ same => Event.forked.inj same
  rw [State.ticksOf_append (calm.printed round), List.count_append, List.count_append, exits, later,
    List.count_map_of_injective _ _ injective, (nodup.filter _).count, if_congr joins rfl rfl]
  split
  case isTrue joined =>
    rw [(calm.starting joined).2]
    rfl
  case isFalse => rfl

/-- A process is printed as running when it is served. -/
private theorem Calm.ticksOf_ran (calm : Calm script state) (round : Round sched (forkOnSchedule state) left last after)
    (process : Nat) : after.ticksOf (.ran process) = state.ticksOf (.ran process) ++
      if servedBy last = some process then [state.ticks] else [] := by
  have forks := count_map_of_ne Event.forked (fun _ => nofun : forall other, Event.forked other ≠ .ran process)
    (state.forkqueue.filter fun process => state.Arrived process)
  have exits := count_map_of_ne Event.exited (fun _ => nofun : forall other, Event.exited other ≠ .ran process)
    state.departing
  have served : last.count (.ran process) = if servedBy last = some process then 1 else 0 := by
    cases round with
    | leave prio ready forks => rfl
    | idle prio ready forks => rfl
    | @run prio current scheduled chosen moved =>
        rw [List.count_singleton]
        apply if_congr _ rfl rfl
        rw [beq_iff_eq]
        exact ⟨fun same => congrArg some (Event.ran.inj same), fun same => congrArg Event.ran (Option.some_inj.mp same)⟩
  rw [State.ticksOf_append (calm.printed round), List.count_append, List.count_append, forks, exits, served,
    Nat.zero_add, Nat.zero_add]
  split <;> rfl

/-- Under fcfs the process that runs goes on, or the head of the queue comes next. -/
theorem Calm.fcfs_round (calm : Calm script state)
    (round : Round fcfsScheduler (forkOnSchedule state) left last after) :
    (Exists fun current => state.running = some current ∧ state.departing = [] ∧ servedBy last = some current ∧
      after.readyqueue = (forkOnSchedule state).readyqueue) ∨
    (state.departing = state.running.toList ∧
      (servedBy last).toList ++ after.readyqueue = (forkOnSchedule state).readyqueue) := by
  have between := forkOnSchedule_between calm.between
  have forks := forkOnSchedule_forks state calm.between.invariant.placed.forkqueue_nodup
  have settled := between.settle_readyqueue
  have aged : forall process, ((forkOnSchedule state).process process).age = (state.process process).age ∧
      ((forkOnSchedule state).process process).lifespan = (state.process process).lifespan := by
    intro process
    rcases forks.process process with ⟨status, same, _⟩
    rw [same]
    exact ⟨rfl, rfl⟩
  have runs := between.runnable_eq
  rw [calm.forked_running] at runs
  cases runnable : (forkOnSchedule state).runnable with
  | some current =>
      left
      rw [runnable] at runs settled
      rcases Option.filter_eq_some_iff.mp runs.symm with ⟨isRunning, young⟩
      rw [decide_eq_true_iff, (aged current).1, (aged current).2] at young
      have departing : state.departing = [] := by
        unfold State.departing
        rw [isRunning]
        exact if_pos young
      refine ⟨current, isRunning, departing, ?_⟩
      cases round with
      | leave prio ready forks => exact absurd (settled.symm.trans ready) (List.concat_ne_nil _ _)
      | idle prio ready forks => exact absurd (settled.symm.trans ready) (List.concat_ne_nil _ _)
      | @run prio next scheduled chosen moved =>
          rcases nonpreemptive_some chosen with ⟨goesOn, rfl⟩ | ⟨idle, _⟩
          · cases runnable.symm.trans goesOn
            exact ⟨rfl, rfl⟩
          · cases runnable.symm.trans idle
  | none =>
      right
      rw [runnable, Option.toList, List.append_nil] at settled
      rw [runnable] at runs
      constructor
      · unfold State.departing
        cases isRunning : state.running with
        | none => rfl
        | some current =>
            have old := Option.filter_eq_none_iff.mp runs.symm current isRunning
            rw [decide_eq_true_iff, (aged current).1, (aged current).2] at old
            exact if_neg old
      · cases round with
        | leave prio ready forks => exact (settled.symm.trans ready).symm
        | idle prio ready forks => exact (settled.symm.trans ready).symm
        | @run prio next scheduled chosen moved =>
            rcases nonpreemptive_some chosen with ⟨goesOn, _⟩ | ⟨_, first, rest⟩
            · cases runnable.symm.trans goesOn
            · rcases List.head?_eq_some_iff.mp first with ⟨tail, queue⟩
              rw [queue] at rest ⊢
              exact congrArg (next :: ·) (rest.trans (List.erase_cons_head ..))

/-- A round adds the processes that are forked to the end of the line. -/
theorem Calm.line_round (calm : Calm script state)
    (round : Round fcfsScheduler (forkOnSchedule state) left last after) :
    after.line = state.line ++ state.forkqueue.filter fun process => state.Arrived process := by
  have forks := forkOnSchedule_forks state calm.between.invariant.placed.forkqueue_nodup
  unfold State.line
  rw [calm.exited_round round, round.running, List.append_assoc, List.append_assoc, List.append_assoc,
    ← forks.readyqueue]
  apply congrArg
  rcases calm.fcfs_round round with ⟨current, runs, stays, served, ready⟩ | ⟨departs, ready⟩
  · rw [runs, stays, served, ready, List.nil_append]
  · rw [departs, ready]

end InTurn

/-- What holds between the rounds of fcfs. -/
structure InTurn (script : Script) (state : State) : Prop where
  ordered : state.line.Pairwise script.Earlier
  inside : forall process, process ∈ state.line -> process < script.length ∧ process ∉ state.forkqueue
  forkqueue : state.forkqueue.Pairwise (· < ·)
  fresh : forall process, process ∈ state.readyqueue -> state.age process = 0
  forked : forall process, process < script.length ->
    state.ticksOf (.forked process) = if process ∈ state.forkqueue then [] else [(script.description process).startsAt]
  block : forall process, Exists fun begins => (script.description process).startsAt ≤ begins ∧
    state.ticksOf (.ran process) = List.range' begins (state.age process) ∧
      (state.running = some process -> begins + state.age process = state.ticks) ∧
        forall tick, (tick, process) ∈ state.exits -> begins + state.age process = tick

namespace InTurn

variable {script : Script} {state after : State} {left : Bool} {last : List Event}

theorem initial (script : Script) : InTurn script script.initial := by
  constructor
  case ordered => exact List.Pairwise.nil
  case inside => exact fun _ never => absurd never List.not_mem_nil
  case forkqueue => exact List.pairwise_lt_range
  case fresh => exact fun _ never => absurd never List.not_mem_nil
  case forked => exact fun process inside => (if_pos (List.mem_range.mpr inside)).symm
  case block => exact fun process => ⟨_, Nat.le_refl _, rfl, nofun, fun _ never => absurd never List.not_mem_nil⟩

private theorem ordered_round (inTurn : InTurn script state) (calm : Calm script state)
    (round : Round fcfsScheduler (forkOnSchedule state) left last after) : after.line.Pairwise script.Earlier := by
  rw [calm.line_round round]
  apply List.pairwise_append.mpr
  refine ⟨inTurn.ordered, ?_, ?_⟩
  · apply List.Pairwise.imp_of_mem _ (inTurn.forkqueue.filter _)
    intro process other joined otherJoined earlier
    exact Or.inr ⟨(calm.starting joined).2.trans (calm.starting otherJoined).2.symm, earlier⟩
  · intro process inLine other joined
    rcases inTurn.inside process inLine with ⟨inside, notForking⟩
    rw [calm.forkqueue process inside] at notForking
    left
    rw [(calm.starting joined).2]
    exact Nat.lt_of_not_le notForking

/-- Who comes next has not run yet. -/
theorem fresh_forked (inTurn : InTurn script state) (calm : Calm script state) {process : Nat}
    (ready : process ∈ (forkOnSchedule state).readyqueue) : state.age process = 0 := by
  have forks := forkOnSchedule_forks state calm.between.invariant.placed.forkqueue_nodup
  rw [forks.readyqueue] at ready
  rcases List.mem_append.mp ready with before | joined
  · exact inTurn.fresh process before
  · exact calm.early process (List.mem_filter.mp joined).1

private theorem fresh_round (plain : script.Plain) (inTurn : InTurn script state) (calm : Calm script state)
    (round : Round fcfsScheduler (forkOnSchedule state) left last after) (later : Calm script after) {process : Nat}
    (ready : process ∈ after.readyqueue) : after.age process = 0 := by
  have waits : servedBy last ≠ some process := by
    intro served
    have placed := later.between.invariant.placed
    rw [round.running, served] at placed
    have queued := State.queued_of_ready ready
    exact Nat.ne_of_gt queued placed.of_detached.2.1
  have kept : process ∈ (forkOnSchedule state).readyqueue := by
    rcases calm.fcfs_round round with ⟨_, _, _, _, same⟩ | ⟨_, same⟩
    · rw [← same]
      exact ready
    · rw [← same]
      exact List.mem_append_right _ ready
  rw [(calm.serves plain round).aged process, if_neg waits, inTurn.fresh_forked calm kept]

/-- A process that is served goes on with its block or begins it. -/
private theorem block_served (plain : script.Plain) (inTurn : InTurn script state) (calm : Calm script state)
    (round : Round fcfsScheduler (forkOnSchedule state) left last after) {process : Nat}
    (served : servedBy last = some process) : Exists fun begins => (script.description process).startsAt ≤ begins ∧
      state.ticksOf (.ran process) = List.range' begins (state.age process) ∧
        begins + state.age process = state.ticks := by
  rcases calm.fcfs_round round with ⟨current, runs, _, goesOn, _⟩ | ⟨_, next⟩
  · cases goesOn.symm.trans served
    rcases inTurn.block process with ⟨begins, started, ran, now, _⟩
    exact ⟨begins, started, ran, now runs⟩
  · have ready : process ∈ (forkOnSchedule state).readyqueue := by
      rw [← next, served]
      exact List.mem_cons_self
    have fresh := inTurn.fresh_forked calm ready
    rcases inTurn.block process with ⟨begins, _, ran, _⟩
    have started : (script.description process).startsAt ≤ state.ticks := by
      have serves := calm.serves plain round
      rw [served] at serves
      generalize after.age = age at serves
      cases serves with
      | serve _ _ works => exact (Workload.released process works).1
    refine ⟨state.ticks, started, ?_, ?_⟩
    · rw [ran, fresh]
      rfl
    · rw [fresh]
      rfl

/-- A round keeps the blocks in one piece. -/
theorem block_round (plain : script.Plain) (inTurn : InTurn script state) (calm : Calm script state)
    (departed : Departed script state) (round : Round fcfsScheduler (forkOnSchedule state) left last after)
    (process : Nat) : Exists fun begins => (script.description process).startsAt ≤ begins ∧
      after.ticksOf (.ran process) = List.range' begins (after.age process) ∧
        (after.running = some process -> begins + after.age process = after.ticks) ∧
          forall tick, (tick, process) ∈ after.exits -> begins + after.age process = tick := by
  have forks := forkOnSchedule_forks state calm.between.invariant.placed.forkqueue_nodup
  have age := (calm.serves plain round).aged process
  rw [calm.ticksOf_ran round, round.running]
  by_cases served : servedBy last = some process
  · rcases inTurn.block_served plain calm round served with ⟨begins, started, ran, now⟩
    rw [if_pos served] at age ⊢
    refine ⟨begins, started, ?_, ?_, ?_⟩
    · rw [age, List.range'_1_concat, ran, now]
    · intro _
      have clock := round.ticks
      have goesOn : left ≠ true := by
        rintro rfl
        cases served.symm.trans ((calm.left_iff round).mp rfl).1
      rw [if_neg goesOn, forks.ticks] at clock
      omega
    · intro tick exited
      have gone := ((departed.next plain calm round).mem process).mp (List.mem_map_of_mem exited)
      rw [round.running] at gone
      exact absurd served gone.2
  · rcases inTurn.block process with ⟨begins, started, ran, now, earlier⟩
    rw [if_neg served, Nat.add_zero] at age
    rw [if_neg served, List.append_nil, age]
    refine ⟨begins, started, ran, fun runs => absurd runs served, ?_⟩
    intro tick exited
    rw [calm.exits_round round] at exited
    rcases List.mem_append.mp exited with before | departs
    · exact earlier tick before
    · rcases List.mem_map.mp departs with ⟨other, departing, same⟩
      cases same
      exact now ((calm.mem_departing process).mp departing).2

theorem next (plain : script.Plain) (inTurn : InTurn script state) (calm : Calm script state)
    (departed : Departed script state) (round : Round fcfsScheduler (forkOnSchedule state) left last after)
    (later : Calm script after) : InTurn script after := by
  have forks := forkOnSchedule_forks state calm.between.invariant.placed.forkqueue_nodup
  have forkqueue : after.forkqueue.Sublist state.forkqueue := by
    rw [round.forkqueue, forks.forkqueue]
    exact List.filter_sublist
  constructor
  case ordered => exact inTurn.ordered_round calm round
  case inside =>
    intro process inLine
    rw [calm.line_round round] at inLine
    rcases List.mem_append.mp inLine with before | joined
    · rcases inTurn.inside process before with ⟨inside, notForking⟩
      exact ⟨inside, fun member => notForking (forkqueue.subset member)⟩
    · rcases calm.starting joined with ⟨inside, starts⟩
      refine ⟨inside, ?_⟩
      rw [round.forkqueue, calm.forked_mem inside, starts]
      exact Nat.lt_irrefl _
  case forkqueue => exact inTurn.forkqueue.sublist forkqueue
  case fresh => exact fun process ready => inTurn.fresh_round plain calm round later ready
  case forked =>
    intro process inside
    rw [calm.ticksOf_forked round, inTurn.forked process inside]
    by_cases member : process ∈ state.forkqueue
    · by_cases remains : process ∈ after.forkqueue
      · rw [if_pos member, if_neg fun joins => joins.2 remains, if_pos remains]
        rfl
      · rw [if_pos member, if_pos ⟨member, remains⟩, if_neg remains]
        rfl
    · rw [if_neg member, if_neg fun joins => member joins.1, if_neg fun later => member (forkqueue.subset later)]
      rfl
  case block => exact inTurn.block_round plain calm departed round

end InTurn

/-- Without acquires fcfs forks each process at its start tick and lets it run in
one block, and the processes exit in the order in which they start. -/
theorem fcfs_in_turn {script : Script} (plain : script.Plain) :
    (Exists fun rounds => Exists fun state => Simulates fcfsScheduler script rounds true state) ∧
      forall {rounds : Nat} {state : State}, Simulates fcfsScheduler script rounds true state ->
        (state.exits.map Prod.snd).Perm (List.range script.length) ∧
          (state.exits.map Prod.snd).Pairwise script.Earlier ∧
            forall process, process < script.length ->
              state.ticksOf (.forked process) = [(script.description process).startsAt] ∧
                Exists fun begins => (script.description process).startsAt ≤ begins ∧
                  state.ticksOf (.ran process) = List.range' begins (script.description process).lifespan ∧
                    (begins + (script.description process).lifespan, process) ∈ state.exits := by
  have lawful : Lawful fcfsScheduler := SchedulerName.lawful .fcfs
  refine ⟨lawful.exists_left plain.valid, ?_⟩
  intro rounds state simulates
  have round : forall state, (Calm script state ∧ Departed script state ∧ InTurn script state) ->
      Exists fun left => Exists fun after => iteration fcfsScheduler state = .ok (left, after) ∧
        (Calm script after ∧ Departed script after ∧ InTurn script after) ∧ (left = true -> True) := by
    rintro state ⟨calm, departed, inTurn⟩
    rcases calm.round plain lawful with ⟨left, last, after, ran, round, later⟩
    exact ⟨left, after, ran, ⟨later, departed.next plain calm round, inTurn.next plain calm departed round later⟩,
      fun _ => trivial⟩
  have initially := And.intro (Calm.initial plain) (And.intro (Departed.initial plain) (InTurn.initial script))
  rcases (simulates.invariant _ round initially).1 with ⟨_, departed, inTurn⟩
  have exited := simulates.exited plain lawful
  refine ⟨exited, (List.pairwise_append.mp inTurn.ordered).1, ?_⟩
  intro process inside
  have member : process ∈ state.exits.map Prod.snd := exited.mem_iff.mpr (List.mem_range.mpr inside)
  have forked := inTurn.forked process inside
  rw [if_neg (inTurn.inside process (List.mem_append_left _ member)).2] at forked
  have completed : state.age process = (script.description process).lifespan :=
    (Finset.mem_filter.mp ((departed.mem process).mp member).1).2
  rcases inTurn.block process with ⟨begins, started, ran, _, exits⟩
  rcases List.mem_map.mp member with ⟨⟨tick, other⟩, exit, same⟩
  have sameProcess : other = process := same
  subst other
  have now := exits tick exit
  rw [completed] at ran now
  rw [← now] at exit
  exact ⟨forked, begins, started, ran, exit⟩

theorem fcfs_in_turn_staggered : Exists fun rounds => Exists fun state =>
    Simulates fcfsScheduler staggered rounds true state ∧ (state.exits.map Prod.snd).Pairwise staggered.Earlier := by
  rcases fcfs_in_turn staggered_plain with ⟨⟨rounds, state, simulates⟩, inTurn⟩
  exact ⟨rounds, state, simulates, (inTurn simulates).2.1⟩

end Sched
end OsPa
