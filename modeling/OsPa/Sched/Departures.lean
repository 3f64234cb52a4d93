import OsPa.Sched.Plain

namespace OsPa
namespace Sched

open Library

/-!
# Who has exited, and when

Without acquires a process that has completed exits in the next round.  So those
have exited who have completed, but for the one that has just run.  The ticks of
the exits can be added up from round to round: in each round every process that
has not completed yet is one tick further from the beginning.
-/

def exitOf (printed : Nat × Event) : Option (Nat × Nat) :=
  match printed.2 with
  | .exited process => some (printed.1, process)
  | _ => none

/-- The exits that have been printed, with their ticks. -/
def State.exits (state : State) : List (Nat × Nat) := state.stderr.filterMap exitOf

/-- Those have exited who have completed and do not run any more. -/
structure Departed (script : Script) (state : State) : Prop where
  nodup : (state.exits.map Prod.snd).Nodup
  mem : forall process, process ∈ state.exits.map Prod.snd ↔ process ∈ script.workload.finished state.age ∧
    state.running ≠ some process

section Departures

variable {script : Script} {sched : Scheduler} {state forked after : State} {left : Bool} {last : List Event}

theorem Round.running (round : Round sched forked left last after) : after.running = servedBy last := by
  cases round with
  | leave prio ready forks => rfl
  | idle prio ready forks => rfl
  | @run prio current scheduled chosen moved =>
      let running := (forked.dispatched prio (some current) scheduled.readyqueue).setStatus current .running
      have grown := congrArg Process.status (running.grow_process_self current)
      have runs := congrArg Process.status
        ((forked.dispatched prio (some current) scheduled.readyqueue).setStatus_process current .running current)
      apply State.running_eq_some.mpr
      refine ⟨rfl, grown.trans (runs.trans ?_)⟩
      exact if_pos rfl

/-- The process that has completed exits. -/
theorem Calm.exits_round (calm : Calm script state) (round : Round sched (forkOnSchedule state) left last after) :
    after.exits = state.exits ++ state.departing.map fun process => (state.ticks, process) := by
  have forked : (state.forkqueue.filter fun process => state.Arrived process).filterMap
      (fun process => exitOf (state.ticks, .forked process)) = [] :=
    List.filterMap_eq_nil_iff.mpr fun _ _ => rfl
  have exited : state.departing.filterMap (fun process => exitOf (state.ticks, .exited process)) =
      state.departing.map fun process => (state.ticks, process) :=
    congrFun List.filterMap_eq_map state.departing
  have later : last.filterMap (fun event => exitOf (state.ticks, event)) = [] := by
    cases round <;> rfl
  unfold State.exits
  rw [calm.printed round, List.filterMap_append, List.filterMap_map]
  apply congrArg
  calc
    _ = (state.forkqueue.filter fun process => state.Arrived process).filterMap
          (fun process => exitOf (state.ticks, .forked process)) ++
        (state.departing.filterMap (fun process => exitOf (state.ticks, .exited process)) ++
          last.filterMap fun event => exitOf (state.ticks, event)) := by
      rw [List.filterMap_append, List.filterMap_append, List.filterMap_map, List.filterMap_map]
      rfl
    _ = state.departing.map fun process => (state.ticks, process) := by
      rw [forked, exited, later, List.nil_append, List.append_nil]

theorem Calm.exited_round (calm : Calm script state) (round : Round sched (forkOnSchedule state) left last after) :
    after.exits.map Prod.snd = state.exits.map Prod.snd ++ state.departing := by
  rw [calm.exits_round round, List.map_append, List.map_map]
  exact congrArg _ (List.map_id _)

/-- Who runs and has completed departs. -/
theorem Calm.mem_departing (calm : Calm script state) (process : Nat) :
    process ∈ state.departing ↔ process ∈ script.workload.finished state.age ∧ state.running = some process := by
  unfold State.departing
  cases isRunning : state.running with
  | none => exact iff_of_false List.not_mem_nil fun both => absurd both.2.symm (Option.some_ne_none process)
  | some current =>
      have completed := (calm.between.running current isRunning).1
      have lifespan := calm.between.invariant.placed.lifespan current
      have placed : Placed script (some current) state := isRunning ▸ calm.between.invariant.placed
      have inside := placed.of_detached.1
      dsimp only
      split
      case isTrue young =>
        apply iff_of_false List.not_mem_nil
        rintro ⟨finished, same⟩
        cases same
        have done : (state.process process).age = (script.description process).lifespan :=
          (Finset.mem_filter.mp finished).2
        omega
      case isFalse old =>
        have done : (state.process current).age = (script.description current).lifespan := by omega
        rw [List.mem_singleton]
        constructor
        · rintro rfl
          exact ⟨Finset.mem_filter.mpr ⟨Finset.mem_range.mpr inside, done⟩, rfl⟩
        · exact fun both => (Option.some_inj.mp both.2).symm

/-- In each round those have exited who had completed before it. -/
theorem Departed.round (calm : Calm script state) (departed : Departed script state)
    (round : Round sched (forkOnSchedule state) left last after) :
    (after.exits.map Prod.snd).Nodup ∧
      forall process, process ∈ after.exits.map Prod.snd ↔ process ∈ script.workload.finished state.age := by
  rw [calm.exited_round round]
  constructor
  · apply List.nodup_append'.mpr
    refine ⟨departed.nodup, ?_, ?_⟩
    · unfold State.departing
      split
      · exact List.nodup_nil
      · split
        · exact List.nodup_nil
        · exact List.nodup_singleton _
    · intro process exited departs
      exact ((departed.mem process).mp exited).2 ((calm.mem_departing process).mp departs).2
  · intro process
    rw [List.mem_append, departed.mem, calm.mem_departing]
    tauto

theorem Departed.next (plain : script.Plain) (calm : Calm script state) (departed : Departed script state)
    (round : Round sched (forkOnSchedule state) left last after) : Departed script after := by
  rcases departed.round calm round with ⟨nodup, mem⟩
  refine ⟨nodup, fun process => (mem process).trans ?_⟩
  have serves := calm.serves plain round
  rw [round.running]
  generalize after.age = age at serves ⊢
  generalize servedBy last = chosen at serves ⊢
  cases serves with
  | idle nothing => exact (and_iff_left (Option.some_ne_none process).symm).symm
  | serve current isJob works =>
      have available := Workload.released current works
      unfold Workload.finished
      rw [Finset.mem_filter, Finset.mem_filter]
      by_cases same : process = current
      · subst process
        exact iff_of_false (fun both => Nat.ne_of_lt available.2 both.2) fun both => both.2 rfl
      · rw [Function.update_of_ne same]
        exact (and_iff_left fun runs => same (Option.some_inj.mp runs).symm).symm

/-- The loop is not left before all processes have completed. -/
theorem Calm.finished (plain : script.Plain) (calm : Calm script state)
    (round : Round sched (forkOnSchedule state) true last after) :
    script.workload.finished state.age = script.workload.jobs := by
  rcases (calm.left_iff round).mp rfl with ⟨idle, started⟩
  have none := Finset.sum_eq_zero_iff.mp ((calm.serves plain round).idle_iff.mp idle)
  apply Finset.filter_eq_self.mpr
  intro process isJob
  have nothing := none process isJob
  have bounded := calm.within.bounded process isJob
  have released : script.workload.release process ≤ state.ticks := started process (Finset.mem_range.mp isJob)
  unfold Workload.left at nothing
  rw [if_pos released] at nothing
  omega

theorem Departed.initial (plain : script.Plain) : Departed script script.initial := by
  refine ⟨List.nodup_nil, fun process => iff_of_false List.not_mem_nil ?_⟩
  rintro ⟨finished, _⟩
  rcases Finset.mem_filter.mp finished with ⟨isJob, completed⟩
  have worthy := plain.lifespan _ (Script.description_mem (Finset.mem_range.mp isJob))
  exact Nat.ne_of_lt worthy completed

/-- All processes have exited when the loop is left. -/
theorem Simulates.exited (plain : script.Plain) (lawful : Lawful sched) {rounds : Nat}
    (simulates : Simulates sched script rounds true state) :
    (state.exits.map Prod.snd).Perm (List.range script.length) := by
  have round : forall state, Calm script state ∧ Departed script state -> Exists fun left => Exists fun after =>
      Sched.iteration sched state = .ok (left, after) ∧ (Calm script after ∧ Departed script after) ∧
        (left = true -> (after.exits.map Prod.snd).Perm (List.range script.length)) := by
    rintro state ⟨calm, departed⟩
    rcases calm.round plain lawful with ⟨left, last, after, ran, round, later⟩
    refine ⟨left, after, ran, ⟨later, departed.next plain calm round⟩, ?_⟩
    rintro rfl
    rcases departed.round calm round with ⟨nodup, mem⟩
    apply (List.perm_ext_iff_of_nodup nodup List.nodup_range).mpr
    intro process
    rw [mem, calm.finished plain round, List.mem_range]
    exact Finset.mem_range
  exact (simulates.invariant _ round ⟨Calm.initial plain, Departed.initial plain⟩).2 rfl

end Departures

end Sched
end OsPa
