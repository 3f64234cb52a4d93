import OsPa.Sched.Lifespans
import OsPa.Sched.Links

namespace OsPa
namespace Sched

open Library

/-!
# Processes with nothing to do

The loader accepts a process without a lifespan.  Also with such processes a script
without acquires never runs into a fault, and in every round somebody becomes
older unless nobody is ready.  So a process of lifespan 0 is run sooner or later,
after which it is older than it should be.
-/

/-- What a script without acquires leaves alone. -/
structure Unladen (script : Script) (state : State) : Prop where
  unwaited : forall r, state.waitqueue r = []
  pending : forall process, (state.process process).resourcesToAcquire = []
  holding : forall process, (state.process process).resourcesHolding = []
  inside : forall process, 0 < state.queued process -> process < script.length
  current : forall process, state.current = some process -> process < script.length
  startsAt : forall process, (state.process process).startsAt = (script.description process).startsAt
  lifespan : forall process, (state.process process).lifespan = (script.description process).lifespan

section Unladen

variable {script : Script} {sched : Scheduler} {state scheduled updated : State} {next : Option Nat}

theorem Unladen.initial (acquires : forall description, description ∈ script -> description.acquires = []) :
    Unladen script script.initial := by
  refine ⟨fun _ => rfl, Script.description_acquires acquires, fun _ => rfl, ?_,
    fun _ never => absurd never.symm (Option.some_ne_none _), fun _ => rfl, fun _ => rfl⟩
  intro process found
  rw [script.queued_initial] at found
  exact List.mem_range.mp (List.count_pos_iff.mp found)

/-- Only the status changes, and the links are those of before. -/
theorem Unladen.congr {after : State} (unladen : Unladen script state) (waitqueue : after.waitqueue = state.waitqueue)
    (queued : forall process, after.queued process = state.queued process) (current : after.current = state.current)
    (process : forall process, Exists fun status =>
      after.process process = { state.process process with status := status }) : Unladen script after := by
  constructor
  case unwaited => exact fun r => (congrFun waitqueue r).trans (unladen.unwaited r)
  case pending =>
    intro other
    rcases process other with ⟨status, same⟩
    rw [same]
    exact unladen.pending other
  case holding =>
    intro other
    rcases process other with ⟨status, same⟩
    rw [same]
    exact unladen.holding other
  case inside =>
    intro other found
    rw [queued] at found
    exact unladen.inside other found
  case current =>
    rw [current]
    exact unladen.current
  case startsAt =>
    intro other
    rcases process other with ⟨status, same⟩
    rw [same]
    exact unladen.startsAt other
  case lifespan =>
    intro other
    rcases process other with ⟨status, same⟩
    rw [same]
    exact unladen.lifespan other

theorem Unladen.forkOnSchedule (unladen : Unladen script state) (nodup : state.forkqueue.Nodup) :
    Unladen script (forkOnSchedule state) := by
  apply forkOnSchedule_rule (Unladen script) _ nodup unladen
  intro state process member unladen
  have forked : Unladen script (state.fork process) :=
    unladen.congr rfl (State.queued_fork member) rfl fun other => ⟨_, state.fork_process process other⟩
  exact ⟨forked.unwaited, forked.pending, forked.holding, forked.inside, forked.current, forked.startsAt,
    forked.lifespan⟩

/-- The choice of the next process. -/
theorem Unladen.chosen (unladen : Unladen script state) (law : Scheduled state next scheduled) :
    Unladen script { scheduled with current := next } := by
  rcases law.others with ⟨prio, others⟩
  have ready : forall process, process ∈ next.toList ++ scheduled.readyqueue -> process < script.length := by
    intro process member
    rcases List.mem_append.mp (law.moved.subset member) with queued | runs
    · exact unladen.inside process (State.queued_of_ready queued)
    · exact unladen.current process (Option.filter_eq_some_iff.mp (Option.mem_toList.mp runs)).1
  rw [others]
  refine ⟨unladen.unwaited, unladen.pending, unladen.holding, ?_, ?_, unladen.startsAt, unladen.lifespan⟩
  · intro process found
    rcases State.attached_iff.mpr found with forks | readies | ⟨r, waits⟩
    · exact unladen.inside process (State.queued_of_forking forks)
    · exact ready process (List.mem_append_right _ readies)
    · exact unladen.inside process (State.queued_of_waiting waits)
  · intro process chosen
    exact ready process (List.mem_append_left _ (Option.mem_toList.mpr chosen))

/-- The previous process passes the assertions when it exits. -/
theorem Unladen.retires (unladen : Unladen script state) (tied : Tied (.forking [], state))
    (law : Scheduled state next scheduled) :
    Exists fun updated => retire state.current { scheduled with current := next } = .ok updated := by
  cases isCurrent : state.current with
  | none => exact ⟨_, rfl⟩
  | some current =>
      let chosen : State := { scheduled with current := next }
      cases tied with
      | forking linked attending nodup members =>
          rcases law.others with ⟨prio, others⟩
          have same : chosen.process current = { state.process current with prio := prio current } :=
            congrArg (fun scheduled : State => scheduled.process current) others
          rcases attending current isCurrent with runs | ⟨r, waits⟩
          · have runs' : (chosen.process current).status = .running := (congrArg Process.status same).trans runs
            by_cases completed : (chosen.process current).age = (chosen.process current).lifespan
            · refine ⟨_, retire_completed chosen runs' completed ?_ ?_ ?_⟩
              · -- It is not put back into the queue.
                have idle : state.runnable.toList.count current = 0 := by
                  apply List.count_eq_zero.mpr
                  intro member
                  have young := (Option.filter_eq_some_iff.mp (Option.mem_toList.mp member)).2
                  rw [Bool.and_eq_true, decide_eq_true_iff, decide_eq_true_iff] at young
                  have age := congrArg Process.age same
                  have lifespan := congrArg Process.lifespan same
                  dsimp only at age lifespan
                  omega
                have once := linked.once current
                have moved := law.queued current
                rw [State.running_eq_some.mpr ⟨isCurrent, runs⟩, if_pos rfl] at once
                have unlinked : state.queued current = 0 := by omega
                exact Nat.eq_zero_of_add_eq_zero_right (moved.trans (by rw [unlinked, idle]))
              · exact (congrArg Process.resourcesHolding same).trans (unladen.holding current)
              · exact (congrArg Process.resourcesToAcquire same).trans (unladen.pending current)
            · exact ⟨_, retire_young chosen runs' completed⟩
          · rw [unladen.unwaited r] at waits
            exact absurd waits List.not_mem_nil

/-- What a round without acquires does. -/
inductive Passes (sched : Scheduler) (forked : State) : Bool -> State -> Prop
  | leave {scheduled after : State} (chosen : sched.schedule forked = (none, scheduled))
      (forks : forked.forkqueue = []) : Passes sched forked true after
  | idle {scheduled after : State} (chosen : sched.schedule forked = (none, scheduled)) (age : after.age = forked.age)
      (ticks : after.ticks = forked.ticks + 1) (forkqueue : after.forkqueue = forked.forkqueue) :
      Passes sched forked false after
  | run {current : Nat} {scheduled after : State} (chosen : sched.schedule forked = (some current, scheduled))
      (age : after.age = Function.update forked.age current (forked.age current + 1))
      (ticks : after.ticks = forked.ticks + 1) (forkqueue : after.forkqueue = forked.forkqueue)
      (readyqueue : after.readyqueue = scheduled.readyqueue) : Passes sched forked false after

private theorem retire_ticks {prev : Option Nat} (retired : retire prev state = .ok updated) :
    updated.ticks = state.ticks ∧ updated.forkqueue = state.forkqueue := by
  rcases retire_cases retired with rfl | ⟨process, _, _, rfl⟩ | ⟨process, _, _, rfl⟩
  · exact ⟨rfl, rfl⟩
  · exact ⟨rfl, rfl⟩
  · exact ⟨rfl, rfl⟩

private theorem Kept.age {after : State} (kept : Kept state after) : after.age = state.age := by
  funext process
  rcases kept.process process with ⟨status, same⟩
  unfold State.age
  rw [same]

/-- A process that is chosen runs for a tick. -/
theorem Unladen.execute {current : Nat} (unladen : Unladen script state) (unlinked : state.queued current = 0) :
    execute sched current state = .ok ((state.setStatus current .running).grow current) := by
  have holding : (((state.setStatus current .running)).process current).resourcesHolding = [] := by
    rw [State.setStatus_process]
    exact unladen.holding current
  apply execute_of_granted unlinked
  · rw [unladen.pending current]
    rfl
  · rw [holding]
    rfl

theorem Unladen.grow {current : Nat} (unladen : Unladen script state) :
    Unladen script (((state.setStatus current .running).grow current).tick) := by
  let running := state.setStatus current .running
  have runs : Unladen script running :=
    unladen.congr rfl (fun _ => rfl) rfl fun process => ⟨_, state.setStatus_process current .running process⟩
  have field : forall {Field : Type} {field : Process -> Field},
      (forall record : Process, field record.grow = field record) -> forall process,
        field ((running.grow current).process process) = field (running.process process) :=
    fun keeps process => (running.print (.ran current)).field_modify current Process.grow keeps process
  refine ⟨runs.unwaited, ?_, ?_, runs.inside, runs.current, ?_, ?_⟩
  · exact fun process => (field (fun _ => rfl) process).trans (runs.pending process)
  · exact fun process => (field (fun _ => rfl) process).trans (runs.holding process)
  · exact fun process => (field (fun _ => rfl) process).trans (runs.startsAt process)
  · exact fun process => (field (fun _ => rfl) process).trans (runs.lifespan process)

/-- The next round of a script without acquires succeeds. -/
theorem Unladen.iteration (unladen : Unladen script state) (lawful : Lawful sched) (nodup : state.forkqueue.Nodup)
    (tied : Tied (.forking [], Sched.forkOnSchedule state)) :
    Exists fun left => Exists fun after => Sched.iteration sched state = .ok (left, after) ∧ Unladen script after ∧
      Passes sched (Sched.forkOnSchedule state) left after := by
  have forked := unladen.forkOnSchedule nodup
  cases chosen : sched.schedule (Sched.forkOnSchedule state) with
  | mk next scheduled =>
      have law : Scheduled (Sched.forkOnSchedule state) next scheduled := by
        have law := lawful.schedule (Sched.forkOnSchedule state)
        rw [chosen] at law
        exact law
      rcases forked.retires tied law with ⟨updated, retired⟩
      have unlinked : forall current, next = some current -> updated.queued current = 0 := by
        intro current isNext
        cases tied with
        | forking linked attending nodup members =>
            have once := (linked.dispatch attending law retired).once current
            rw [if_pos isNext] at once
            omega
      have kept := retire_kept retired
      have same := retire_ticks retired
      have unladen := (forked.chosen law).congr kept.waitqueue kept.queued kept.current kept.process
      rcases law.others with ⟨prio, others⟩
      have age : updated.age = (Sched.forkOnSchedule state).age :=
        kept.age.trans (congrArg State.age others : scheduled.age = _)
      have ticks : updated.ticks = (Sched.forkOnSchedule state).ticks :=
        same.1.trans (congrArg State.ticks others : scheduled.ticks = _)
      have forkqueue : updated.forkqueue = (Sched.forkOnSchedule state).forkqueue :=
        same.2.trans (congrArg State.forkqueue others : scheduled.forkqueue = _)
      have first : (sched.schedule (Sched.forkOnSchedule state)).1 = next := congrArg Prod.fst chosen
      have second : (sched.schedule (Sched.forkOnSchedule state)).2 = scheduled := congrArg Prod.snd chosen
      rw [← first, ← second] at retired
      cases isNext : next with
      | none =>
          rw [isNext] at chosen first
          rw [iteration_of_none retired first]
          split
          next empty => exact ⟨true, updated, rfl, unladen, .leave chosen (forkqueue.symm.trans empty.2)⟩
          next =>
            have printed : Unladen script (updated.print .idle).tick :=
              unladen.congr rfl (fun _ => rfl) rfl fun process => ⟨_, rfl⟩
            exact ⟨false, _, rfl, printed, .idle chosen age (congrArg Nat.succ ticks) forkqueue⟩
      | some current =>
          rw [isNext] at chosen first
          rw [iteration_of_some retired first (unladen.execute (unlinked current isNext))]
          have grown := (updated.setStatus current .running).grow_age current
          rw [State.setStatus_age, age] at grown
          exact ⟨false, _, rfl, unladen.grow, .run chosen grown (congrArg Nat.succ ticks) forkqueue kept.readyqueue⟩

end Unladen

/-! ## A process of lifespan 0 -/

/-- The ticks that the processes of a script have run. -/
def Script.served (script : Script) (state : State) : Nat :=
  (Finset.range script.length).sum state.age

/-- A process that is never chosen, and the time that the others have taken meanwhile. -/
structure Neglected (script : Script) (sched : Scheduler) (neglected rounds : Nat) (state : State) : Prop where
  simulates : Simulates sched script rounds false state
  unladen : Unladen script state
  ticks : state.ticks = rounds
  queued : neglected ∈ state.forkqueue ∨ neglected ∈ state.readyqueue
  waited : rounds ≤ (script.description neglected).startsAt + script.served state

section Neglected

variable {script : Script} {sched : Scheduler} {state : State} {neglected rounds : Nat}

private theorem Script.served_update {after : State} {current : Nat} (inside : current < script.length)
    (age : after.age = Function.update state.age current (state.age current + 1)) :
    script.served after = script.served state + 1 := by
  have member := Finset.mem_range.mpr inside
  unfold Script.served
  rw [age, Finset.sum_update_of_mem member, ← Finset.sum_sdiff (Finset.singleton_subset_iff.mpr member),
    Finset.sum_singleton]
  omega

/-- In a further round the process is not chosen either, since it would be too old. -/
theorem Neglected.next (lawful : Lawful sched) (guarded : Guarded sched) (inside : neglected < script.length)
    (lifespan : (script.description neglected).lifespan = 0)
    (served : forall reached, Reaches sched script reached -> script.ServedOut reached)
    (past : Neglected script sched neglected rounds state) :
    Exists fun after => Neglected script sched neglected (rounds + 1) after := by
  have tied := past.simulates.scheduling.tied lawful guarded
  have nodup : state.forkqueue.Nodup := by
    cases past.simulates.reaches.tied lawful guarded with
    | closing linked attending => exact linked.forkqueue_nodup
  have forks := forkOnSchedule_forks state nodup
  have forked := past.unladen.forkOnSchedule nodup
  -- It is still in a list after the forks, in the fork queue only before its time.
  have queued : (neglected ∈ (forkOnSchedule state).forkqueue ∧ rounds < (script.description neglected).startsAt) ∨
      neglected ∈ (forkOnSchedule state).readyqueue := by
    by_cases arrived : state.Arrived neglected
    · refine Or.inr (forks.readyqueue ▸ List.mem_append.mpr (past.queued.symm.imp id fun forking => ?_))
      exact List.mem_filter.mpr ⟨forking, decide_eq_true arrived⟩
    · rcases past.queued with forking | ready
      · have later := Nat.lt_of_not_le arrived
        rw [past.unladen.startsAt, past.ticks] at later
        exact Or.inl ⟨forks.forkqueue ▸ List.mem_filter.mpr ⟨forking, decide_eq_true (Or.inr arrived)⟩, later⟩
      · exact Or.inr (forks.readyqueue ▸ List.mem_append_left _ ready)
  rcases past.unladen.iteration lawful nodup tied with ⟨left, after, ran, unladen, passes⟩
  have simulates := past.simulates.next ran
  have clock : (forkOnSchedule state).ticks + 1 = rounds + 1 := by rw [forks.ticks, past.ticks]
  have unready : forall {scheduled : State}, sched.schedule (forkOnSchedule state) = (none, scheduled) ->
      neglected ∉ (forkOnSchedule state).readyqueue := by
    intro scheduled chosen ready
    have law := lawful.schedule (forkOnSchedule state)
    rw [chosen] at law
    have member := law.moved.symm.subset (List.mem_append_left _ ready)
    rw [law.idle rfl] at member
    exact absurd member List.not_mem_nil
  cases passes with
  | leave chosen empty =>
      rcases queued with ⟨forking, early⟩ | ready
      · rw [empty] at forking
        exact absurd forking List.not_mem_nil
      · exact absurd ready (unready chosen)
  | idle chosen age ticks forkqueue =>
      rcases queued with ⟨forking, early⟩ | ready
      · refine ⟨after, simulates, unladen, ticks.trans clock, Or.inl (forkqueue ▸ forking), ?_⟩
        omega
      · exact absurd ready (unready chosen)
  | @run current scheduled _ chosen age ticks forkqueue readyqueue =>
      have law := lawful.schedule (forkOnSchedule state)
      rw [chosen] at law
      have different : neglected ≠ current := by
        rintro rfl
        have young : after.age neglected ≤ (after.process neglected).lifespan :=
          ((served _ simulates.reaches).2.1 neglected inside).age
        have older := congrFun age neglected
        rw [unladen.lifespan, lifespan] at young
        rw [Function.update_self] at older
        omega
      have within := (forked.chosen law).current current rfl
      refine ⟨after, simulates, unladen, ticks.trans clock, ?_, ?_⟩
      · rw [forkqueue, readyqueue]
        refine queued.imp And.left fun ready => ?_
        rcases List.mem_append.mp (law.moved.symm.subset (List.mem_append_left _ ready)) with chosen | remains
        · exact absurd (Option.some.inj (Option.mem_toList.mp chosen)).symm different
        · exact remains
      · have waited := past.waited
        have more := Script.served_update within age
        have same : script.served (forkOnSchedule state) = script.served state :=
          congrArg (Finset.range script.length).sum forks.age
        omega

/-- As long as everybody is served, nobody takes so many ticks. -/
private theorem Neglected.rounds_le (served : script.ServedOut (.closing false, state))
    (past : Neglected script sched neglected rounds state) :
    rounds ≤ (script.description neglected).startsAt +
      (Finset.range script.length).sum fun process => (script.description process).lifespan := by
  refine Nat.le_trans past.waited (Nat.add_le_add_left (Finset.sum_le_sum fun process member => ?_) _)
  have young := (served.2.1 process (Finset.mem_range.mp member)).age
  rw [past.unladen.lifespan] at young
  exact young

end Neglected

/-- Without acquires, everybody is served to the end under each scheduler exactly
if everybody has something to do. -/
theorem servedOut_iff (name : SchedulerName) {script : Script}
    (acquires : forall description, description ∈ script -> description.acquires = []) :
    (forall reached, Reaches name.scheduler script reached -> script.ServedOut reached) ↔
      forall description, description ∈ script -> 1 ≤ description.lifespan := by
  constructor
  case mpr => exact fun lifespan reached reaches => reaches.servedOut ⟨acquires, lifespan⟩ name.lawful
  case mp =>
    intro served
    by_contra vain
    rw [not_forall] at vain
    rcases vain with ⟨description, vain⟩
    rcases Classical.not_imp.mp vain with ⟨member, vain⟩
    rcases List.mem_iff_getElem.mp member with ⟨neglected, inside, rfl⟩
    have lifespan : (script.description neglected).lifespan = 0 := by
      rw [Script.description, List.getD_eq_getElem?_getD, List.getElem?_eq_getElem inside, Option.getD_some]
      omega
    have all : forall rounds, Exists fun state => Neglected script name.scheduler neglected rounds state := by
      intro rounds
      induction rounds with
      | zero =>
          refine ⟨script.initial, ⟨⟨[], rfl, rfl⟩, Unladen.initial acquires, rfl, Or.inl ?_, Nat.zero_le _⟩⟩
          exact List.mem_range.mpr inside
      | succ rounds inductionHypothesis =>
          rcases inductionHypothesis with ⟨state, past⟩
          exact past.next name.lawful name.guarded inside lifespan served
    rcases all ((script.description neglected).startsAt +
      ((Finset.range script.length).sum fun process => (script.description process).lifespan) + 1) with ⟨state, past⟩
    have few := past.rounds_le (served _ past.simulates.reaches)
    omega

/-- Two processes, and a tick between them at which nobody runs. -/
def apart : Script := [⟨1, 2, 0, 0, []⟩, ⟨2, 1, 0, 3, []⟩]

theorem servedOut_iff_apart : Exists fun state => Simulates rrScheduler apart 5 true state ∧
    state.departed = [0, 1] ∧ apart.ServedOut (.closing true, state) := by
  have simulates : Simulates rrScheduler apart 5 true _ := ⟨_, rfl, rfl⟩
  have ends : Exists fun state => Simulates rrScheduler apart 5 true state ∧ state.departed = [0, 1] :=
    ⟨_, simulates, by decide⟩
  rcases ends with ⟨state, simulates, departed⟩
  exact ⟨state, simulates, departed, (servedOut_iff .rr (by decide)).mpr (by decide) _ simulates.reaches⟩

/-- A process without a lifespan. -/
def idler : Script := [⟨1, 0, 0, 0, []⟩]

/-- The simulation ends without the exit of the process, which is one tick old. -/
theorem idler_vanishes : (forall description, description ∈ idler -> description.acquires = []) ∧
    Exists fun state => Reaches fcfsScheduler idler (.closing true, state) ∧
      state.age 0 = 1 ∧ (state.process 0).lifespan = 0 ∧ state.departed = [] ∧
      ¬ idler.ServedOut (.closing true, state) := by
  have simulates : Simulates fcfsScheduler idler 2 true _ := ⟨_, rfl, rfl⟩
  have ends : Exists fun state => Simulates fcfsScheduler idler 2 true state ∧
      state.age 0 = 1 ∧ (state.process 0).lifespan = 0 ∧ state.departed = [] :=
    ⟨_, simulates, by decide, by decide, by decide⟩
  rcases ends with ⟨state, simulates, age, lifespan, departed⟩
  refine ⟨by decide, state, simulates.reaches, age, lifespan, departed, ?_⟩
  intro served
  have young : state.age 0 ≤ (state.process 0).lifespan := (served.2.1 0 (by decide)).age
  rw [age, lifespan] at young
  exact absurd young (by decide)

end Sched
end OsPa
