import Mathlib.Algebra.Order.BigOperators.Group.Finset
import Mathlib.Data.Prod.Lex
import Mathlib.Order.Lattice.Nat
import OsPa.Sched.Safety
import OsPa.Sched.Steps

namespace OsPa
namespace Sched

open Library

/-!
# The simulation ends

A round makes a process older, or blocks one, or waits for one that starts
later.  None of these can go on for ever, but a process that becomes older may
wake up others, and a process that is blocked keeps the clock running.  What is
left to do is therefore compared in the order of importance, and every single
step of the loop makes it smaller.
-/

/-- The ticks that a process still has to run. -/
def Process.work (process : Process) : Nat := process.lifespan - process.age

def State.work (script : Script) (state : State) : Nat :=
  (Finset.range script.length).sum fun process => (state.process process).work

/-- Neither blocked nor gone. -/
def State.Awake (state : State) (process : Nat) : Prop :=
  (state.process process).status ≠ .exit ∧ forall r, process ∉ state.waitqueue r

instance (state : State) : DecidablePred state.Awake :=
  fun process => inferInstanceAs (Decidable (_ ∧ forall r, process ∉ state.waitqueue r))

def State.awake (script : Script) (state : State) : Nat := ((Finset.range script.length).filter state.Awake).card

/-- The ticks until the last process of the script starts. -/
def State.early (script : Script) (state : State) : Nat :=
  ((Finset.range script.length).sup fun process => (state.process process).startsAt) - state.ticks

namespace Phase

/-- The parts of a round in the order from its end. -/
def stage : Phase -> Nat
  | .closing true => 0
  | .releasing .. => 1
  | .acquiring .. => 2
  | .forking _ => 3
  | .closing false => 4

/-- The entries that the loop of the phase has in front of it. -/
def ahead : Phase -> Nat
  | .closing _ => 0
  | .forking todo => todo.length
  | .acquiring _ _ todo => todo.length
  | .releasing _ _ todo => todo.length

/-- The process has become older in this round. -/
def aged : Phase -> Nat
  | .releasing .. => 1
  | _ => 0

end Phase

/-- What is left to do. -/
def rank (script : Script) (configuration : Configuration) : Nat ×ₗ Nat ×ₗ Nat ×ₗ Nat ×ₗ Nat ×ₗ Nat :=
  toLex (2 * configuration.2.work script + configuration.1.aged,
    toLex (configuration.1.aged * configuration.1.ahead,
      toLex (configuration.2.awake script,
        toLex (configuration.2.early script, toLex (configuration.1.stage, configuration.1.ahead)))))

section Parts

variable {script : Script} {before after : State}

private theorem State.work_congr (same : forall process, (after.process process).work = (before.process process).work) :
    after.work script = before.work script :=
  Finset.sum_congr rfl fun process _ => same process

/-- A process that becomes older has less to do. -/
private theorem State.work_grow {current : Nat} (inside : current < script.length)
    (young : (before.process current).age < (before.process current).lifespan) :
    (before.grow current).work script < before.work script := by
  have itself : ((before.grow current).process current).work < (before.process current).work := by
    rw [State.grow_process_self]
    exact Nat.sub_lt_sub_left young (Nat.lt_succ_self _)
  apply Finset.sum_lt_sum
  · intro process _
    by_cases same : process = current
    · subst process
      exact Nat.le_of_lt itself
    · rw [before.grow_process_of_ne same]
  · exact ⟨current, Finset.mem_range.mpr inside, itself⟩

private theorem State.awake_le (fewer : forall process, after.Awake process -> before.Awake process) :
    after.awake script ≤ before.awake script := by
  apply Finset.card_le_card
  intro process member
  rw [Finset.mem_filter] at member ⊢
  exact ⟨member.1, fewer process member.2⟩

private theorem State.awake_lt (fewer : forall process, after.Awake process -> before.Awake process) {current : Nat}
    (inside : current < script.length) (awake : before.Awake current) (asleep : ¬ after.Awake current) :
    after.awake script < before.awake script := by
  apply Finset.card_lt_card
  rw [Finset.ssubset_iff_of_subset]
  · refine ⟨current, Finset.mem_filter.mpr ⟨Finset.mem_range.mpr inside, awake⟩, ?_⟩
    exact fun member => asleep (Finset.mem_filter.mp member).2
  · intro process member
    rw [Finset.mem_filter] at member ⊢
    exact ⟨member.1, fewer process member.2⟩

theorem State.early_congr
    (same : forall process, (after.process process).startsAt = (before.process process).startsAt) :
    after.early script =
      ((Finset.range script.length).sup fun process => (before.process process).startsAt) - after.ticks := by
  unfold State.early
  congr 1
  exact Finset.sup_congr rfl fun process _ => same process

/-- While a process waits for its start the clock counts. -/
private theorem State.early_tick {process : Nat} (inside : process < script.length)
    (late : before.ticks < (before.process process).startsAt)
    (same : forall process, (after.process process).startsAt = (before.process process).startsAt)
    (ticks : after.ticks = before.ticks + 1) : after.early script < before.early script := by
  let starts := fun process => (before.process process).startsAt
  have last : starts process ≤ (Finset.range script.length).sup starts := Finset.le_sup (Finset.mem_range.mpr inside)
  have waits : before.ticks < starts process := late
  rw [State.early_congr same, ticks]
  exact Nat.sub_lt_sub_left (Nat.lt_of_lt_of_le waits last) (Nat.lt_succ_self _)

end Parts

section Rank

variable {script : Script} {before after : Configuration} {events : List Event}

/-- A move that makes nobody older leaves the work as it is. -/
private theorem Move.work_eq (move : Move before events after) (nobody : before.1.growing = none) :
    after.2.work script = before.2.work script := by
  apply State.work_congr
  intro process
  have aged := move.aged process
  rw [nobody] at aged
  unfold Process.work
  rw [aged.lifespan, aged.age]
  rfl

/-- Bringing the previous process up to date wakes up nobody. -/
private theorem State.settle_alive (state : State) {process : Nat}
    (alive : (state.settle.process process).status ≠ .exit) : (state.process process).status ≠ .exit := by
  rcases state.settle_process process with ⟨status, settled, others⟩
  rw [settled] at alive
  intro exited
  apply alive
  apply (others _).trans exited
  intro runs
  exact ProcessStatus.noConfusion ((State.running_eq_some.mp runs).2.symm.trans exited)

/-- Before the process has become older nobody is woken up. -/
private theorem Move.awake_of_awake (sound : Sound script before) (move : Move before events after)
    (young : before.1.aged = 0) (process : Nat) (awake : after.2.Awake process) : before.2.Awake process := by
  cases move with
  | begin state => exact awake
  | wait early => exact awake
  | @fork forked todo state arrived =>
      cases sound with
      | forking between nodup members passed =>
          refine ⟨?_, awake.2⟩
          by_cases same : process = forked
          · subst process
            have queued := State.queued_of_forking (members forked List.mem_cons_self)
            exact (between.invariant.placed.of_queued queued).2.1
          · have unchanged : ((state.fork forked).print (.forked forked)).process process = state.process process :=
              State.fork_process_of_ne same
            exact unchanged ▸ awake.1
  | @leave prio state ready forks =>
      refine ⟨state.settle_alive awake.1, ?_⟩
      exact state.settle_waitqueue ▸ awake.2
  | @idle prio state ready forks =>
      refine ⟨state.settle_alive awake.1, ?_⟩
      exact state.settle_waitqueue ▸ awake.2
  | @choose prio state current readyqueue moved =>
      cases sound with
      | forking between =>
          refine ⟨?_, state.settle_waitqueue ▸ awake.2⟩
          apply state.settle_alive
          by_cases same : process = current
          · subst process
            have ready := between.settle.placed.ready current (moved.subset List.mem_cons_self)
            exact fun exited => ProcessStatus.noConfusion (ready.1.symm.trans exited)
          · have alive := awake.1
            dsimp only at alive
            rw [State.setStatus_process] at alive
            dsimp only at alive
            rw [if_neg same] at alive
            exact alive
  | pass notDue => exact awake
  | @grant prio state current kept todo rs r isDue indexed free =>
      refine ⟨?_, ?_⟩
      · by_cases same : process = current
        · subst process
          have alive := awake.1
          dsimp only at alive
          rw [State.take_process_self] at alive
          exact alive
        · have alive := awake.1
          dsimp only at alive
          rw [State.take_process_of_ne _ same] at alive
          exact alive
      · have waitqueue := state.waitqueue_setOwner r (some current)
        exact waitqueue ▸ awake.2
  | @refuse prio state current owner kept todo rs r isDue indexed owned =>
      have waitqueue := (state.setStatus current .blocked).waitqueue_setWaitqueue r (state.waitqueue r ++ [current])
      have apart : forall other : Fin nrResources,
          process ∉ Function.update state.waitqueue r (state.waitqueue r ++ [current]) other := by
        intro other waits
        apply awake.2 other
        exact (congrFun waitqueue other).symm ▸ waits
      have different : process ≠ current := by
        rintro rfl
        apply apart r
        rw [Function.update_self]
        exact List.mem_append_right _ List.mem_cons_self
      constructor
      · have alive : ((state.setStatus current .blocked).process process).status ≠ .exit := awake.1
        rw [State.setStatus_process] at alive
        dsimp only at alive
        rw [if_neg different] at alive
        exact alive
      · intro other waits
        apply apart other
        by_cases same : other = r
        · subst other
          rw [Function.update_self]
          exact List.mem_append_left _ waits
        · rw [Function.update_of_ne same]
          exact waits
  | grow current kept state =>
      refine ⟨?_, awake.2⟩
      have alive := awake.1
      dsimp only at alive
      by_cases same : process = current
      · subst process
        rw [State.grow_process_self] at alive
        exact alive
      · rw [state.grow_process_of_ne same] at alive
        exact alive
  | keep remains => cases young
  | release expires indexed released => cases young
  | finish current kept state => cases young

theorem rank_lt_iff : rank script after < rank script before ↔
    2 * after.2.work script + after.1.aged < 2 * before.2.work script + before.1.aged ∨
      2 * after.2.work script + after.1.aged = 2 * before.2.work script + before.1.aged ∧
        (after.1.aged * after.1.ahead < before.1.aged * before.1.ahead ∨
          after.1.aged * after.1.ahead = before.1.aged * before.1.ahead ∧
            (after.2.awake script < before.2.awake script ∨
              after.2.awake script = before.2.awake script ∧
                (after.2.early script < before.2.early script ∨
                  after.2.early script = before.2.early script ∧
                    (after.1.stage < before.1.stage ∨
                      after.1.stage = before.1.stage ∧ after.1.ahead < before.1.ahead)))) := by
  simp only [rank, Prod.Lex.toLex_lt_toLex]

/-- A step of the same round that makes nobody older and is not at its end. -/
private theorem rank_lt_of_ahead (work : after.2.work script = before.2.work script) (young : before.1.aged = 0)
    (still : after.1.aged = 0) (awake : after.2.awake script ≤ before.2.awake script)
    (early : after.2.early script ≤ before.2.early script)
    (ahead : after.1.stage < before.1.stage ∨ after.1.stage = before.1.stage ∧ after.1.ahead < before.1.ahead) :
    rank script after < rank script before := by
  rw [rank_lt_iff, work, young, still, Nat.zero_mul, Nat.zero_mul]
  omega

/-- Every step makes less what is left to do. -/
private theorem Move.rank_lt (sound : Sound script before) (move : Move before events after) :
    rank script after < rank script before := by
  have startsAt := fun process => (move.aged process).startsAt
  have early : after.2.ticks = before.2.ticks -> after.2.early script ≤ before.2.early script := by
    intro ticks
    rw [State.early_congr startsAt, ticks]
    exact Nat.le_refl _
  have awake : before.1.aged = 0 -> after.2.awake script ≤ before.2.awake script :=
    fun young => State.awake_le (move.awake_of_awake sound young)
  have work : before.1.growing = none -> after.2.work script = before.2.work script := move.work_eq
  cases move with
  | begin _ => exact rank_lt_of_ahead (work rfl) rfl rfl (awake rfl) (early rfl) (.inl (Nat.lt_succ_self 3))
  | wait _ => exact rank_lt_of_ahead (work rfl) rfl rfl (awake rfl) (early rfl) (.inr ⟨rfl, Nat.lt_succ_self _⟩)
  | fork _ => exact rank_lt_of_ahead (work rfl) rfl rfl (awake rfl) (early rfl) (.inr ⟨rfl, Nat.lt_succ_self _⟩)
  | leave _ _ _ => exact rank_lt_of_ahead (work rfl) rfl rfl (awake rfl) (early rfl) (.inl (Nat.succ_pos 2))
  | choose _ _ => exact rank_lt_of_ahead (work rfl) rfl rfl (awake rfl) (early rfl) (.inl (Nat.lt_succ_self 2))
  | pass _ => exact rank_lt_of_ahead (work rfl) rfl rfl (awake rfl) (early rfl) (.inr ⟨rfl, Nat.lt_succ_self _⟩)
  | grant _ _ _ _ =>
      exact rank_lt_of_ahead (work rfl) rfl rfl (awake rfl) (early rfl) (.inr ⟨rfl, Nat.lt_succ_self _⟩)
  | @idle prio state ready forks =>
      cases sound with
      | forking between _ _ passed =>
          rcases List.exists_mem_of_ne_nil _ forks with ⟨process, member⟩
          have inside := between.invariant.placed.lt_length (State.queued_of_forking member)
          have sooner := State.early_tick inside (passed process member List.not_mem_nil) startsAt rfl
          have sameWork := work rfl
          have fewer := awake rfl
          rw [rank_lt_iff, sameWork]
          dsimp only [Phase.aged] at fewer sooner ⊢
          omega
  | @refuse prio state current owner kept todo rs r isDue indexed owned =>
      cases sound with
      | acquiring acquiring =>
          have detached := acquiring.invariant.placed.of_detached
          have waitqueue := (state.setStatus current .blocked).waitqueue_setWaitqueue r (state.waitqueue r ++ [current])
          have was : state.Awake current := by
            refine ⟨detached.2.2, ?_⟩
            intro other waits
            have queued := State.queued_of_waiting waits
            omega
          have fewer := State.awake_lt (Move.awake_of_awake (Sound.acquiring acquiring)
            (.refuse prio isDue indexed owned) rfl) detached.1 was (by
              intro still
              apply still.2 r
              have member : current ∈ Function.update state.waitqueue r (state.waitqueue r ++ [current]) r := by
                rw [Function.update_self]
                exact List.mem_append_right _ List.mem_cons_self
              exact (congrFun waitqueue r).symm ▸ member)
          have sameWork := work rfl
          rw [rank_lt_iff, sameWork]
          dsimp only [Phase.aged] at fewer ⊢
          omega
  | grow current kept state =>
      cases sound with
      | acquiring acquiring =>
          have less := State.work_grow acquiring.invariant.placed.of_detached.1 acquiring.young
          rw [rank_lt_iff]
          dsimp only [Phase.aged]
          omega
  | keep remains =>
      have sameWork := work rfl
      rw [rank_lt_iff, sameWork]
      dsimp only [Phase.aged, Phase.ahead, List.length_cons]
      omega
  | release expires indexed released =>
      have sameWork := work rfl
      rw [rank_lt_iff, sameWork]
      dsimp only [Phase.aged, Phase.ahead, List.length_cons]
      omega
  | finish current kept state =>
      have sameWork := work rfl
      rw [rank_lt_iff, sameWork]
      dsimp only [Phase.aged]
      omega

end Rank

/-- A round that goes on leaves less to do. -/
theorem Between.rank_lt {script : Script} {sched : Scheduler} (valid : script.Valid) (lawful : Lawful sched)
    {state after : State} (between : Between script state) {left : Bool}
    (ran : Sched.iteration sched state = .ok (left, after)) :
    rank script (.closing left, after) < rank script (.closing false, state) := by
  have steps : forall {before after : Configuration}, Relation.TransGen (Step sched) before after ->
      Sound script before -> Sound script after ∧ rank script after < rank script before := by
    intro before after steps sound
    induction steps with
    | single step =>
        rcases step.move valid lawful sound with ⟨events, move⟩
        exact ⟨sound.move valid move, move.rank_lt sound⟩
    | tail _ step inductionHypothesis =>
        rcases step.move valid lawful inductionHypothesis.1 with ⟨events, move⟩
        have less := move.rank_lt inductionHypothesis.1
        exact ⟨inductionHypothesis.1.move valid move, lt_trans less inductionHypothesis.2⟩
  exact (steps (iteration_steps ran) (.closing between fun never => absurd never Bool.false_ne_true)).2

/-- With a lawful scheduler the loop is left. -/
theorem Lawful.exists_left {sched : Scheduler} (lawful : Lawful sched) {script : Script} (valid : script.Valid) :
    Exists fun rounds => Exists fun state => Simulates sched script rounds true state := by
  let remaining := fun state => rank script (.closing false, state)
  have progress : forall state, Between script state -> Exists fun left => Exists fun after =>
      (simulation sched).step () state = .ok (left, after) ∧ Between script after ∧
        (left = false -> remaining after < remaining state) := by
    intro state between
    rcases between.iteration valid lawful with ⟨left, after, ran, later, _⟩
    refine ⟨left, after, ran, later, ?_⟩
    intro goesOn
    have less := between.rank_lt valid lawful ran
    rw [goesOn] at less
    exact less
  rcases (simulation sched).run_ends wellFounded_lt remaining () progress valid.initial with
    ⟨rounds, outputs, final, ran, last⟩
  exact ⟨rounds, final, outputs, ran, last⟩

/-- The simulation of a valid script ends under each of the schedulers. -/
theorem simulation_ends (name : SchedulerName) {script : Script} (valid : script.Valid) :
    Exists fun rounds => Exists fun state => Simulates name.scheduler script rounds true state :=
  name.lawful.exists_left valid

theorem simulation_ends_crossing :
    Exists fun rounds => Exists fun state => Simulates pipScheduler crossing rounds true state :=
  simulation_ends .pip crossing_valid

end Sched
end OsPa
