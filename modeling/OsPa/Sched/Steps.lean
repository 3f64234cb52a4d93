import OsPa.Sched.Simulation

namespace OsPa
namespace Sched

open Library

/-!
# The loop in small steps

A round of the loop goes through the processes to fork, chooses one, goes through
what that process acquires, makes it older and goes through what it holds.
`Step` cuts the round at these places, so that a property of whole runs needs to
be looked at for one step at a time.  `iteration_steps` says that the rounds of
the loop are made of such steps.

A step of a lawful scheduler from a state of the invariant is a `Move`, which
names its effect and does not mention the scheduler any more.
-/

/-- Where the loop is in a round.  Between the rounds it has been left or goes
on. -/
inductive Phase
  | closing (left : Bool)
  | forking (todo : List Nat)
  | acquiring (current : Nat) (kept todo : List ResourceSchedule)
  | releasing (current : Nat) (kept todo : List ResourceSchedule)

abbrev Configuration := Phase × State

inductive Step (sched : Scheduler) : Configuration -> Configuration -> Prop
  | begin (state : State) : Step sched (.closing false, state) (.forking state.forkqueue, state)
  | visit (process : Nat) (todo : List Nat) (state : State) :
      Step sched (.forking (process :: todo), state) (.forking todo, forkProcess state process)
  | leave {state scheduled updated : State} (chosen : sched.schedule state = (none, scheduled))
      (retired : retire state.current { scheduled with current := none } = .ok updated)
      (empty : updated.readyqueue = [] ∧ updated.forkqueue = []) :
      Step sched (.forking [], state) (.closing true, updated)
  | idle {state scheduled updated : State} (chosen : sched.schedule state = (none, scheduled))
      (retired : retire state.current { scheduled with current := none } = .ok updated)
      (waits : ¬ (updated.readyqueue = [] ∧ updated.forkqueue = [])) :
      Step sched (.forking [], state) (.closing false, (updated.print .idle).tick)
  | choose {state scheduled updated : State} {current : Nat}
      (chosen : sched.schedule state = (some current, scheduled))
      (retired : retire state.current { scheduled with current := some current } = .ok updated)
      (unlinked : ¬ (updated.setStatus current .running).Attached current) :
      Step sched (.forking [], state)
        (.acquiring current [] ((updated.setStatus current .running).process current).resourcesToAcquire,
          updated.setStatus current .running)
  | pass {state : State} {current : Nat} {kept todo : List ResourceSchedule} {rs : ResourceSchedule}
      (notDue : rs.at_ ≠ (state.process current).age) :
      Step sched (.acquiring current kept (rs :: todo), state) (.acquiring current (kept ++ [rs]) todo, state)
  | grant {state granted : State} {current : Nat} {kept todo : List ResourceSchedule} {rs : ResourceSchedule}
      (isDue : rs.at_ = (state.process current).age)
      (asked : sched.acquire rs.resourceId state = .ok (true, granted)) :
      Step sched (.acquiring current kept (rs :: todo), state)
        (.acquiring current kept todo, granted.take current kept todo rs)
  | refuse {state refused : State} {current : Nat} {kept todo : List ResourceSchedule} {rs : ResourceSchedule}
      (isDue : rs.at_ = (state.process current).age)
      (asked : sched.acquire rs.resourceId state = .ok (false, refused)) :
      Step sched (.acquiring current kept (rs :: todo), state)
        (.closing false, (refused.print (.blocked current rs.resourceId)).tick)
  | grow (current : Nat) (kept : List ResourceSchedule) (state : State) :
      Step sched (.acquiring current kept [], state)
        (.releasing current [] ((state.grow current).process current).resourcesHolding, state.grow current)
  | keep {state : State} {current : Nat} {kept todo : List ResourceSchedule} {rs : ResourceSchedule}
      (remains : rs.countDown.duration ≠ 0) :
      Step sched (.releasing current kept (rs :: todo), state)
        (.releasing current (kept ++ [rs.countDown]) todo, state.hold current (kept ++ rs.countDown :: todo))
  | release {state released : State} {current : Nat} {kept todo : List ResourceSchedule} {rs : ResourceSchedule}
      (expires : rs.countDown.duration = 0)
      (asked : sched.release rs.resourceId (state.hold current (kept ++ rs.countDown :: todo)) = .ok released) :
      Step sched (.releasing current kept (rs :: todo), state)
        (.releasing current kept todo,
          (released.print (.released current rs.resourceId)).hold current (kept ++ todo))
  | finish (current : Nat) (kept : List ResourceSchedule) (state : State) :
      Step sched (.releasing current kept [], state) (.closing false, state.tick)

/-- The loop has no choice. -/
theorem Step.unique {sched : Scheduler} : Relator.RightUnique (Step sched) := by
  intro before after other step step'
  cases step with
  | begin state => cases step' with | begin => rfl
  | visit process todo state => cases step' with | visit => rfl
  | leave chosen retired empty =>
      cases step' with
      | leave chosen' retired' empty' =>
          cases chosen.symm.trans chosen'
          cases retired.symm.trans retired'
          rfl
      | idle chosen' retired' waits =>
          cases chosen.symm.trans chosen'
          cases retired.symm.trans retired'
          exact absurd empty waits
      | choose chosen' => cases chosen.symm.trans chosen'
  | idle chosen retired waits =>
      cases step' with
      | leave chosen' retired' empty =>
          cases chosen.symm.trans chosen'
          cases retired.symm.trans retired'
          exact absurd empty waits
      | idle chosen' retired' waits' =>
          cases chosen.symm.trans chosen'
          cases retired.symm.trans retired'
          rfl
      | choose chosen' => cases chosen.symm.trans chosen'
  | choose chosen retired unlinked =>
      cases step' with
      | leave chosen' => cases chosen.symm.trans chosen'
      | idle chosen' => cases chosen.symm.trans chosen'
      | choose chosen' retired' unlinked' =>
          cases chosen.symm.trans chosen'
          cases retired.symm.trans retired'
          rfl
  | pass notDue =>
      cases step' with
      | pass => rfl
      | grant isDue => exact absurd isDue notDue
      | refuse isDue => exact absurd isDue notDue
  | grant isDue asked =>
      cases step' with
      | pass notDue => exact absurd isDue notDue
      | grant isDue' asked' =>
          cases asked.symm.trans asked'
          rfl
      | refuse isDue' asked' => cases asked.symm.trans asked'
  | refuse isDue asked =>
      cases step' with
      | pass notDue => exact absurd isDue notDue
      | grant isDue' asked' => cases asked.symm.trans asked'
      | refuse isDue' asked' =>
          cases asked.symm.trans asked'
          rfl
  | grow current kept state => cases step' with | grow => rfl
  | keep remains =>
      cases step' with
      | keep => rfl
      | release expires => exact absurd expires remains
  | release expires asked =>
      cases step' with
      | keep remains => exact absurd expires remains
      | release expires' asked' =>
          cases asked.symm.trans asked'
          rfl
  | finish current kept state => cases step' with | finish => rfl

/-- Whatever is reached from a configuration is reached by way of the next one. -/
theorem Step.onward {sched : Scheduler} {before after reached : Configuration}
    (reaches : Relation.ReflTransGen (Step sched) before reached) (step : Step sched before after) :
    before = reached ∨ Relation.ReflTransGen (Step sched) after reached := by
  rcases reaches.cases_head with same | ⟨next, step', rest⟩
  · exact Or.inl same
  · rw [Step.unique step step']
    exact Or.inr rest

/-- What a script leads to step by step. -/
def Reaches (sched : Scheduler) (script : Script) : Configuration -> Prop :=
  Relation.ReflTransGen (Step sched) (.closing false, script.initial)

/-! ## Rounds are made of steps -/

section Rounds

variable {sched : Scheduler} {current : Nat} {kept todo : List ResourceSchedule} {state after : State}

theorem forking_steps (todo : List Nat) (state : State) :
    Relation.ReflTransGen (Step sched) (.forking todo, state) (.forking [], todo.foldl forkProcess state) := by
  induction todo generalizing state with
  | nil => exact .refl
  | cons process todo inductionHypothesis =>
      exact .head (.visit process todo state) (inductionHypothesis (forkProcess state process))

private theorem acquiring_steps {granted : Bool}
    (ran : runCurrentAcquire sched current kept todo state = .ok (granted, after)) :
    if granted then
      Exists fun passed =>
        Relation.ReflTransGen (Step sched) (.acquiring current kept todo, state) (.acquiring current passed [], after)
    else
      Relation.ReflTransGen (Step sched) (.acquiring current kept todo, state) (.closing false, after.tick) := by
  induction todo generalizing kept state with
  | nil =>
      cases ran
      exact ⟨kept, .refl⟩
  | cons rs todo inductionHypothesis =>
      unfold runCurrentAcquire at ran
      split at ran
      case isFalse notDue =>
        have rest := inductionHypothesis ran
        split
        case isTrue finished =>
          rw [if_pos finished] at rest
          rcases rest with ⟨passed, steps⟩
          exact ⟨passed, .head (.pass notDue) steps⟩
        case isFalse denied =>
          rw [if_neg denied] at rest
          exact .head (.pass notDue) rest
      case isTrue isDue =>
        split at ran
        case h_1 fault asked => cases ran
        case h_2 refused asked =>
          cases ran
          exact .single (.refuse isDue asked)
        case h_3 taken asked =>
          have rest := inductionHypothesis ran
          split
          case isTrue finished =>
            rw [if_pos finished] at rest
            rcases rest with ⟨passed, steps⟩
            exact ⟨passed, .head (.grant isDue asked) steps⟩
          case isFalse denied =>
            rw [if_neg denied] at rest
            exact .head (.grant isDue asked) rest

private theorem releasing_steps (ran : runCurrentRelease sched current kept todo state = .ok after) :
    Exists fun left =>
      Relation.ReflTransGen (Step sched) (.releasing current kept todo, state) (.releasing current left [], after) := by
  induction todo generalizing kept state with
  | nil =>
      cases ran
      exact ⟨kept, .refl⟩
  | cons rs todo inductionHypothesis =>
      unfold runCurrentRelease at ran
      dsimp only at ran
      split at ran
      case isTrue remains =>
        rcases inductionHypothesis ran with ⟨left, steps⟩
        exact ⟨left, .head (.keep remains) steps⟩
      case isFalse expires =>
        split at ran
        case h_1 fault asked => cases ran
        case h_2 released asked =>
          rcases inductionHypothesis ran with ⟨left, steps⟩
          exact ⟨left, .head (.release (not_not.mp expires) asked) steps⟩

private theorem execute_steps (ran : execute sched current state = .ok after) :
    ¬ (state.setStatus current .running).Attached current ∧
      Relation.ReflTransGen (Step sched)
        (.acquiring current [] ((state.setStatus current .running).process current).resourcesToAcquire,
          state.setStatus current .running) (.closing false, after.tick) := by
  unfold execute at ran
  dsimp only at ran
  split at ran
  case isTrue attached => cases ran
  case isFalse unlinked =>
    refine ⟨unlinked, ?_⟩
    split at ran
    case h_1 fault asked => cases ran
    case h_2 refused asked =>
      cases ran
      exact acquiring_steps asked
    case h_3 granted asked =>
      rcases acquiring_steps asked with ⟨passed, acquires⟩
      rcases releasing_steps ran with ⟨left, releases⟩
      exact (acquires.tail (.grow current passed granted)).trans (releases.tail (.finish current left after))

/-- A round of the loop is at least one step. -/
theorem iteration_steps {left : Bool} (ran : iteration sched state = .ok (left, after)) :
    Relation.TransGen (Step sched) (.closing false, state) (.closing left, after) := by
  apply Relation.TransGen.head' (.begin state)
  apply (forking_steps state.forkqueue state).trans
  have folded : state.forkqueue.foldl forkProcess state = forkOnSchedule state := rfl
  rw [folded]
  cases chosen : sched.schedule (forkOnSchedule state) with
  | mk next scheduled =>
      simp only [iteration, chosen] at ran
      split at ran
      case h_1 fault failed => cases ran
      case h_2 updated retired =>
        cases next with
        | none =>
            dsimp only at ran
            split at ran
            case isTrue empty =>
              cases ran
              exact .single (.leave chosen retired empty)
            case isFalse waits =>
              cases ran
              exact .single (.idle chosen retired waits)
        | some current =>
            dsimp only at ran
            split at ran
            case h_1 fault failed => cases ran
            case h_2 executed ran' =>
              cases ran
              rcases execute_steps ran' with ⟨unlinked, steps⟩
              exact .head (.choose chosen retired unlinked) steps

end Rounds

/-- The rounds of a run are among what the script leads to. -/
theorem Simulates.reaches {sched : Scheduler} {script : Script} {rounds : Nat} {left : Bool} {state : State}
    (simulates : Simulates sched script rounds left state) : Reaches sched script (.closing left, state) := by
  have runs : forall (rounds : Nat) (start : State) (outputs : List Bool) (state : State),
      (simulation sched).run (List.replicate rounds ()) start = .ok (outputs, state) ->
        Relation.ReflTransGen (Step sched) (.closing false, start) (.closing (outputs.any id), state) := by
    intro rounds
    induction rounds with
    | zero =>
        intro start outputs state ran
        cases ran
        exact .refl
    | succ rounds inductionHypothesis =>
        intro start outputs state ran
        rcases (simulation sched).run_cons_ok ran with
          ⟨output, next, stepped, ends | ⟨continues, rest, ran', same⟩⟩
        · rcases ends with ⟨_, rfl, rfl⟩
          rw [List.any_cons, List.any_nil, Bool.or_false]
          exact (iteration_steps stepped).to_reflTransGen
        · have goesOn : output = false := continues
          rw [same, goesOn, List.any_cons, id, Bool.false_or]
          rw [goesOn] at stepped
          exact (iteration_steps stepped).to_reflTransGen.trans (inductionHypothesis next rest state ran')
  rcases simulates with ⟨outputs, ran, rfl⟩
  exact runs rounds script.initial outputs state ran

/-- A run that goes on comes to its next moment of scheduling. -/
theorem Simulates.scheduling {sched : Scheduler} {script : Script} {rounds : Nat} {state : State}
    (simulates : Simulates sched script rounds false state) :
    Reaches sched script (.forking [], forkOnSchedule state) :=
  (simulates.reaches.tail (.begin state)).trans (forking_steps _ state)

/-! ## The effect of a step -/

/-- What a step of a lawful scheduler does to a state of the invariant, and what
is printed for it. -/
inductive Move : Configuration -> List Event -> Configuration -> Prop
  | begin (state : State) : Move (.closing false, state) [] (.forking state.forkqueue, state)
  | wait {process : Nat} {todo : List Nat} {state : State}
      (early : state.ticks < (state.process process).startsAt) :
      Move (.forking (process :: todo), state) [] (.forking todo, state)
  | fork {process : Nat} {todo : List Nat} {state : State}
      (arrived : (state.process process).startsAt ≤ state.ticks) :
      Move (.forking (process :: todo), state) [.forked process]
        (.forking todo, (state.fork process).print (.forked process))
  | leave (prio : Nat -> Nat) {state : State} (ready : state.settle.readyqueue = [])
      (forks : state.forkqueue = []) :
      Move (.forking [], state) state.farewell (.closing true, state.dispatched prio none [])
  | idle (prio : Nat -> Nat) {state : State} (ready : state.settle.readyqueue = [])
      (forks : state.forkqueue ≠ []) :
      Move (.forking [], state) (state.farewell ++ [.idle])
        (.closing false, ((state.dispatched prio none []).print .idle).tick)
  | choose (prio : Nat -> Nat) {state : State} {current : Nat} {readyqueue : List Nat}
      (moved : (current :: readyqueue).Perm state.settle.readyqueue) :
      Move (.forking [], state) state.farewell
        (.acquiring current [] (state.settle.process current).resourcesToAcquire,
          (state.dispatched prio (some current) readyqueue).setStatus current .running)
  | pass {state : State} {current : Nat} {kept todo : List ResourceSchedule} {rs : ResourceSchedule}
      (notDue : rs.at_ ≠ (state.process current).age) :
      Move (.acquiring current kept (rs :: todo), state) [] (.acquiring current (kept ++ [rs]) todo, state)
  | grant (prio : Nat -> Nat) {state : State} {current : Nat} {kept todo : List ResourceSchedule}
      {rs : ResourceSchedule} {r : Fin nrResources} (isDue : rs.at_ = (state.process current).age)
      (indexed : r.val = rs.resourceId) (free : state.owner r = none) :
      Move (.acquiring current kept (rs :: todo), state) [.acquired current rs.resourceId]
        (.acquiring current kept todo,
          ((state.setOwner r (some current)).reprioritized prio).take current kept todo rs)
  | refuse (prio : Nat -> Nat) {state : State} {current owner : Nat} {kept todo : List ResourceSchedule}
      {rs : ResourceSchedule} {r : Fin nrResources} (isDue : rs.at_ = (state.process current).age)
      (indexed : r.val = rs.resourceId) (owned : state.owner r = some owner) :
      Move (.acquiring current kept (rs :: todo), state) [.blocked current rs.resourceId]
        (.closing false,
          ((((state.setStatus current .blocked).setWaitqueue r (state.waitqueue r ++ [current])).reprioritized
            prio).print (.blocked current rs.resourceId)).tick)
  | grow (current : Nat) (kept : List ResourceSchedule) (state : State) :
      Move (.acquiring current kept [], state) [.ran current]
        (.releasing current [] (state.process current).resourcesHolding, state.grow current)
  | keep {state : State} {current : Nat} {kept todo : List ResourceSchedule} {rs : ResourceSchedule}
      (remains : rs.countDown.duration ≠ 0) :
      Move (.releasing current kept (rs :: todo), state) []
        (.releasing current (kept ++ [rs.countDown]) todo, state.hold current (kept ++ rs.countDown :: todo))
  | release {state after : State} {current : Nat} {kept todo : List ResourceSchedule} {rs : ResourceSchedule}
      {r : Fin nrResources} (expires : rs.countDown.duration = 0) (indexed : r.val = rs.resourceId)
      (released : Released r (state.hold current (kept ++ rs.countDown :: todo)) after) :
      Move (.releasing current kept (rs :: todo), state) [.released current rs.resourceId]
        (.releasing current kept todo, (after.print (.released current rs.resourceId)).hold current (kept ++ todo))
  | finish (current : Nat) (kept : List ResourceSchedule) (state : State) :
      Move (.releasing current kept [], state) [] (.closing false, state.tick)

theorem Move.stderr {before after : Configuration} {events : List Event} (move : Move before events after) :
    after.2.stderr = before.2.stderr ++ events.map fun event => (before.2.ticks, event) := by
  cases move with
  | begin state => exact (List.append_nil _).symm
  | wait early => exact (List.append_nil _).symm
  | fork arrived => rfl
  | leave prio ready forks => rfl
  | @idle prio state ready forks =>
      rw [List.map_append, ← List.append_assoc]
      rfl
  | choose prio moved => rfl
  | pass notDue => exact (List.append_nil _).symm
  | grant prio isDue indexed free => rfl
  | refuse prio isDue indexed owned => rfl
  | grow current kept state => rfl
  | keep remains => exact (List.append_nil _).symm
  | @release state after current kept todo rs r expires indexed released =>
      have output := released.output
      have printed : ((after.print (.released current rs.resourceId)).hold current (kept ++ todo)).stderr =
          after.stderr ++ [(after.ticks, .released current rs.resourceId)] := rfl
      dsimp only
      rw [printed, output.1, output.2]
      rfl
  | finish current kept state => exact (List.append_nil _).symm

/-- The process that a phase works for. -/
def Phase.actor : Phase -> Option Nat
  | .acquiring current _ _ => some current
  | .releasing current _ _ => some current
  | _ => none

/-- Of the other processes a move changes no more than status and priority. -/
theorem Move.others {before after : Configuration} {events : List Event} (move : Move before events after)
    {process : Nat} (other : before.1.actor ≠ some process) : Exists fun status => Exists fun prio =>
      after.2.process process = { before.2.process process with status := status, prio := prio } := by
  have notActor : forall {current : Nat}, some current ≠ some process -> process ≠ current :=
    fun different same => different (congrArg some same.symm)
  cases move with
  | begin state => exact ⟨_, _, rfl⟩
  | wait early => exact ⟨_, _, rfl⟩
  | @fork forked todo state arrived => exact ⟨_, _, state.fork_process forked process⟩
  | @leave prio state ready forks =>
      rcases state.dispatched_process prio none [] process with ⟨status, changed⟩
      exact ⟨status, _, changed⟩
  | @idle prio state ready forks =>
      rcases state.dispatched_process prio none [] process with ⟨status, changed⟩
      exact ⟨status, _, changed⟩
  | @choose prio state current readyqueue moved =>
      rcases state.dispatched_process prio (some current) readyqueue process with ⟨status, changed⟩
      have running := (state.dispatched prio (some current) readyqueue).setStatus_process current .running process
      rw [changed] at running
      exact ⟨_, _, running⟩
  | pass notDue => exact ⟨_, _, rfl⟩
  | @grant prio state current kept todo rs r isDue indexed free =>
      exact ⟨_, _, State.take_process_of_ne _ (notActor other) kept todo rs⟩
  | @refuse prio state current owner kept todo rs r isDue indexed owned =>
      exact ⟨_, prio process, congrArg (fun record : Process => { record with prio := prio process })
        (state.setStatus_process current .blocked process)⟩
  | grow current kept state => exact ⟨_, _, state.grow_process_of_ne (notActor other)⟩
  | keep remains => exact ⟨_, _, State.hold_process_of_ne _ (notActor other) _⟩
  | @release state after current kept todo rs r expires indexed released =>
      rcases released.process process with ⟨status, prio, changed, _⟩
      rw [state.hold_process_of_ne (notActor other)] at changed
      exact ⟨status, prio, (State.hold_process_of_ne _ (notActor other) _).trans changed⟩
  | finish current kept state => exact ⟨_, _, rfl⟩

/-- What a move is for one of the processes: it makes `process` go on with its lists,
or changes no more of it than status and priority. -/
inductive Change (process : Nat) : Configuration -> List Event -> Configuration -> Prop
  | other {before after : Configuration} {events : List Event} {status : ProcessStatus} {prio : Nat}
      (idle : before.1.actor ≠ some process)
      (changed : after.2.process process = { before.2.process process with status := status, prio := prio }) :
      Change process before events after
  | pass {kept todo : List ResourceSchedule} {rs : ResourceSchedule} {state after : State}
      (changed : after.process process = state.process process) :
      Change process (.acquiring process kept (rs :: todo), state) [] (.acquiring process (kept ++ [rs]) todo, after)
  | grant {kept todo : List ResourceSchedule} {rs : ResourceSchedule} {state after : State} {prio : Nat}
      (isDue : rs.at_ = (state.process process).age)
      (changed : after.process process = ({ state.process process with prio := prio } : Process).take kept todo rs) :
      Change process (.acquiring process kept (rs :: todo), state) [.acquired process rs.resourceId]
        (.acquiring process kept todo, after)
  | refuse {kept todo : List ResourceSchedule} {rs : ResourceSchedule} {state after : State}
      {status : ProcessStatus} {prio : Nat}
      (changed : after.process process = { state.process process with status := status, prio := prio }) :
      Change process (.acquiring process kept (rs :: todo), state) [.blocked process rs.resourceId]
        (.closing false, after)
  | grow {kept : List ResourceSchedule} {state after : State}
      (changed : after.process process = (state.process process).grow) :
      Change process (.acquiring process kept [], state) [.ran process]
        (.releasing process [] (state.process process).resourcesHolding, after)
  | keep {kept todo : List ResourceSchedule} {rs : ResourceSchedule} {state after : State}
      (changed : after.process process = (state.process process).hold (kept ++ rs.countDown :: todo)) :
      Change process (.releasing process kept (rs :: todo), state) []
        (.releasing process (kept ++ [rs.countDown]) todo, after)
  | release {kept todo : List ResourceSchedule} {rs : ResourceSchedule} {state after : State}
      {status : ProcessStatus} {prio : Nat} (expires : rs.countDown.duration = 0)
      (changed : after.process process =
        ({ state.process process with status := status, prio := prio } : Process).hold (kept ++ todo)) :
      Change process (.releasing process kept (rs :: todo), state) [.released process rs.resourceId]
        (.releasing process kept todo, after)
  | finish {kept : List ResourceSchedule} {state after : State}
      (changed : after.process process = state.process process) :
      Change process (.releasing process kept [], state) [] (.closing false, after)

theorem Move.change {before after : Configuration} {events : List Event} (move : Move before events after)
    (process : Nat) : Change process before events after := by
  by_cases acts : before.1.actor = some process
  · cases move with
    | begin state => cases acts
    | wait early => cases acts
    | fork arrived => cases acts
    | leave prio ready forks => cases acts
    | idle prio ready forks => cases acts
    | choose prio moved => cases acts
    | pass notDue =>
        cases acts
        exact .pass rfl
    | @grant prio state current kept todo rs r isDue indexed free =>
        cases acts
        let owned := (state.setOwner r (some process)).reprioritized prio
        exact .grant isDue (owned.take_process_self process kept todo rs)
    | @refuse prio state current owner kept todo rs r isDue indexed owned =>
        cases acts
        exact .refuse (congrArg (fun record : Process => { record with prio := prio process })
          (state.setStatus_process process .blocked process))
    | grow current kept state =>
        cases acts
        exact .grow (state.grow_process_self process)
    | @keep state current kept todo rs remains =>
        cases acts
        exact .keep (state.hold_process_self process _)
    | @release state after current kept todo rs r expires indexed released =>
        cases acts
        rcases released.process process with ⟨status, prio, changed, _⟩
        have held := (after.print (.released process rs.resourceId)).hold_process_self process (kept ++ todo)
        have printed : (after.print (.released process rs.resourceId)).process process = after.process process := rfl
        rw [State.hold_process_self] at changed
        rw [printed, changed] at held
        exact .release expires held
    | finish current kept state =>
        cases acts
        exact .finish rfl
  · rcases move.others acts with ⟨status, prio, changed⟩
    exact .other acts changed

/-- The process whose age the next step changes. -/
def Phase.growing : Phase -> Option Nat
  | .acquiring current _ [] => some current
  | _ => none

private theorem Phase.actor_of_growing {phase : Phase} {process : Nat} (grows : phase.growing = some process) :
    phase.actor = some process := by
  unfold Phase.growing at grows
  split at grows
  · exact grows
  · cases grows

/-- A move leaves alone what the script says about a process.  Only the process
that has acquired all that was due becomes older. -/
structure Aged (older : Option Nat) (process : Nat) (before after : Process) : Prop where
  lifespan : after.lifespan = before.lifespan
  startsAt : after.startsAt = before.startsAt
  age : after.age = before.age + if older = some process then 1 else 0

theorem Move.aged {before after : Configuration} {events : List Event} (move : Move before events after)
    (process : Nat) : Aged before.1.growing process (before.2.process process) (after.2.process process) := by
  cases move.change process with
  | other idle changed =>
      rw [changed]
      refine ⟨rfl, rfl, ?_⟩
      rw [if_neg fun grows => idle (Phase.actor_of_growing grows)]
      rfl
  | grow changed =>
      dsimp only [Phase.growing]
      rw [changed]
      refine ⟨rfl, rfl, ?_⟩
      rw [if_pos rfl]
      rfl
  | pass changed | grant _ changed | refuse changed | keep changed | release _ changed | finish changed =>
      dsimp only
      rw [changed]
      exact ⟨rfl, rfl, rfl⟩

/-- The invariant in the course of a round.  Of the processes that the fork loop
has passed, those that are still in the fork queue start later. -/
inductive Sound (script : Script) : Configuration -> Prop
  | closing {left : Bool} {state : State} (between : Between script state) (ended : left = true -> Ended state) :
      Sound script (.closing left, state)
  | forking {todo : List Nat} {state : State} (between : Between script state) (nodup : todo.Nodup)
      (members : forall process, process ∈ todo -> process ∈ state.forkqueue)
      (passed : forall process, process ∈ state.forkqueue -> process ∉ todo ->
        state.ticks < (state.process process).startsAt) :
      Sound script (.forking todo, state)
  | acquiring {current : Nat} {kept todo : List ResourceSchedule} {state : State}
      (acquiring : Acquiring script current kept todo state) : Sound script (.acquiring current kept todo, state)
  | releasing {current : Nat} {kept todo : List ResourceSchedule} {state : State}
      (releasing : Releasing script current kept todo state) : Sound script (.releasing current kept todo, state)

section Moves

variable {script : Script} {sched : Scheduler} {before after : Configuration} {events : List Event}

/-- The process that is detached in a round is the one that runs. -/
theorem Sound.placed (sound : Sound script before) : Placed script before.2.running before.2 := by
  cases sound with
  | closing between ended => exact between.invariant.placed
  | forking between nodup members passed => exact between.invariant.placed
  | acquiring acquiring =>
      have running := State.running_eq_some.mpr ⟨acquiring.isCurrent, acquiring.running⟩
      exact running.symm ▸ acquiring.invariant.placed
  | releasing releasing =>
      have running := State.running_eq_some.mpr ⟨releasing.isCurrent, releasing.running⟩
      exact running.symm ▸ releasing.invariant.placed

/-- A lawful scheduler has processes chosen, retired and put in the queue in one
way. -/
theorem Between.chosen (valid : script.Valid) (lawful : Lawful sched) {state scheduled updated : State}
    {next : Option Nat} (between : Between script state) (chosen : sched.schedule state = (next, scheduled))
    (retired : retire state.current { scheduled with current := next } = .ok updated) :
    Exists fun prio => updated = state.dispatched prio next scheduled.readyqueue ∧
      (next.toList ++ scheduled.readyqueue).Perm state.settle.readyqueue ∧
        (next = none -> scheduled.readyqueue = []) := by
  have law := lawful.schedule state
  rw [chosen] at law
  rcases law with ⟨⟨prio, others⟩, moved, idle⟩
  have expected := between.retire_eq valid prio moved
  dsimp only at others moved idle
  rw [others] at retired
  rw [← between.settle_readyqueue] at moved
  exact ⟨prio, Except.ok.inj (retired.symm.trans expected), moved, idle⟩

/-- A step of a lawful scheduler is a move. -/
theorem Step.move (valid : script.Valid) (lawful : Lawful sched) (sound : Sound script before)
    (step : Step sched before after) : Exists fun events => Move before events after := by
  cases step with
  | begin state => exact ⟨_, .begin state⟩
  | visit process todo state =>
      rw [forkProcess_eq]
      split
      case isTrue arrived => exact ⟨_, .fork arrived⟩
      case isFalse early => exact ⟨_, .wait (Nat.lt_of_not_le early)⟩
  | @leave state _ _ chosen retired empty =>
      cases sound with
      | forking between =>
          rcases between.chosen valid lawful chosen retired with ⟨prio, rfl, moved, idle⟩
          rw [idle rfl] at moved ⊢
          have forks : state.settle.forkqueue = [] := empty.2
          rw [State.settle_forkqueue] at forks
          exact ⟨_, .leave prio moved.symm.eq_nil forks⟩
  | @idle state _ _ chosen retired waits =>
      cases sound with
      | forking between =>
          rcases between.chosen valid lawful chosen retired with ⟨prio, rfl, moved, idle⟩
          rw [idle rfl] at moved waits ⊢
          exact ⟨_, .idle prio moved.symm.eq_nil fun forks => waits ⟨rfl, state.settle_forkqueue.trans forks⟩⟩
  | @choose state scheduled _ current chosen retired unlinked =>
      cases sound with
      | forking between =>
          rcases between.chosen valid lawful chosen retired with ⟨prio, rfl, moved, _⟩
          have pending := congrArg Process.resourcesToAcquire
            ((state.dispatched prio (some current) scheduled.readyqueue).setStatus_process current .running current)
          rw [pending]
          exact ⟨_, .choose prio moved⟩
  | pass notDue => exact ⟨_, .pass notDue⟩
  | grant isDue asked =>
      cases sound with
      | acquiring acquiring =>
          rcases acquiring.answered valid lawful with ⟨r, granted, after, indexed, answered, answer⟩
          cases asked.symm.trans answered
          cases answer with
          | granted prio free => exact ⟨_, .grant prio isDue indexed free⟩
  | refuse isDue asked =>
      cases sound with
      | acquiring acquiring =>
          rcases acquiring.answered valid lawful with ⟨r, granted, after, indexed, answered, answer⟩
          cases asked.symm.trans answered
          cases answer with
          | refused prio owner owned => exact ⟨_, .refuse prio isDue indexed owned⟩
  | grow current kept state =>
      rw [congrArg Process.resourcesHolding (state.grow_process_self current)]
      exact ⟨_, .grow current kept state⟩
  | keep remains => exact ⟨_, .keep remains⟩
  | @release state _ current kept todo rs expires asked =>
      cases sound with
      | releasing releasing =>
          rcases releasing.released valid lawful with ⟨r, after, indexed, answered, effect⟩
          cases asked.symm.trans answered
          exact ⟨_, .release expires indexed effect⟩
  | finish current kept state => exact ⟨_, .finish current kept state⟩

/-- With an empty ready queue nobody is chosen. -/
theorem Between.dispatched_idle (between : Between script state) (prio : Nat -> Nat)
    (ready : state.settle.readyqueue = []) : Between script (state.dispatched prio none []) := by
  have moved : ((none : Option Nat).toList ++ []).Perm state.settle.readyqueue := by
    rw [ready]
    exact List.Perm.refl []
  exact (between.dispatched prio moved).1.between_of_idle rfl

/-- A move keeps the invariant. -/
theorem Sound.move (valid : script.Valid) (sound : Sound script before) (move : Move before events after) :
    Sound script after := by
  cases move with
  | begin state =>
      cases sound with
      | closing between _ =>
          exact .forking between between.invariant.placed.forkqueue_nodup (fun _ member => member)
            fun _ member outside => absurd member outside
  | @wait process todo state early =>
      cases sound with
      | forking between nodup members passed =>
          refine .forking between nodup.of_cons (fun other later => members other (List.mem_cons_of_mem _ later)) ?_
          intro other forks outside
          by_cases same : other = process
          · exact same ▸ early
          · exact passed other forks fun member => outside ((List.mem_cons.mp member).resolve_left same)
  | @fork process todo state arrived =>
      cases sound with
      | forking between nodup members passed =>
          have member := members process List.mem_cons_self
          have distinct := between.invariant.placed.forkqueue_nodup
          refine .forking ((between.fork member).besides_stderr _) nodup.of_cons ?_ ?_
          · intro other later
            have different : other ≠ process := fun same => (List.nodup_cons.mp nodup).1 (same ▸ later)
            exact (distinct.mem_erase_iff).mpr ⟨different, members other (List.mem_cons_of_mem _ later)⟩
          · intro other forks outside
            rcases distinct.mem_erase_iff.mp forks with ⟨different, earlier⟩
            have early := passed other earlier fun member =>
              outside ((List.mem_cons.mp member).resolve_left different)
            have same : ((state.fork process).print (.forked process)).process other = state.process other :=
              State.fork_process_of_ne different
            rw [same]
            exact early
  | @leave prio state ready forks =>
      cases sound with
      | forking between =>
          exact .closing (between.dispatched_idle prio ready)
            fun _ => ⟨rfl, rfl, state.settle_forkqueue.trans forks⟩
  | @idle prio state ready forks =>
      cases sound with
      | forking between =>
          have idle := between.dispatched_idle prio ready
          exact .closing (idle.besides_stderr _).tick fun never => absurd never Bool.false_ne_true
  | @choose prio state current readyqueue moved =>
      cases sound with
      | forking between =>
          have chosen : ((some current).toList ++ readyqueue).Perm state.settle.readyqueue := moved
          have dispatched := between.dispatched prio chosen
          have facts := dispatched.2 current rfl
          exact .acquiring (dispatched.1.start rfl facts.1 facts.2)
  | pass notDue =>
      cases sound with
      | acquiring acquiring => exact .acquiring (acquiring.skip notDue)
  | grant prio isDue indexed free =>
      cases sound with
      | acquiring acquiring => exact .acquiring ((acquiring.reprioritized prio).take valid isDue indexed free)
  | @refuse prio state current owner kept todo rs r isDue indexed owned =>
      cases sound with
      | acquiring acquiring =>
          have refused := acquiring.refuse isDue indexed owned
          have blocked := refused.between_of_waiting acquiring.isCurrent (mem_waitqueue_refused state)
          exact .closing ⟨blocked.invariant.besides, blocked.current, blocked.running⟩
            fun never => absurd never Bool.false_ne_true
  | grow current kept state =>
      cases sound with
      | acquiring acquiring => exact .releasing acquiring.grow
  | keep remains =>
      cases sound with
      | releasing releasing => exact .releasing (releasing.keep remains)
  | release expires indexed released =>
      cases sound with
      | releasing releasing =>
          exact .releasing (releasing.dropped indexed released _)
  | finish current kept state =>
      cases sound with
      | releasing releasing =>
          exact .closing releasing.between.tick fun never => absurd never Bool.false_ne_true

theorem Sound.initial (valid : script.Valid) : Sound script (.closing false, script.initial) :=
  .closing valid.initial fun never => absurd never Bool.false_ne_true

/-- An invariant of the moves holds of all that a valid script leads to. -/
theorem Reaches.invariant (valid : script.Valid) (lawful : Lawful sched) {invariant : Configuration -> Prop}
    (initially : invariant (.closing false, script.initial))
    (preserved : forall {before after : Configuration} {events : List Event}, Sound script before ->
      invariant before -> Move before events after -> invariant after)
    {reached : Configuration} (reaches : Reaches sched script reached) :
    Sound script reached ∧ invariant reached := by
  induction reaches with
  | refl => exact ⟨Sound.initial valid, initially⟩
  | tail _ step inductionHypothesis =>
      rcases step.move valid lawful inductionHypothesis.1 with ⟨events, move⟩
      exact ⟨inductionHypothesis.1.move valid move, preserved inductionHypothesis.1 inductionHypothesis.2 move⟩

theorem Reaches.sound (valid : script.Valid) (lawful : Lawful sched) {reached : Configuration}
    (reaches : Reaches sched script reached) : Sound script reached :=
  (reaches.invariant valid lawful trivial fun _ _ _ => trivial).1

end Moves

end Sched
end OsPa
