/-!
# Machines that read commands

A simulator reads commands one by one.  Each command yields an output and a
next state, or it faults; some outputs end the loop.  The program's own loop
is `Machine.run`, and the rules below are the only ways in which later modules
argue about it: an invariant kept by each step that is really taken, the same
with a history of commands and outputs at hand, and two machines in lockstep.

Conditions on a run are stated on the steps it takes.  `Machine.Within` asks
a condition of every command together with the state in which it is read, and
asks nothing of commands after the loop has ended or faulted.
-/

namespace OsPa
namespace Library

universe u v w x y

/-- One deterministic step for each input.  An output for which `stops` is
true ends the loop after its own step. -/
structure Machine (Input : Type u) (State : Type v) (Output : Type w) (Fault : Type x) where
  step : Input -> State -> Except Fault (Output × State)
  stops : Output -> Bool

namespace Machine

variable {Input : Type u} {State : Type v} {Output : Type w} {Fault : Type x}

/-- The loop: read inputs until they are used up, an output stops it, or a
step faults. -/
def run (machine : Machine Input State Output Fault) :
    List Input -> State -> Except Fault (List Output × State)
  | [], state => .ok ([], state)
  | input :: inputs, state =>
      match machine.step input state with
      | .error fault => .error fault
      | .ok (output, next) =>
          if machine.stops output then .ok ([output], next)
          else
            match machine.run inputs next with
            | .error fault => .error fault
            | .ok (outputs, final) => .ok (output :: outputs, final)

/-- Every input that the loop really reads satisfies the condition together
with the state in which it is read. -/
def Within (machine : Machine Input State Output Fault) (condition : Input -> State -> Prop) :
    List Input -> State -> Prop
  | [], _ => True
  | input :: inputs, state =>
      condition input state ∧
        match machine.step input state with
        | .error _ => True
        | .ok (output, next) => machine.stops output = false -> machine.Within condition inputs next

/-- Fold a history over the inputs read and the outputs given for them. -/
def history {Past : Type y} (advance : Input -> Output -> Past -> Past) :
    List Input -> List Output -> Past -> Past
  | input :: inputs, output :: outputs, past =>
      history advance inputs outputs (advance input output past)
  | _, _, past => past

variable (machine : Machine Input State Output Fault)

/-- A run over a nonempty input is its first step, and then the rest of the
run unless that step's output ends the loop. -/
theorem run_cons_ok {input : Input} {inputs : List Input} {state final : State}
    {outputs : List Output} (ran : machine.run (input :: inputs) state = .ok (outputs, final)) :
    Exists fun output => Exists fun next => machine.step input state = .ok (output, next) ∧
      ((machine.stops output = true ∧ outputs = [output] ∧ final = next) ∨
        (machine.stops output = false ∧ Exists fun rest =>
          machine.run inputs next = .ok (rest, final) ∧ outputs = output :: rest)) := by
  cases stepped : machine.step input state with
  | error fault => simp only [run, stepped, reduceCtorEq] at ran
  | ok result =>
      rcases result with ⟨output, next⟩
      refine ⟨output, next, rfl, ?_⟩
      cases ended : machine.stops output with
      | true =>
          simp only [run, stepped, ended, if_true, Except.ok.injEq, Prod.mk.injEq] at ran
          exact Or.inl ⟨rfl, ran.1.symm, ran.2.symm⟩
      | false =>
          cases continued : machine.run inputs next with
          | error fault =>
              simp only [run, stepped, ended, continued, Bool.false_eq_true, if_false,
                reduceCtorEq] at ran
          | ok rest =>
              simp only [run, stepped, ended, continued, Bool.false_eq_true, if_false,
                Except.ok.injEq, Prod.mk.injEq] at ran
              exact Or.inr ⟨rfl, rest.1, by rw [← ran.2], ran.1.symm⟩

/-- A step that does not end the loop is followed by the run of the rest. -/
theorem run_cons {input : Input} {state next : State} {output : Output} (inputs : List Input)
    (stepped : machine.step input state = .ok (output, next)) (continues : machine.stops output = false) :
    machine.run (input :: inputs) state = (machine.run inputs next).map (Prod.map (output :: ·) id) := by
  rw [run, stepped]
  dsimp only
  rw [continues, if_neg Bool.false_ne_true]
  cases machine.run inputs next <;> rfl

/-- A run over one input is its step. -/
theorem run_single (input : Input) (state : State) :
    machine.run [input] state = (machine.step input state).map (Prod.map (fun output => [output]) id) := by
  rw [run]
  cases machine.step input state with
  | error fault => rfl
  | ok result =>
      dsimp only [run]
      split <;> rfl

/-- A run that has not ended goes on with one more input. -/
theorem run_concat {inputs : List Input} {input : Input} {start state next : State} {outputs : List Output}
    {output : Output} (ran : machine.run inputs start = .ok (outputs, state))
    (continues : outputs.any machine.stops = false) (stepped : machine.step input state = .ok (output, next)) :
    machine.run (inputs ++ [input]) start = .ok (outputs ++ [output], next) := by
  induction inputs generalizing start outputs with
  | nil =>
      cases ran
      simp only [List.nil_append, run, stepped]
      split <;> rfl
  | cons first inputs inductionHypothesis =>
      rcases machine.run_cons_ok ran with ⟨looked, middle, begun, ended | ⟨goesOn, rest, ran', rfl⟩⟩
      · rcases ended with ⟨stops, rfl, _⟩
        rw [List.any_cons, stops, Bool.true_or] at continues
        exact Bool.noConfusion continues
      · rw [List.any_cons, goesOn, Bool.false_or] at continues
        rw [List.cons_append, machine.run_cons _ begun goesOn, inductionHypothesis ran' continues]
        rfl

theorem Within.tail {condition : Input -> State -> Prop} {input : Input} {inputs : List Input}
    {state next : State} {output : Output} (within : machine.Within condition (input :: inputs) state)
    (stepped : machine.step input state = .ok (output, next)) (continues : machine.stops output = false) :
    machine.Within condition inputs next := by
  have rest := within.2
  rw [stepped] at rest
  exact rest continues

/-- The invariant rule with a history.  The relation between state and past
is needed of one step only, and only where the condition on steps holds. -/
theorem run_history_invariant {Past : Type y} {condition : Input -> State -> Prop} (past : Past)
    (advance : Input -> Output -> Past -> Past) (invariant : State -> Past -> Prop)
    (preserved : forall input state past output next, condition input state ->
      invariant state past -> machine.step input state = .ok (output, next) ->
        invariant next (advance input output past))
    {inputs : List Input} {start final : State} {outputs : List Output}
    (within : machine.Within condition inputs start) (initially : invariant start past)
    (ran : machine.run inputs start = .ok (outputs, final)) :
    invariant final (history advance inputs outputs past) := by
  induction inputs generalizing start outputs past with
  | nil =>
      simp only [run, Except.ok.injEq, Prod.mk.injEq] at ran
      rw [← ran.1, ← ran.2]
      exact initially
  | cons input inputs inductionHypothesis =>
      rcases machine.run_cons_ok ran with ⟨output, next, stepped, rest⟩
      have kept := preserved input start past output next within.1 initially stepped
      rcases rest with ⟨_, rfl, rfl⟩ | ⟨continues, later, continued, rfl⟩
      · cases inputs <;> exact kept
      · exact inductionHypothesis _ (within.tail machine stepped continues) kept continued

/-- The invariant rule. -/
theorem run_invariant {condition : Input -> State -> Prop} (invariant : State -> Prop)
    (preserved : forall input state output next, condition input state -> invariant state ->
      machine.step input state = .ok (output, next) -> invariant next)
    {inputs : List Input} {start final : State} {outputs : List Output}
    (within : machine.Within condition inputs start) (initially : invariant start)
    (ran : machine.run inputs start = .ok (outputs, final)) : invariant final :=
  machine.run_history_invariant () (fun _ _ past => past) (fun state _ => invariant state)
    (fun input state _ output next => preserved input state output next) within initially ran

/-- Steps that succeed and keep an invariant make up runs that do.  What the
last step of a run that has ended leaves behind holds in the end. -/
theorem run_total {invariant ended : State -> Prop}
    (step : forall input state, invariant state -> Exists fun output => Exists fun next =>
      machine.step input state = .ok (output, next) ∧ invariant next ∧ (machine.stops output = true -> ended next))
    (inputs : List Input) {start : State} (initially : invariant start) :
    Exists fun outputs => Exists fun final => machine.run inputs start = .ok (outputs, final) ∧ invariant final ∧
      (outputs.any machine.stops = true -> ended final) := by
  induction inputs generalizing start with
  | nil => exact ⟨[], start, rfl, initially, fun never => absurd never Bool.false_ne_true⟩
  | cons input inputs inductionHypothesis =>
      rcases step input start initially with ⟨output, next, stepped, kept, ends⟩
      cases ended : machine.stops output with
      | true =>
          refine ⟨[output], next, ?_, kept, fun _ => ends ended⟩
          simp only [run, stepped, ended, if_true]
      | false =>
          rcases inductionHypothesis kept with ⟨outputs, final, ran, holds, last⟩
          refine ⟨output :: outputs, final, ?_, holds, ?_⟩
          · rw [machine.run_cons inputs stepped ended, ran]
            rfl
          · rw [List.any_cons, ended, Bool.false_or]
            exact last

/-- A loop whose steps succeed and make progress on the same input ends. -/
theorem run_ends {Rank : Type y} {smaller : Rank -> Rank -> Prop} (wellFounded : WellFounded smaller)
    {invariant : State -> Prop} (rank : State -> Rank) (input : Input)
    (step : forall state, invariant state -> Exists fun output => Exists fun next =>
      machine.step input state = .ok (output, next) ∧ invariant next ∧
        (machine.stops output = false -> smaller (rank next) (rank state)))
    {start : State} (initially : invariant start) :
    Exists fun rounds => Exists fun outputs => Exists fun final =>
      machine.run (List.replicate rounds input) start = .ok (outputs, final) ∧ outputs.any machine.stops = true := by
  have general : forall bound start, rank start = bound -> invariant start ->
      Exists fun rounds => Exists fun outputs => Exists fun final =>
        machine.run (List.replicate rounds input) start = .ok (outputs, final) ∧
          outputs.any machine.stops = true := by
    intro bound
    induction bound using wellFounded.induction with
    | h bound inductionHypothesis =>
        intro start ranked initially
        rcases step start initially with ⟨output, next, stepped, kept, progress⟩
        cases ended : machine.stops output with
        | true =>
            refine ⟨1, [output], next, ?_, ?_⟩
            · simp only [List.replicate, run, stepped, ended, if_true]
            · rw [List.any_cons, ended, Bool.true_or]
        | false =>
            have smallerRank : smaller (rank next) bound := ranked ▸ progress ended
            rcases inductionHypothesis (rank next) smallerRank next rfl kept with ⟨rounds, outputs, final, ran, last⟩
            refine ⟨rounds + 1, output :: outputs, final, ?_, ?_⟩
            · rw [List.replicate_succ, machine.run_cons _ stepped ended, ran]
              rfl
            · rw [List.any_cons, ended, Bool.false_or]
              exact last
  exact general (rank start) start rfl initially

/-- A condition on the inputs alone holds of every step a run takes. -/
theorem within_of_forall_mem {condition : Input -> State -> Prop} {inputs : List Input}
    (always : forall input, input ∈ inputs -> forall state, condition input state) (start : State) :
    machine.Within condition inputs start := by
  induction inputs generalizing start with
  | nil => trivial
  | cons input inputs inductionHypothesis =>
      refine ⟨always input List.mem_cons_self start, ?_⟩
      split
      · trivial
      · exact fun _ => inductionHypothesis
          (fun later member => always later (List.mem_cons_of_mem _ member)) _

/-- A condition on all steps of a run holds of the steps of its beginning. -/
theorem Within.of_prefix {condition : Input -> State -> Prop} {executed inputs : List Input} {state : State}
    (within : machine.Within condition inputs state) (beginning : executed <+: inputs) :
    machine.Within condition executed state := by
  induction executed generalizing inputs state with
  | nil => trivial
  | cons input executed inductionHypothesis =>
      rcases beginning with ⟨rest, rfl⟩
      refine ⟨within.1, ?_⟩
      cases stepped : machine.step input state with
      | error fault => trivial
      | ok result =>
          intro continues
          exact inductionHypothesis (within.tail machine stepped continues) (List.prefix_append _ _)

/-- A condition that further inputs meet in every state. -/
theorem Within.append {condition : Input -> State -> Prop} {inputs more : List Input} {state : State}
    (within : machine.Within condition inputs state)
    (further : forall later, machine.Within condition more later) :
    machine.Within condition (inputs ++ more) state := by
  induction inputs generalizing state with
  | nil => exact further state
  | cons input inputs inductionHypothesis =>
      refine ⟨within.1, ?_⟩
      cases stepped : machine.step input state with
      | error fault => trivial
      | ok result =>
          intro continues
          exact inductionHypothesis (within.tail machine stepped continues)

/-- Where a step keeps a property just when it meets a condition, the property
holds after each beginning of a run just when all steps of the run meet it. -/
theorem always_iff_within {condition : Input -> State -> Prop} {property : State -> Prop} (invariant : State -> Prop)
    (preserved : forall input state output next, invariant state ->
      machine.step input state = .ok (output, next) -> invariant next)
    (exact_ : forall input state output next, invariant state -> property state ->
      machine.step input state = .ok (output, next) -> (property next ↔ condition input state))
    {inputs : List Input} {start final : State} {outputs : List Output} (initially : invariant start)
    (holds : property start) (ran : machine.run inputs start = .ok (outputs, final)) :
    (forall executed, executed <+: inputs -> forall outputs reached,
      machine.run executed start = .ok (outputs, reached) -> property reached) ↔
        machine.Within condition inputs start := by
  constructor
  · intro always
    induction inputs generalizing start outputs with
    | nil => trivial
    | cons input inputs inductionHypothesis =>
        rcases machine.run_cons_ok ran with ⟨output, next, stepped, rest⟩
        have single : machine.run [input] start = .ok ([output], next) := by
          rw [run_single, stepped]
          rfl
        have later := always [input] (List.prefix_append [input] inputs) [output] next single
        refine ⟨(exact_ input start output next initially holds stepped).mp later, ?_⟩
        rw [stepped]
        intro continues
        rcases rest with ⟨ends, _⟩ | ⟨_, further, continued, _⟩
        · rw [continues] at ends
          cases ends
        · apply inductionHypothesis (preserved input start output next initially stepped) later continued
          intro executed beginning looked reached shorter
          refine always (input :: executed) (List.cons_prefix_cons.mpr ⟨rfl, beginning⟩) (output :: looked) reached ?_
          rw [machine.run_cons executed stepped continues, shorter]
          rfl
  · intro within executed beginning looked reached shorter
    have kept := machine.run_invariant (fun state => invariant state ∧ property state)
      (fun input state output next meets both stepped =>
        ⟨preserved input state output next both.1 stepped,
          (exact_ input state output next both.1 both.2 stepped).mpr meets⟩)
      (within.of_prefix machine beginning) ⟨initially, holds⟩ shorter
    exact kept.2

/-! ## Two machines in lockstep -/

variable {State' : Type v} {Output' : Type w} {View : Type y}

/-- Two results agree when both fault alike, or their outputs look the same
and their states are related. -/
def Agree (view : Output -> View) (view' : Output' -> View) (related : State -> State' -> Prop) :
    Except Fault (Output × State) -> Except Fault (Output' × State') -> Prop
  | .ok (output, state), .ok (output', state') => view output = view' output' ∧ related state state'
  | .error fault, .error fault' => fault = fault'
  | _, _ => False

theorem Agree.cases {view : Output -> View} {view' : Output' -> View} {related : State -> State' -> Prop}
    {result : Except Fault (Output × State)} {result' : Except Fault (Output' × State')}
    (agree : Agree view view' related result result') :
    (Exists fun fault => result = .error fault ∧ result' = .error fault) ∨
      Exists fun output => Exists fun state => Exists fun output' => Exists fun state' =>
        result = .ok (output, state) ∧ result' = .ok (output', state') ∧
          view output = view' output' ∧ related state state' := by
  cases result with
  | error fault => cases result' with
    | error fault' => exact .inl ⟨fault, rfl, congrArg _ (Eq.symm agree)⟩
    | ok _ => exact False.elim agree
  | ok pair => cases result' with
    | error _ => exact False.elim agree
    | ok pair' => exact .inr ⟨pair.1, pair.2, pair'.1, pair'.2, rfl, rfl, agree.1, agree.2⟩

theorem Agree.imp {view : Output -> View} {view' : Output' -> View} {related weaker : State -> State' -> Prop}
    {result : Except Fault (Output × State)} {result' : Except Fault (Output' × State')}
    (agree : Agree view view' related result result')
    (implies : forall state state', related state state' -> weaker state state') :
    Agree view view' weaker result result' := by
  rcases agree.cases with ⟨fault, rfl, rfl⟩ | ⟨_, state, _, state', rfl, rfl, seen, kept⟩
  · exact rfl
  · exact ⟨seen, implies state state' kept⟩

/-- Two results that agree with a third one. -/
theorem Agree.triangle {State'' : Type v} {Output'' : Type w} {view : Output -> View} {view' : Output' -> View}
    {view'' : Output'' -> View} {related : State -> State' -> Prop} {related' : State -> State'' -> Prop}
    {common : State' -> State'' -> Prop} {result : Except Fault (Output × State)}
    {result' : Except Fault (Output' × State')} {result'' : Except Fault (Output'' × State'')}
    (left : Agree view view' related result result') (right : Agree view view'' related' result result'')
    (joins : forall state state' state'', related state state' -> related' state state'' -> common state' state'') :
    Agree view' view'' common result' result'' := by
  rcases left.cases with ⟨fault, rfl, rfl⟩ | ⟨output, state, output', state', rfl, rfl, seen, kept⟩
  · rcases right.cases with ⟨fault', same, rfl⟩ | ⟨_, _, _, _, impossible, _⟩
    · cases same
      exact rfl
    · cases impossible
  · rcases right.cases with ⟨fault', impossible, _⟩ | ⟨_, _, output'', state'', same, rfl, seen', kept'⟩
    · cases impossible
    · cases same
      exact ⟨seen.symm.trans seen', joins state state' state'' kept kept'⟩

/-- Runs that agree after a common first step agree. -/
theorem Agree.of_cons {view : Output -> View} {view' : Output' -> View} {related : State -> State' -> Prop}
    {output : Output} {output' : Output'} {result : Except Fault (List Output × State)}
    {result' : Except Fault (List Output' × State')}
    (agree : Agree (List.map view) (List.map view') related (result.map (Prod.map (output :: ·) id))
      (result'.map (Prod.map (output' :: ·) id))) :
    Agree (List.map view) (List.map view') related result result' := by
  cases result with
  | error fault => cases result' with
    | error fault' => exact agree
    | ok _ => exact agree
  | ok _ => cases result' with
    | error _ => exact agree
    | ok _ => exact ⟨(List.cons_eq_cons.mp agree.1).2, agree.2⟩

/-- Runs over one input agree just if its steps do. -/
theorem agree_run_single {machine' : Machine Input State' Output' Fault} {view : Output -> View}
    {view' : Output' -> View} {related : State -> State' -> Prop} {input : Input} {state : State} {state' : State'} :
    Agree (List.map view) (List.map view') related (machine.run [input] state) (machine'.run [input] state') ↔
      Agree view view' related (machine.step input state) (machine'.step input state') := by
  rw [run_single, run_single]
  cases machine.step input state with
  | error fault => cases machine'.step input state' with
    | error fault' => exact Iff.rfl
    | ok _ => exact Iff.rfl
  | ok _ => cases machine'.step input state' with
    | error _ => exact Iff.rfl
    | ok _ => exact and_congr_left fun _ => List.singleton_inj

/-- The lockstep rule: agreement of single steps from related states gives
agreement of whole runs, output by output. -/
theorem run_lockstep (machine' : Machine Input State' Output' Fault)
    (view : Output -> View) (view' : Output' -> View) (related : State -> State' -> Prop)
    {condition : Input -> State -> Prop}
    (sameStop : forall output output', view output = view' output' ->
      machine.stops output = machine'.stops output')
    (agree : forall input state state', condition input state -> related state state' ->
      Agree view view' related (machine.step input state) (machine'.step input state'))
    {inputs : List Input} {start : State} {start' : State'}
    (within : machine.Within condition inputs start) (initially : related start start') :
    Agree (List.map view) (List.map view') related
      (machine.run inputs start) (machine'.run inputs start') := by
  induction inputs generalizing start start' with
  | nil => exact ⟨rfl, initially⟩
  | cons input inputs inductionHypothesis =>
      have first := agree input start start' within.1 initially
      cases stepped : machine.step input start with
      | error fault =>
          cases stepped' : machine'.step input start' with
          | error fault' =>
              rw [stepped, stepped'] at first
              simp only [run, stepped, stepped']
              exact first
          | ok result' =>
              rw [stepped, stepped'] at first
              exact False.elim first
      | ok result =>
          rcases result with ⟨output, next⟩
          cases stepped' : machine'.step input start' with
          | error fault' =>
              rw [stepped, stepped'] at first
              exact False.elim first
          | ok result' =>
              rcases result' with ⟨output', next'⟩
              rw [stepped, stepped'] at first
              have stop := sameStop output output' first.1
              cases ended : machine.stops output with
              | true =>
                  rw [ended] at stop
                  simp only [run, stepped, stepped', ended, ← stop, if_true]
                  exact ⟨congrArg (fun looked => [looked]) first.1, first.2⟩
              | false =>
                  rw [ended] at stop
                  have rest := inductionHypothesis (within.tail machine stepped ended) first.2
                  simp only [run, stepped, stepped', ended, ← stop, Bool.false_eq_true, if_false]
                  cases ran : machine.run inputs next with
                  | error fault =>
                      cases ran' : machine'.run inputs next' with
                      | error fault' => simpa only [ran, ran'] using rest
                      | ok final' =>
                          rw [ran, ran'] at rest
                          exact False.elim rest
                  | ok final =>
                      cases ran' : machine'.run inputs next' with
                      | error fault' =>
                          rw [ran, ran'] at rest
                          exact False.elim rest
                      | ok final' =>
                          rw [ran, ran'] at rest
                          exact ⟨List.cons_eq_cons.mpr ⟨first.1, rest.1⟩, rest.2⟩

/-- The simulation rule: where each step that succeeds is matched by a step of the
other machine, with the same output, each run that succeeds is matched by a run. -/
theorem run_simulated {Fault' : Type x} (machine' : Machine Input State' Output Fault')
    (related : State -> State' -> Prop) (sameStop : machine'.stops = machine.stops)
    (step : forall input state state' output next, related state state' ->
      machine.step input state = .ok (output, next) ->
        Exists fun next' => machine'.step input state' = .ok (output, next') ∧ related next next')
    {inputs : List Input} {start final : State} {start' : State'} {outputs : List Output}
    (initially : related start start') (ran : machine.run inputs start = .ok (outputs, final)) :
    Exists fun final' => machine'.run inputs start' = .ok (outputs, final') ∧ related final final' := by
  induction inputs generalizing start start' outputs with
  | nil =>
      cases ran
      exact ⟨start', rfl, initially⟩
  | cons input inputs inductionHypothesis =>
      rcases machine.run_cons_ok ran with ⟨output, next, stepped, rest⟩
      rcases step input start start' output next initially stepped with ⟨next', stepped', still⟩
      rcases rest with ⟨ended, rfl, rfl⟩ | ⟨continues, outputs', ran', rfl⟩
      · have ended' : machine'.stops output = true := sameStop ▸ ended
        refine ⟨next', ?_, still⟩
        simp only [run, stepped', ended', if_true]
      · have continues' : machine'.stops output = false := sameStop ▸ continues
        rcases inductionHypothesis still ran' with ⟨final', matched, related'⟩
        refine ⟨final', ?_, related'⟩
        rw [machine'.run_cons inputs stepped' continues', matched]
        rfl

end Machine
end Library
end OsPa
