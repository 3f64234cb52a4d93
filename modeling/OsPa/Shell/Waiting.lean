import Mathlib.Order.RelClasses
import Mathlib.Order.WellFounded
import OsPa.Shell.Wiring

namespace OsPa
namespace Shell

open Library

/-!
# The shell waits for its children

There is always a process that can take a step until the shell has returned.  A child
waits only for the other one, and the two never wait for each other.  Where a program
comes to its end once it is not delivered any input, or once it cannot write, the shell
returns after finitely many steps.
-/

section Child

variable {State Byte : Type} {code : ChildCode} {act : State -> Act State Byte} {start : Option State}
  {capacity : Nat} {readers writers : Prop} {pipe after : Pipe Byte} {child next : Child State}

/-- The code of a child never waits. -/
theorem ChildStep.exists_of_code {point : ChildPoint} (isAt : child.phase = .code point) :
    Exists fun after => Exists fun next =>
      ChildStep code act start capacity readers writers pipe child after next := by
  rcases child with ⟨phase, descriptors⟩
  cases isAt
  cases point with
  | dup2 => exact ⟨_, _, .dup2⟩
  | close => exact ⟨_, _, .close⟩
  | execvp =>
      cases found : start with
      | none => exact ⟨_, _, .execvpFails rfl⟩
      | some state => exact ⟨_, _, .execvp rfl⟩
  | closeOwn => exact ⟨_, _, .closeOwn⟩
  | exit => exact ⟨_, _, .exit⟩

theorem ChildStep.exists_of_running {state : State} (isRunning : child.phase = .running state)
    (input : child.descriptors 0 = some .reading ∨ child.descriptors 0 = some .other)
    (output : child.descriptors 1 = some .writing ∨ child.descriptors 1 = some .other)
    (free : ¬ Blocked act capacity readers writers child.descriptors pipe state) :
    Exists fun after => Exists fun next =>
      ChildStep code act start capacity readers writers pipe child after next := by
  rcases child with ⟨phase, descriptors⟩
  cases isRunning
  rcases ProgramStep.exists_of_not_blocked input output free with ⟨after, outcome, step⟩
  cases outcome with
  | running next => exact ⟨_, _, .runs step⟩
  | exited status => exact ⟨_, _, .ends step⟩

/-- A child that is there and has not been reaped runs or has exited. -/
theorem Phase.cases_of_present {phase : Phase State} (present : phase ≠ .absent) (unreaped : phase ≠ .reaped) :
    (Exists fun point => phase = .code point) ∨ (Exists fun state => phase = .running state) ∨
      Exists fun status => phase = .exited status := by
  cases phase with
  | absent => exact absurd rfl present
  | code point => exact Or.inl ⟨point, rfl⟩
  | running state => exact Or.inr (Or.inl ⟨state, rfl⟩)
  | exited status => exact Or.inr (Or.inr ⟨status, rfl⟩)
  | reaped => exact absurd rfl unreaped

end Child

namespace Setting

variable {Left Right Byte : Type} {setting : Setting Left Right Byte} {s next : Pipeline Left Right Byte}

/-- The first child goes on, or it waits for room in the buffer. -/
private theorem Wired.left_goes_on (wired : setting.Wired s) (present : s.left.phase ≠ .absent)
    (unreaped : s.left.phase ≠ .reaped) :
    (Exists fun next => setting.Step s next) ∨ (Exists fun status => s.left.phase = .exited status) ∨
      Exists fun state => s.left.phase = .running state ∧ setting.capacity ≤ s.pipe.buffer.length ∧
        s.Holds .reading := by
  rcases Phase.cases_of_present present unreaped with ⟨point, isAt⟩ | ⟨state, isRunning⟩ | exited
  · rcases ChildStep.exists_of_code isAt with ⟨after, next, step⟩
    exact Or.inl ⟨_, .left step⟩
  · have standard := wired.left_program state isRunning
    by_cases blocked : Blocked setting.left setting.capacity (s.Holds .reading) (s.Holds .writing) s.left.descriptors
        s.pipe state
    · cases blocked with
      | reading acts input empty awaited =>
          rw [standard.1] at input
          cases input
      | writing acts output full attended => exact Or.inr (Or.inr ⟨state, isRunning, full, attended⟩)
    · rcases ChildStep.exists_of_running isRunning (Or.inr standard.1) (Or.inl standard.2) blocked with
        ⟨after, next, step⟩
      exact Or.inl ⟨_, .left step⟩
  · exact Or.inr (Or.inl exited)

/-- The second child goes on, or it waits for a byte. -/
private theorem Wired.right_goes_on (wired : setting.Wired s) (present : s.right.phase ≠ .absent)
    (unreaped : s.right.phase ≠ .reaped) :
    (Exists fun next => setting.Step s next) ∨ (Exists fun status => s.right.phase = .exited status) ∨
      (s.pipe.buffer = [] ∧ s.Holds .writing) := by
  rcases Phase.cases_of_present present unreaped with ⟨point, isAt⟩ | ⟨state, isRunning⟩ | exited
  · rcases ChildStep.exists_of_code isAt with ⟨after, next, step⟩
    exact Or.inl ⟨_, .right step⟩
  · have standard := wired.right_program state isRunning
    by_cases blocked : Blocked setting.right setting.capacity (s.Holds .reading) (s.Holds .writing)
        s.right.descriptors s.pipe state
    · cases blocked with
      | reading acts input empty awaited => exact Or.inr (Or.inr ⟨empty, awaited⟩)
      | writing acts output full attended =>
          rw [standard.2] at output
          cases output
    · rcases ChildStep.exists_of_running isRunning (Or.inl standard.1) (Or.inr standard.2) blocked with
        ⟨after, next, step⟩
      exact Or.inl ⟨_, .right step⟩
  · exact Or.inr (Or.inl exited)

/-- There is always a process that goes on. -/
private theorem Wired.goes_on (wired : setting.Wired s) (waits : s.shell ≠ .returned) :
    Exists fun next => setting.Step s next := by
  have counted := wired.counted
  cases isAt : s.shell with
  | forkLeft => exact ⟨_, .forkLeft isAt⟩
  | closeWriting => exact ⟨_, .closeWriting isAt⟩
  | forkRight => exact ⟨_, .forkRight isAt⟩
  | closeReading => exact ⟨_, .closeReading isAt⟩
  | returned => exact absurd isAt waits
  | waitLeft =>
      rw [isAt] at counted
      rcases wired.left_goes_on (mt counted.leftAbsent.mp (by decide)) (mt counted.leftReaped.mp (by decide)) with
        goesOn | ⟨status, exited⟩ | ⟨state, isRunning, full, attended⟩
      · exact goesOn
      · exact ⟨_, .waitLeft isAt exited⟩
      · rcases wired.right_goes_on (mt counted.rightAbsent.mp (by decide)) (mt counted.rightReaped.mp (by decide)) with
          goesOn | ⟨status, exited⟩ | ⟨empty, _⟩
        · exact goesOn
        · -- nobody reads any more, so that the first program is not kept waiting
          rcases attended with shell | left | right
          · rw [wired.shell, isAt] at shell
            exact absurd shell (setting.shell_not_reading (by decide))
          · rw [wired.left, isRunning] at left
            exact absurd left (setting.left_not_reading state)
          · rw [wired.right, exited] at right
            exact absurd right (Descriptors.not_holds_closed _)
        · rw [empty] at full
          exact absurd setting.positive (Nat.not_lt.mpr full)
  | waitRight =>
      rw [isAt] at counted
      rcases wired.right_goes_on (mt counted.rightAbsent.mp (by decide)) (mt counted.rightReaped.mp (by decide)) with
        goesOn | ⟨status, exited⟩ | ⟨_, shell | left | right⟩
      · exact goesOn
      · exact ⟨_, .waitRight isAt exited⟩
      · rw [wired.shell, isAt] at shell
        exact absurd shell (setting.shell_not_writing (by decide))
      · rw [wired.left, counted.leftReaped.mpr (by decide)] at left
        exact absurd left (Descriptors.not_holds_closed _)
      · rw [wired.right] at right
        exact absurd right (setting.right_not_writing _)

end Setting

/-! ## Ends -/

namespace Phase

variable {State : Type}

/-- How far a child is from its end, its program apart. -/
def distance : Phase State -> Nat
  | absent => 7
  | code .dup2 => 6
  | code .close => 5
  | code .execvp => 4
  | code .closeOwn => 3
  | code .exit => 2
  | running _ => 1
  | exited _ => 0
  | reaped => 0

/-- The child comes closer to its end, or its program does. -/
inductive Closer (follows : State -> State -> Prop) : Phase State -> Phase State -> Prop
  | distance {next phase : Phase State} (less : next.distance < phase.distance) : Closer follows next phase
  | running {next state : State} (later : follows next state) : Closer follows (running next) (running state)

private theorem closer_wellFounded {follows : State -> State -> Prop} (wellFounded : WellFounded follows) :
    WellFounded (Closer follows) := by
  have general : forall bound (phase : Phase State), phase.distance = bound -> Acc (Closer follows) phase := by
    intro bound
    induction bound using Nat.strong_induction_on with
    | h bound inductionHypothesis =>
        have fromDistance : forall phase next : Phase State, phase.distance = bound -> next.distance < phase.distance ->
            Acc (Closer follows) next :=
          fun phase next isBound less => inductionHypothesis next.distance (isBound ▸ less) next rfl
        intro phase isBound
        cases phase with
        | running state =>
            induction state using wellFounded.induction with
            | h state inner =>
                refine Acc.intro _ fun next closer => ?_
                cases closer with
                | distance less => exact fromDistance _ next isBound less
                | running later => exact inner _ later isBound
        | _ =>
            refine Acc.intro _ fun next closer => ?_
            cases closer with
            | distance less => exact fromDistance _ next isBound less
  exact ⟨fun phase => general phase.distance phase rfl⟩

end Phase

section Child

variable {State Byte : Type} {code : ChildCode} {act : State -> Act State Byte} {start : Option State}
  {capacity : Nat} {readers writers : Prop} {pipe after : Pipe Byte} {child next : Child State}

private theorem ChildStep.closer (step : ChildStep code act start capacity readers writers pipe child after next) :
    Phase.Closer (Follows act) next.phase child.phase := by
  cases step with
  | runs step => exact .running step.follows
  | _ => exact .distance (by simp [Phase.distance])

/-- A child whose program is at one end of the pipe comes closer to its end without it,
or it uses up what can be taken or put there. -/
private theorem ChildStep.without (side : PipeEnd)
    (standard : forall state, child.phase = .running state -> child.descriptors.AtEnd side)
    (step : ChildStep code act start capacity readers writers pipe child after next) :
    after.allowance capacity side < pipe.allowance capacity side ∨
      (after.buffer = pipe.buffer ∧ Phase.Closer (FollowsWithout act side) next.phase child.phase) := by
  cases step with
  | runs step => exact (step.without side (standard _ rfl)).imp_right fun same => ⟨same.1, .running same.2⟩
  | ends step => exact Or.inr ⟨congrArg Pipe.buffer step.exited, .distance (by simp [Phase.distance])⟩
  | _ => exact Or.inr ⟨rfl, .distance (by simp [Phase.distance])⟩

end Child

namespace Setting

variable {Left Right Byte : Type} {setting : Setting Left Right Byte} {s next : Pipeline Left Right Byte}

variable (setting) in
/-- The first program comes to its end whatever it reads and the second one does
without input, or the second one does whatever it reads and the first one does as long
as it does not write. -/
def Finite : Prop :=
  (WellFounded (Follows setting.left) ∧ WellFounded (FollowsWithoutInput setting.right)) ∨
    (WellFounded (Follows setting.right) ∧ WellFounded (FollowsWithoutOutput setting.left))

/-- A step of the shell is its own progress; a step of a child leaves the shell and the
other child where they are. -/
inductive Moves (setting : Setting Left Right Byte) (s next : Pipeline Left Right Byte) : Prop
  | shell (further : 6 - next.shell.steps < 6 - s.shell.steps)
  | left (still : next.shell = s.shell) (right : next.right = s.right)
      (step : ChildStep setting.leftCode setting.left setting.leftStart setting.capacity (s.Holds .reading)
        (s.Holds .writing) s.pipe s.left next.pipe next.left)
  | right (still : next.shell = s.shell) (left : next.left = s.left)
      (step : ChildStep setting.rightCode setting.right setting.rightStart setting.capacity (s.Holds .reading)
        (s.Holds .writing) s.pipe s.right next.pipe next.right)

private theorem Step.moves (step : setting.Step s next) : Moves setting s next := by
  cases step with
  | left step => exact .left rfl rfl step
  | right step => exact .right rfl rfl step
  | forkLeft isAt | closeWriting isAt | forkRight isAt | closeReading isAt | waitLeft isAt _ | waitRight isAt _ =>
      refine .shell ?_
      rw [isAt]
      simp [ShellPoint.steps]

/-- One child takes so many steps.  The other one has so many as long as it does not use
its end of the pipe, which it cannot do for ever while the first one does nothing. -/
private theorem decreases {Free Quiet : Type} {free : Pipeline Left Right Byte -> Phase Free}
    {quiet : Pipeline Left Right Byte -> Phase Quiet} {follows : Free -> Free -> Prop}
    {without : Quiet -> Quiet -> Prop} (side : PipeEnd) (wellFounded : WellFounded follows)
    (wellFounded' : WellFounded without)
    (closer : forall {s next}, setting.Wired s -> setting.Step s next ->
      6 - next.shell.steps < 6 - s.shell.steps ∨
      (next.shell = s.shell ∧ Phase.Closer follows (free next) (free s)) ∨
      (next.shell = s.shell ∧ free next = free s ∧
        (next.pipe.allowance setting.capacity side < s.pipe.allowance setting.capacity side ∨
          (next.pipe.buffer = s.pipe.buffer ∧ Phase.Closer without (quiet next) (quiet s))))) :
    WellFounded fun next s => setting.Wired s ∧ setting.Step s next := by
  have order := Nat.lt_wfRel.wf.prod_lex ((Phase.closer_wellFounded wellFounded).prod_lex
    (Nat.lt_wfRel.wf.prod_lex (Phase.closer_wellFounded wellFounded')))
  refine Subrelation.wf ?_ (InvImage.wf (fun s : Pipeline Left Right Byte =>
    (6 - s.shell.steps, free s, s.pipe.allowance setting.capacity side, quiet s)) order)
  rintro next s ⟨wired, step⟩
  unfold InvImage
  dsimp only
  rcases closer wired step with further | ⟨still, closer⟩ | ⟨still, same, less | ⟨buffer, closer⟩⟩
  · exact Prod.Lex.left _ _ further
  · rw [still]
    exact Prod.Lex.right _ (Prod.Lex.left _ _ closer)
  · rw [still, same]
    exact Prod.Lex.right _ (Prod.Lex.right _ (Prod.Lex.left _ _ less))
  · have allowance : next.pipe.allowance setting.capacity side = s.pipe.allowance setting.capacity side := by
      unfold Pipe.allowance
      rw [buffer]
    rw [still, same, allowance]
    exact Prod.Lex.right _ (Prod.Lex.right _ (Prod.Lex.right _ closer))

private theorem Finite.wellFounded (finite : setting.Finite) :
    WellFounded fun next s => setting.Wired s ∧ setting.Step s next := by
  rcases finite with ⟨left, right⟩ | ⟨right, left⟩
  · apply decreases .reading left right
    intro s next wired step
    cases step.moves with
    | shell further => exact Or.inl further
    | left still right step => exact Or.inr (Or.inl ⟨still, step.closer⟩)
    | right still left step =>
        exact Or.inr (Or.inr ⟨still, congrArg Child.phase left, step.without .reading wired.right_program⟩)
  · apply decreases .writing right left
    intro s next wired step
    cases step.moves with
    | shell further => exact Or.inl further
    | right still left step => exact Or.inr (Or.inl ⟨still, step.closer⟩)
    | left still right step =>
        exact Or.inr (Or.inr ⟨still, congrArg Child.phase right, step.without .writing wired.left_program⟩)

/-- If one of the programs comes to its end whatever happens, and the other one does when
it is left alone, the shell returns after finitely many steps, in any order of these.
Then it has the descriptors that it has had before, and no child is left behind. -/
theorem pipeline_ends (finite : setting.Finite) :
    (forall run : Nat -> Pipeline Left Right Byte, run 0 = setting.start ->
      Exists fun n => ¬ setting.Step (run n) (run (n + 1))) ∧
    forall s, setting.Reached s -> (forall next, ¬ setting.Step s next) ->
      s.shell = .returned ∧ s.descriptors = setting.before ∧ s.left.phase = .reaped ∧ s.right.phase = .reaped := by
  constructor
  · intro run first
    by_contra forever
    rw [not_exists] at forever
    have steps (n : Nat) : setting.Step (run n) (run (n + 1)) := not_not.mp (forever n)
    have wired (n : Nat) : setting.Wired (run n) := by
      induction n with
      | zero => exact first ▸ wired_start
      | succ n inductionHypothesis => exact inductionHypothesis.step (steps n)
    have order : IsWellFounded _ fun next s => setting.Wired s ∧ setting.Step s next := ⟨finite.wellFounded⟩
    rcases @WellFounded.not_rel_apply_succ _ _ order run with ⟨n, ends⟩
    exact ends ⟨wired n, steps n⟩
  · intro s reached stuck
    have wired := reached.wired
    have returned : s.shell = .returned := by
      by_contra waits
      rcases wired.goes_on waits with ⟨next, step⟩
      exact stuck next step
    have counted := wired.counted
    rw [returned] at counted
    refine ⟨returned, ?_, counted.leftReaped.mpr (by decide), counted.rightReaped.mpr (by decide)⟩
    rw [wired.shell, returned]
    exact setting.closed_eq_before

end Setting

/-! ## The end of a copy -/

namespace Setting

private theorem copying_finite : copying.Finite := by
  refine Or.inl ⟨?_, ?_⟩
  · refine Subrelation.wf ?_ (InvImage.wf List.length Nat.lt_wfRel.wf)
    intro next state follows
    cases follows with
    | work acts => cases state <;> cases acts
    | read acts delivered => cases state <;> cases acts
    | write acts =>
        cases state with
        | nil => cases acts
        | cons number rest =>
            cases acts
            exact Nat.lt_succ_self _
  · refine Subrelation.wf ?_ (InvImage.wf Consumer.left Nat.lt_wfRel.wf)
    intro next state follows
    cases follows with
    | work acts => cases state <;> cases acts
    | readEnd acts =>
        cases state <;> cases acts
        exact Nat.zero_lt_one
    | write acts =>
        cases state <;> cases acts
        exact Nat.one_lt_two

theorem pipeline_ends_copying :
    (forall run : Nat -> Pipeline (List Nat) Consumer Nat, run 0 = copying.start ->
      Exists fun n => ¬ copying.Step (run n) (run (n + 1))) ∧
    forall s, copying.Reached s -> (forall next, ¬ copying.Step s next) ->
      s.shell = .returned ∧ s.descriptors = copying.before ∧ s.left.phase = .reaped ∧ s.right.phase = .reaped :=
  pipeline_ends copying_finite

end Setting
end Shell
end OsPa
