import OsPa.Shell.Pipeline

namespace OsPa
namespace Shell

open Library

/-!
# How the processes at a pipe are connected

The descriptors of a process follow from where it is in its code.  The shell closes
its writing end in front of the second `fork`, so that no process but the first child
ever has the writing end open from then on, and it closes its reading end before it
waits.
-/

/-- The descriptors of a child that has been forked with some. -/
def ChildCode.table {State : Type} (code : ChildCode) (initial : Descriptors) : Phase State -> Descriptors
  | .code .dup2 => initial
  | .code .close => initial.dup2 code.own code.standard
  | .code .execvp | .code .closeOwn | .running _ => (initial.dup2 code.own code.standard).close code.other
  | .code .exit => ((initial.dup2 code.own code.standard).close code.other).close code.own
  | .absent | .exited _ | .reaped => .closed

/-- The child runs. -/
def Phase.Active {State : Type} : Phase State -> Prop
  | .code _ | .running _ => True
  | .absent | .exited _ | .reaped => False

private theorem ChildCode.not_holds_table {State : Type} (code : ChildCode) {initial : Descriptors} {file kept : File}
    (isOpen : initial code.own = some kept) (different : file ≠ kept) (absent : ¬ initial.Holds file)
    (phase : Phase State) : ¬ (code.table initial phase).Holds file := by
  have duplicated : ¬ (initial.dup2 code.own code.standard).Holds file := by
    intro holds
    rcases Descriptors.holds_of_dup2 isOpen different holds with ⟨fd, _, isFile⟩
    exact absent ⟨fd, isFile⟩
  have closed := Descriptors.not_holds_close duplicated code.other
  cases phase with
  | code point =>
      cases point with
      | dup2 => exact absent
      | close => exact duplicated
      | execvp => exact closed
      | closeOwn => exact closed
      | exit => exact Descriptors.not_holds_close closed code.own
  | running state => exact closed
  | absent => exact Descriptors.not_holds_closed file
  | exited status => exact Descriptors.not_holds_closed file
  | reaped => exact Descriptors.not_holds_closed file

/-- From its duplication on, a child has its end of the pipe open as its standard file. -/
private theorem ChildCode.holds_table {State : Type} (code : ChildCode) {initial : Descriptors} {kept : File}
    (isOpen : initial code.own = some kept) (notOwn : code.standard ≠ code.own)
    (notOther : code.standard ≠ code.other) {phase : Phase State} (active : phase.Active) :
    (code.table initial phase).Holds kept := by
  have duplicated : initial.dup2 code.own code.standard code.standard = some kept := Descriptors.dup2_self isOpen
  have closed := (Descriptors.close_of_ne notOther).trans duplicated
  cases phase with
  | code point =>
      cases point with
      | dup2 => exact ⟨_, isOpen⟩
      | close => exact ⟨_, duplicated⟩
      | execvp => exact ⟨_, closed⟩
      | closeOwn => exact ⟨_, closed⟩
      | exit => exact ⟨_, (Descriptors.close_of_ne notOwn).trans closed⟩
  | running state => exact ⟨_, closed⟩
  | absent => exact False.elim active
  | exited status => exact False.elim active
  | reaped => exact False.elim active

section Child

variable {State Byte : Type} {code : ChildCode} {act : State -> Act State Byte} {start : Option State}
  {capacity : Nat} {readers writers : Prop} {pipe after : Pipe Byte} {child next : Child State}
  {initial : Descriptors}

private theorem ChildStep.table (step : ChildStep code act start capacity readers writers pipe child after next)
    (isTable : child.descriptors = code.table initial child.phase) :
    next.descriptors = code.table initial next.phase := by
  cases step with
  | exit => rfl
  | ends step => rfl
  | dup2 => exact congrArg (Descriptors.dup2 · code.own code.standard) isTable
  | close => exact congrArg (Descriptors.close · code.other) isTable
  | closeOwn => exact congrArg (Descriptors.close · code.own) isTable
  | execvp found => exact isTable
  | execvpFails notFound => exact isTable
  | runs step => exact isTable

/-- Only a child that runs takes a step, and none is reaped by it. -/
theorem ChildStep.phases (step : ChildStep code act start capacity readers writers pipe child after next) :
    (child.phase ≠ .absent ∧ child.phase ≠ .reaped) ∧ next.phase ≠ .absent ∧ next.phase ≠ .reaped := by
  cases step <;> exact ⟨⟨nofun, nofun⟩, nofun, nofun⟩

/-- Only a program can change the pipe. -/
theorem ChildStep.pipe_cases (step : ChildStep code act start capacity readers writers pipe child after next) :
    after = pipe ∨ Exists fun state => Exists fun outcome => child.phase = .running state ∧
      ProgramStep act capacity readers writers child.descriptors pipe state after outcome := by
  cases step with
  | runs step => exact Or.inr ⟨_, _, rfl, step⟩
  | ends step => exact Or.inr ⟨_, _, rfl, step⟩
  | _ => exact Or.inl rfl

private theorem ChildStep.active (step : ChildStep code act start capacity readers writers pipe child after next) :
    child.phase.Active := by
  cases step <;> trivial

end Child

namespace Setting

variable {Left Right Byte : Type} (setting : Setting Left Right Byte)

/-- The descriptors of the shell. -/
def shellTable : ShellPoint -> Descriptors
  | .forkLeft | .closeWriting => setting.opened
  | .forkRight | .closeReading => setting.opened.close setting.writes
  | .waitLeft | .waitRight | .returned => (setting.opened.close setting.writes).close setting.reads

/-- The children that the shell has forked are there, and those that it has waited for
have been reaped. -/
structure Counted (shell : ShellPoint) (left : Phase Left) (right : Phase Right) : Prop where
  leftAbsent : left = .absent ↔ shell.steps < 1
  rightAbsent : right = .absent ↔ shell.steps < 3
  leftReaped : left = .reaped ↔ 5 ≤ shell.steps
  rightReaped : right = .reaped ↔ 6 ≤ shell.steps

/-- All processes have the descriptors that their code gives them. -/
structure Wired (s : Pipeline Left Right Byte) : Prop where
  shell : s.descriptors = setting.shellTable s.shell
  left : s.left.descriptors = setting.leftCode.table setting.opened s.left.phase
  right : s.right.descriptors = setting.rightCode.table (setting.opened.close setting.writes) s.right.phase
  counted : Counted s.shell s.left.phase s.right.phase

variable {setting} {s next : Pipeline Left Right Byte}

theorem Counted.start : Counted .forkLeft (.absent : Phase Left) (.absent : Phase Right) where
  leftAbsent := iff_of_true rfl (by decide)
  rightAbsent := iff_of_true rfl (by decide)
  leftReaped := iff_of_false nofun (by decide)
  rightReaped := iff_of_false nofun (by decide)

theorem wired_start : setting.Wired setting.start := ⟨rfl, rfl, rfl, .start⟩

theorem Wired.step (wired : setting.Wired s) (step : setting.Step s next) : setting.Wired next := by
  rcases wired with ⟨shell, left, right, leftAbsent, rightAbsent, leftReaped, rightReaped⟩
  cases step with
  | forkLeft isAt =>
      rw [isAt] at shell rightAbsent rightReaped
      have counted : Counted .closeWriting (.code .dup2 : Phase Left) s.right.phase :=
        ⟨iff_of_false nofun (by decide), rightAbsent.trans (by decide), iff_of_false nofun (by decide),
          rightReaped.trans (by decide)⟩
      exact ⟨shell, shell, right, counted⟩
  | closeWriting isAt =>
      rw [isAt] at shell leftAbsent rightAbsent leftReaped rightReaped
      have counted : Counted .forkRight s.left.phase s.right.phase :=
        ⟨leftAbsent.trans (by decide), rightAbsent.trans (by decide), leftReaped.trans (by decide),
          rightReaped.trans (by decide)⟩
      exact ⟨congrArg (Descriptors.close · setting.writes) shell, left, right, counted⟩
  | forkRight isAt =>
      rw [isAt] at shell leftAbsent leftReaped
      have counted : Counted .closeReading s.left.phase (.code .dup2 : Phase Right) :=
        ⟨leftAbsent.trans (by decide), iff_of_false nofun (by decide), leftReaped.trans (by decide),
          iff_of_false nofun (by decide)⟩
      exact ⟨shell, left, shell, counted⟩
  | closeReading isAt =>
      rw [isAt] at shell leftAbsent rightAbsent leftReaped rightReaped
      have counted : Counted .waitLeft s.left.phase s.right.phase :=
        ⟨leftAbsent.trans (by decide), rightAbsent.trans (by decide), leftReaped.trans (by decide),
          rightReaped.trans (by decide)⟩
      exact ⟨congrArg (Descriptors.close · setting.reads) shell, left, right, counted⟩
  | waitLeft isAt exited =>
      rw [isAt] at shell rightAbsent rightReaped
      rw [exited] at left
      have counted : Counted .waitRight (.reaped : Phase Left) s.right.phase :=
        ⟨iff_of_false nofun (by decide), rightAbsent.trans (by decide), iff_of_true rfl (by decide),
          rightReaped.trans (by decide)⟩
      exact ⟨shell, left, right, counted⟩
  | waitRight isAt exited =>
      rw [isAt] at shell leftAbsent leftReaped
      rw [exited] at right
      have counted : Counted .returned s.left.phase (.reaped : Phase Right) :=
        ⟨leftAbsent.trans (by decide), iff_of_false nofun (by decide), leftReaped.trans (by decide),
          iff_of_true rfl (by decide)⟩
      exact ⟨shell, left, right, counted⟩
  | left step =>
      rcases step.phases with ⟨⟨present, unreaped⟩, present', unreaped'⟩
      exact ⟨shell, step.table left, right, iff_of_false present' (mt leftAbsent.mpr present), rightAbsent,
        iff_of_false unreaped' (mt leftReaped.mpr unreaped), rightReaped⟩
  | right step =>
      rcases step.phases with ⟨⟨present, unreaped⟩, present', unreaped'⟩
      exact ⟨shell, left, step.table right, leftAbsent, iff_of_false present' (mt rightAbsent.mpr present), leftReaped,
        iff_of_false unreaped' (mt rightReaped.mpr unreaped)⟩

theorem Reached.wired (reached : setting.Reached s) : setting.Wired s := by
  induction reached with
  | refl => exact wired_start
  | tail _ step inductionHypothesis => exact inductionHypothesis.step step

/-! ## Ends of the pipe -/

section Ends

variable (setting)

theorem ne_reads {fd : Nat} (isOpen : setting.before fd = some .other) : fd ≠ setting.reads := by
  rintro rfl
  rw [setting.readsFree] at isOpen
  cases isOpen

theorem ne_writes {fd : Nat} (isOpen : setting.before fd = some .other) : fd ≠ setting.writes := by
  rintro rfl
  rw [setting.writesFree] at isOpen
  cases isOpen

theorem opened_writes : setting.opened setting.writes = some .writing := Function.update_self ..

theorem opened_reads : setting.opened setting.reads = some .reading := by
  unfold opened
  rw [Function.update_of_ne setting.apart, Function.update_self]

theorem opened_of_before {fd : Nat} (isOpen : setting.before fd = some .other) :
    setting.opened fd = some .other := by
  unfold opened
  rw [Function.update_of_ne (setting.ne_writes isOpen), Function.update_of_ne (setting.ne_reads isOpen), isOpen]

private theorem eq_writes_of_opened {fd : Nat} (isFile : setting.opened fd = some .writing) : fd = setting.writes := by
  by_contra different
  unfold opened at isFile
  rw [Function.update_of_ne different] at isFile
  by_cases reads : fd = setting.reads
  · rw [reads, Function.update_self] at isFile
    cases isFile
  · rw [Function.update_of_ne reads] at isFile
    cases setting.others fd _ isFile

private theorem eq_reads_of_opened {fd : Nat} (isFile : setting.opened fd = some .reading) : fd = setting.reads := by
  by_contra different
  unfold opened at isFile
  by_cases writes : fd = setting.writes
  · rw [writes, Function.update_self] at isFile
    cases isFile
  · rw [Function.update_of_ne writes, Function.update_of_ne different] at isFile
    cases setting.others fd _ isFile

/-- The first program writes to the pipe and reads what the shell would. -/
theorem left_standard (state : Left) :
    setting.leftCode.table setting.opened (.running state) 0 = some .other ∧
      setting.leftCode.table setting.opened (.running state) 1 = some .writing := by
  have zero := setting.ne_reads setting.stdin
  have one := setting.ne_reads setting.stdout
  constructor
  · exact (Descriptors.close_of_ne zero).trans
      ((Descriptors.dup2_of_ne Nat.zero_ne_one).trans (setting.opened_of_before setting.stdin))
  · exact (Descriptors.close_of_ne one).trans (Descriptors.dup2_self setting.opened_writes)

/-- The second program reads from the pipe and writes where the shell would. -/
theorem right_standard (state : Right) :
    setting.rightCode.table (setting.opened.close setting.writes) (.running state) 0 = some .reading ∧
      setting.rightCode.table (setting.opened.close setting.writes) (.running state) 1 = some .other := by
  have zero := setting.ne_writes setting.stdin
  have one := setting.ne_writes setting.stdout
  have reads : setting.opened.close setting.writes setting.reads = some .reading :=
    (Descriptors.close_of_ne setting.apart).trans setting.opened_reads
  constructor
  · exact (Descriptors.close_of_ne zero).trans (Descriptors.dup2_self reads)
  · exact (Descriptors.close_of_ne one).trans ((Descriptors.dup2_of_ne Nat.one_ne_zero).trans
      ((Descriptors.close_of_ne one).trans (setting.opened_of_before setting.stdout)))

theorem not_holds_writing_closed : ¬ (setting.opened.close setting.writes).Holds .writing := by
  intro holds
  rcases Descriptors.holds_of_close holds with ⟨fd, different, isFile⟩
  exact different (setting.eq_writes_of_opened isFile)

private theorem closed_reads : setting.opened.close setting.writes setting.reads = some .reading :=
  (Descriptors.close_of_ne setting.apart).trans setting.opened_reads

theorem right_not_writing (phase : Phase Right) :
    ¬ (setting.rightCode.table (setting.opened.close setting.writes) phase).Holds .writing :=
  setting.rightCode.not_holds_table setting.closed_reads (by decide) setting.not_holds_writing_closed phase

private theorem left_writing {phase : Phase Left} (active : phase.Active) :
    (setting.leftCode.table setting.opened phase).Holds .writing :=
  setting.leftCode.holds_table setting.opened_writes (setting.ne_writes setting.stdout)
    (setting.ne_reads setting.stdout) active

/-- A program at the left has no reading end. -/
theorem left_not_reading (state : Left) :
    ¬ (setting.leftCode.table setting.opened (.running state)).Holds .reading := by
  intro holds
  rcases Descriptors.holds_of_close holds with ⟨fd, notReads, isFile⟩
  change setting.opened.dup2 setting.writes 1 fd = some .reading at isFile
  by_cases standard : fd = 1
  · rw [standard, Descriptors.dup2_self setting.opened_writes] at isFile
    cases isFile
  · rw [Descriptors.dup2_of_ne standard] at isFile
    exact notReads (setting.eq_reads_of_opened isFile)

/-- Only the first child keeps the writing end open when the shell has closed it. -/
theorem shell_not_writing {point : ShellPoint} (closed : 2 ≤ point.steps) :
    ¬ (setting.shellTable point).Holds .writing := by
  have absent := setting.not_holds_writing_closed
  cases point with
  | forkLeft => exact absurd closed (by decide)
  | closeWriting => exact absurd closed (by decide)
  | forkRight => exact absent
  | closeReading => exact absent
  | waitLeft => exact Descriptors.not_holds_close absent setting.reads
  | waitRight => exact Descriptors.not_holds_close absent setting.reads
  | returned => exact Descriptors.not_holds_close absent setting.reads

/-- In the end the shell has the descriptors that it has had in the beginning. -/
theorem closed_eq_before : (setting.opened.close setting.writes).close setting.reads = setting.before := by
  funext fd
  by_cases reads : fd = setting.reads
  · rw [reads, Descriptors.close_self, setting.readsFree]
  · rw [Descriptors.close_of_ne reads]
    by_cases writes : fd = setting.writes
    · rw [writes, Descriptors.close_self, setting.writesFree]
    · rw [Descriptors.close_of_ne writes]
      unfold opened
      rw [Function.update_of_ne writes, Function.update_of_ne reads]

theorem shell_not_reading {point : ShellPoint} (closed : 4 ≤ point.steps) :
    ¬ (setting.shellTable point).Holds .reading := by
  have absent : ¬ ((setting.opened.close setting.writes).close setting.reads).Holds .reading := by
    rw [setting.closed_eq_before]
    rintro ⟨fd, isFile⟩
    cases setting.others fd _ isFile
  cases point with
  | waitLeft => exact absent
  | waitRight => exact absent
  | returned => exact absent
  | _ => exact absurd closed (by decide)

end Ends

/-- The standard files of the first program. -/
theorem Wired.left_program {setting : Setting Left Right Byte} {s : Pipeline Left Right Byte}
    (wired : setting.Wired s) (state : Left) (isRunning : s.left.phase = .running state) :
    s.left.descriptors 0 = some .other ∧ s.left.descriptors 1 = some .writing := by
  rw [wired.left, isRunning]
  exact setting.left_standard state

/-- The standard files of the second program. -/
theorem Wired.right_program {setting : Setting Left Right Byte} {s : Pipeline Left Right Byte}
    (wired : setting.Wired s) (state : Right) (isRunning : s.right.phase = .running state) :
    s.right.descriptors 0 = some .reading ∧ s.right.descriptors 1 = some .other := by
  rw [wired.right, isRunning]
  exact setting.right_standard state

/-! ## What passes through the pipe -/

/-- The first child has come to its end. -/
def Gone (phase : Phase Left) : Prop := ¬ phase.Active ∧ phase ≠ .absent

/-- Nothing is lost between the programs, and the second one is told the end only when
it has been delivered everything. -/
structure Carries (s : Pipeline Left Right Byte) : Prop where
  accounted : s.pipe.Accounted
  ended : s.pipe.ended = true -> Gone s.left.phase ∧ s.pipe.buffer = []

theorem Carries.step (carries : Carries s) (wired : setting.Wired s) (step : setting.Step s next) :
    Carries next := by
  rcases carries with ⟨accounted, ended⟩
  cases step with
  | forkLeft isAt =>
      refine ⟨accounted, fun isEnded => ?_⟩
      have absent : s.left.phase = .absent := wired.counted.leftAbsent.mpr (isAt ▸ by decide)
      exact absurd absent (ended isEnded).1.2
  | closeWriting isAt => exact ⟨accounted, ended⟩
  | forkRight isAt => exact ⟨accounted, ended⟩
  | closeReading isAt => exact ⟨accounted, ended⟩
  | waitLeft isAt exited => exact ⟨accounted, fun isEnded => ⟨⟨id, nofun⟩, (ended isEnded).2⟩⟩
  | waitRight isAt exited => exact ⟨accounted, ended⟩
  | left step =>
      have active := step.active
      rcases step.pipe_cases with rfl | ⟨state, outcome, isRunning, ran⟩
      · exact ⟨accounted, fun isEnded => absurd active (ended isEnded).1.1⟩
      · refine ⟨ran.accounted accounted, fun isEnded => ?_⟩
        rcases ran.ended isEnded with before | ⟨reading, _⟩
        · exact absurd active (ended before).1.1
        · rw [(wired.left_program state isRunning).1] at reading
          cases reading
  | right step =>
      rcases step.pipe_cases with rfl | ⟨state, outcome, isRunning, ran⟩
      · exact ⟨accounted, ended⟩
      · refine ⟨ran.accounted accounted, fun isEnded => ?_⟩
        rcases ran.ended isEnded with before | ⟨_, _, empty, alone⟩
        · refine ⟨(ended before).1, (ran.buffer (ended before).2).resolve_right fun writing => ?_⟩
          rw [(wired.right_program state isRunning).2] at writing
          cases writing
        · refine ⟨⟨fun active => ?_, fun absent => ?_⟩, empty⟩
          · have writing := setting.left_writing active
            rw [← wired.left] at writing
            exact alone (Or.inr (Or.inl writing))
          · have early := wired.counted.leftAbsent.mp absent
            have absent' := wired.counted.rightAbsent.mpr (Nat.lt_trans early (by decide))
            rw [isRunning] at absent'
            cases absent'

private theorem Reached.carries (reached : setting.Reached s) : Carries s := by
  induction reached with
  | refl => exact ⟨rfl, nofun⟩
  | tail earlier step inductionHypothesis => exact inductionHypothesis.step (Reached.wired earlier) step

/-- The first program writes into the pipe, and nobody but the first child can from the
second `fork` on.  The second program reads from the pipe what has been written, and all
of it before it is told the end.  `File.other` stands for all the files of the shell, which
are not told apart. -/
structure Connected (s : Pipeline Left Right Byte) : Prop where
  left : forall state, s.left.phase = .running state ->
    s.left.descriptors 0 = some .other ∧ s.left.descriptors 1 = some .writing
  right : forall state, s.right.phase = .running state ->
    s.right.descriptors 0 = some .reading ∧ s.right.descriptors 1 = some .other
  alone : 2 ≤ s.shell.steps -> ¬ s.descriptors.Holds .writing ∧ ¬ s.right.descriptors.Holds .writing
  delivered : s.pipe.received <+: s.pipe.sent
  ended : s.pipe.ended = true -> Gone s.left.phase ∧ s.pipe.received = s.pipe.sent

/-- The programs are connected whatever the order of the steps is. -/
theorem programs_connected (reached : setting.Reached s) : Connected s := by
  have wired := reached.wired
  have carries := reached.carries
  have accounted : s.pipe.sent = s.pipe.received ++ s.pipe.buffer := carries.accounted
  refine ⟨wired.left_program, wired.right_program, fun closed => ?_, ⟨s.pipe.buffer, accounted.symm⟩,
    fun isEnded => ?_⟩
  · constructor
    · rw [wired.shell]
      exact setting.shell_not_writing closed
    · rw [wired.right]
      exact setting.right_not_writing _
  · refine ⟨(carries.ended isEnded).1, ?_⟩
    rw [accounted, (carries.ended isEnded).2, List.append_nil]

end Setting

/-! ## A producer and a consumer -/

/-- It writes numbers. -/
def producer : List Nat -> Act (List Nat) Nat
  | [] => .exit 0
  | number :: rest => .write number rest

inductive Consumer
  | reading
  | holding (number : Nat)
  | done

namespace Consumer

/-- It copies its input, one number at a time, until the input ends. -/
def act : Consumer -> Act Consumer Nat
  | reading => .read fun
      | none => done
      | some number => holding number
  | holding number => .write number reading
  | done => .exit 0

/-- The steps that it takes at most without input. -/
def left : Consumer -> Nat
  | done => 0
  | reading => 1
  | holding _ => 2

end Consumer

namespace Setting

/-- The command `seq | cat` in a shell with the usual descriptors. -/
def copying : Setting (List Nat) Consumer Nat where
  tokens := ["seq", "|", "cat"]
  loc := 1
  isPipe := by decide
  findLeft := fun words => if words = ["seq"] then some [1, 2, 3] else none
  findRight := fun words => if words = ["cat"] then some .reading else none
  left := producer
  right := Consumer.act
  capacity := 2
  before := fun fd => if fd < 3 then some .other else none
  reads := 3
  writes := 4
  positive := by decide
  others := by
    intro fd file isFile
    split at isFile
    · exact (Option.some.inj isFile).symm
    · cases isFile
  stdin := rfl
  stdout := rfl
  readsFree := rfl
  writesFree := rfl
  apart := by decide

/-- Both programs run, and the first number has passed through the pipe. -/
theorem programs_connected_copying : Exists fun s => copying.Reached s ∧ s.left.phase = .running [3] ∧
    s.right.phase = .running (.holding 1) ∧ s.pipe.sent = [1, 2] ∧ s.pipe.received = [1] ∧ Connected s := by
  have forked : copying.Reached _ := (Relation.ReflTransGen.refl.tail (.forkLeft rfl)).tail (.closeWriting rfl)
  have forked := (forked.tail (.forkRight rfl)).tail (.closeReading rfl)
  have left := ((forked.tail (.left .dup2)).tail (.left .close)).tail (.left (.execvp rfl))
  have right := ((left.tail (.right .dup2)).tail (.right .close)).tail (.right (.execvp rfl))
  have sent := right.tail (.left (.runs (.writeByte rfl rfl (Or.inr (Or.inr ⟨0, rfl⟩)) (by decide))))
  have received := sent.tail (.right (.runs (.readByte rfl rfl rfl)))
  have reached := received.tail (.left (.runs (.writeByte rfl rfl (Or.inr (Or.inr ⟨0, rfl⟩)) (by decide))))
  exact ⟨_, reached, rfl, rfl, rfl, rfl, programs_connected reached⟩

end Setting
end Shell
end OsPa
