import Mathlib.Data.List.Basic
import Mathlib.Logic.Function.Basic

/-!
# Programs at a pipe

A process has a table of descriptors, each of which stands for an end of the pipe or
for another file.  A program reads bytes from its standard input and writes bytes to
its standard output; what it does next depends on its state alone.  A read from an
empty pipe waits while some process has the writing end open, and a write to a full
pipe waits while some process has the reading end open.  Without a process at the
other end, the read comes to the end of the input and the write kills its process.

Bytes are read and written one at a time.  The pipe keeps a record of what has passed
through it, which no program can see.
-/

namespace OsPa
namespace Library

universe u v

/-- What a descriptor stands for. -/
inductive File
  | other
  | reading
  | writing
  deriving DecidableEq

abbrev Descriptors := Nat -> Option File

namespace Descriptors

/-- The table of a process that has exited. -/
def closed : Descriptors := fun _ => none

def close (descriptors : Descriptors) (fd : Nat) : Descriptors := Function.update descriptors fd none

/-- `dup2`, which leaves everything as it is if the old descriptor is not open. -/
def dup2 (descriptors : Descriptors) (old new : Nat) : Descriptors :=
  match descriptors old with
  | none => descriptors
  | some file => Function.update descriptors new (some file)

/-- Some descriptor stands for the file. -/
def Holds (descriptors : Descriptors) (file : File) : Prop := Exists fun fd => descriptors fd = some file

variable {descriptors : Descriptors} {fd old new : Nat} {file kept : File}

theorem not_holds_closed (file : File) : ¬ closed.Holds file := by
  rintro ⟨fd, isFile⟩
  cases isFile

theorem close_self (descriptors : Descriptors) (fd : Nat) : descriptors.close fd fd = none := Function.update_self ..

theorem close_of_ne (different : new ≠ fd) : descriptors.close fd new = descriptors new :=
  Function.update_of_ne different ..

theorem dup2_self (isOpen : descriptors old = some file) : descriptors.dup2 old new new = some file := by
  unfold dup2
  rw [isOpen]
  exact Function.update_self ..

theorem dup2_of_ne (different : fd ≠ new) : descriptors.dup2 old new fd = descriptors fd := by
  unfold dup2
  cases descriptors old with
  | none => rfl
  | some file => exact Function.update_of_ne different ..

theorem holds_of_close (holds : (descriptors.close fd).Holds file) :
    Exists fun other => other ≠ fd ∧ descriptors other = some file := by
  rcases holds with ⟨other, isFile⟩
  by_cases same : other = fd
  · rw [same, close_self] at isFile
    cases isFile
  · exact ⟨other, same, (close_of_ne same).symm.trans isFile⟩

/-- A descriptor that is made to stand for one file does not stand for another. -/
theorem holds_of_dup2 (isOpen : descriptors old = some kept) (different : file ≠ kept)
    (holds : (descriptors.dup2 old new).Holds file) : Exists fun fd => fd ≠ new ∧ descriptors fd = some file := by
  rcases holds with ⟨fd, isFile⟩
  by_cases same : fd = new
  · rw [same, dup2_self isOpen] at isFile
    exact absurd (Option.some.inj isFile).symm different
  · exact ⟨fd, same, (dup2_of_ne same).symm.trans isFile⟩

theorem not_holds_close (absent : ¬ descriptors.Holds file) (fd : Nat) : ¬ (descriptors.close fd).Holds file := by
  intro holds
  rcases holds_of_close holds with ⟨other, _, isFile⟩
  exact absent ⟨other, isFile⟩

end Descriptors

/-- What a program does next.  A read delivers a byte or the end of the input. -/
inductive Act (State : Type u) (Byte : Type v)
  | work (next : State)
  | read (next : Option Byte -> State)
  | write (byte : Byte) (next : State)
  | exit (status : Nat)

/-- A pipe with its record. -/
structure Pipe (Byte : Type v) where
  buffer : List Byte
  sent : List Byte
  received : List Byte
  /-- The end of the input has been delivered. -/
  ended : Bool

namespace Pipe

variable {Byte : Type v}

def empty : Pipe Byte := ⟨[], [], [], false⟩

def put (pipe : Pipe Byte) (byte : Byte) : Pipe Byte :=
  { pipe with buffer := pipe.buffer ++ [byte], sent := pipe.sent ++ [byte] }

def take (pipe : Pipe Byte) (byte : Byte) (rest : List Byte) : Pipe Byte :=
  { pipe with buffer := rest, received := pipe.received ++ [byte] }

def finish (pipe : Pipe Byte) : Pipe Byte := { pipe with ended := true }

/-- What has been sent has been received or is in the buffer. -/
def Accounted (pipe : Pipe Byte) : Prop := pipe.sent = pipe.received ++ pipe.buffer

end Pipe

/-- What has become of a program. -/
inductive Outcome (State : Type u)
  | running (state : State)
  | exited (status : Nat)

/-- The status of a process that a broken pipe has killed. -/
def brokenPipe : Nat := 141

section

variable {State : Type u} {Byte : Type v} (act : State -> Act State Byte) (capacity : Nat) (readers writers : Prop)
  (descriptors : Descriptors)

/-- A step of a program.  The propositions say whether some process has the ends of the
pipe open. -/
inductive ProgramStep : Pipe Byte -> State -> Pipe Byte -> Outcome State -> Prop
  | work {pipe : Pipe Byte} {state next : State} (acts : act state = .work next) :
      ProgramStep pipe state pipe (.running next)
  | readByte {pipe : Pipe Byte} {state : State} {next : Option Byte -> State} {byte : Byte} {rest : List Byte}
      (acts : act state = .read next) (input : descriptors 0 = some .reading) (first : pipe.buffer = byte :: rest) :
      ProgramStep pipe state (pipe.take byte rest) (.running (next (some byte)))
  | readEnd {pipe : Pipe Byte} {state : State} {next : Option Byte -> State} (acts : act state = .read next)
      (input : descriptors 0 = some .reading) (empty : pipe.buffer = []) (alone : ¬ writers) :
      ProgramStep pipe state pipe.finish (.running (next none))
  | readOther {pipe : Pipe Byte} {state : State} {next : Option Byte -> State} (acts : act state = .read next)
      (input : descriptors 0 = some .other) (delivered : Option Byte) :
      ProgramStep pipe state pipe (.running (next delivered))
  | writeByte {pipe : Pipe Byte} {state next : State} {byte : Byte} (acts : act state = .write byte next)
      (output : descriptors 1 = some .writing) (attended : readers) (room : pipe.buffer.length < capacity) :
      ProgramStep pipe state (pipe.put byte) (.running next)
  | writeBroken {pipe : Pipe Byte} {state next : State} {byte : Byte} (acts : act state = .write byte next)
      (output : descriptors 1 = some .writing) (alone : ¬ readers) :
      ProgramStep pipe state pipe (.exited brokenPipe)
  | writeOther {pipe : Pipe Byte} {state next : State} {byte : Byte} (acts : act state = .write byte next)
      (output : descriptors 1 = some .other) : ProgramStep pipe state pipe (.running next)
  | exit {pipe : Pipe Byte} {state : State} {status : Nat} (acts : act state = .exit status) :
      ProgramStep pipe state pipe (.exited status)

/-- The program waits at the pipe. -/
inductive Blocked (pipe : Pipe Byte) (state : State) : Prop
  | reading {next : Option Byte -> State} (acts : act state = .read next) (input : descriptors 0 = some .reading)
      (empty : pipe.buffer = []) (awaited : writers)
  | writing {byte : Byte} {next : State} (acts : act state = .write byte next)
      (output : descriptors 1 = some .writing) (full : capacity ≤ pipe.buffer.length) (attended : readers)

/-- The next state, whatever is delivered. -/
inductive Follows : State -> State -> Prop
  | work {state next : State} (acts : act state = .work next) : Follows next state
  | read {state : State} {next : Option Byte -> State} (acts : act state = .read next) (delivered : Option Byte) :
      Follows (next delivered) state
  | write {state next : State} {byte : Byte} (acts : act state = .write byte next) : Follows next state

/-- The next state of a program that is not delivered any input. -/
inductive FollowsWithoutInput : State -> State -> Prop
  | work {state next : State} (acts : act state = .work next) : FollowsWithoutInput next state
  | readEnd {state : State} {next : Option Byte -> State} (acts : act state = .read next) :
      FollowsWithoutInput (next none) state
  | write {state next : State} {byte : Byte} (acts : act state = .write byte next) : FollowsWithoutInput next state

/-- The next state of a program between its outputs. -/
inductive FollowsWithoutOutput : State -> State -> Prop
  | work {state next : State} (acts : act state = .work next) : FollowsWithoutOutput next state
  | read {state : State} {next : Option Byte -> State} (acts : act state = .read next) (delivered : Option Byte) :
      FollowsWithoutOutput (next delivered) state

inductive PipeEnd
  | reading
  | writing

/-- The next state of a program at one end of the pipe that does not use it. -/
def FollowsWithout : PipeEnd -> State -> State -> Prop
  | .reading => FollowsWithoutInput act
  | .writing => FollowsWithoutOutput act

end

/-- The standard files of a program at one end of the pipe. -/
def Descriptors.AtEnd (descriptors : Descriptors) : PipeEnd -> Prop
  | .reading => descriptors 0 = some .reading ∧ descriptors 1 = some .other
  | .writing => descriptors 0 = some .other ∧ descriptors 1 = some .writing

/-- How many bytes can be taken or put at one end before something happens at the other. -/
def Pipe.allowance {Byte : Type v} (pipe : Pipe Byte) (capacity : Nat) : PipeEnd -> Nat
  | .reading => pipe.buffer.length
  | .writing => capacity - pipe.buffer.length

section Steps

variable {State : Type u} {Byte : Type v} {act : State -> Act State Byte} {capacity : Nat} {readers writers : Prop}
  {descriptors : Descriptors} {pipe after : Pipe Byte} {state next : State} {outcome : Outcome State}

/-- A program whose standard files are open goes on unless it waits. -/
theorem ProgramStep.exists_of_not_blocked
    (input : descriptors 0 = some .reading ∨ descriptors 0 = some .other)
    (output : descriptors 1 = some .writing ∨ descriptors 1 = some .other)
    (free : ¬ Blocked act capacity readers writers descriptors pipe state) :
    Exists fun after => Exists fun outcome =>
      ProgramStep act capacity readers writers descriptors pipe state after outcome := by
  cases acts : act state with
  | work next => exact ⟨_, _, .work acts⟩
  | exit status => exact ⟨_, _, .exit acts⟩
  | read next =>
      rcases input with reads | other
      · cases first : pipe.buffer with
        | nil => exact ⟨_, _, .readEnd acts reads first fun awaited => free (.reading acts reads first awaited)⟩
        | cons byte rest => exact ⟨_, _, .readByte acts reads first⟩
      · exact ⟨_, _, .readOther acts other none⟩
  | write byte next =>
      rcases output with writes | other
      · by_cases attended : readers
        · by_cases room : pipe.buffer.length < capacity
          · exact ⟨_, _, .writeByte acts writes attended room⟩
          · exact absurd (.writing acts writes (Nat.le_of_not_lt room) attended) free
        · exact ⟨_, _, .writeBroken acts writes attended⟩
      · exact ⟨_, _, .writeOther acts other⟩

theorem ProgramStep.accounted (step : ProgramStep act capacity readers writers descriptors pipe state after outcome)
    (accounted : pipe.Accounted) : after.Accounted := by
  unfold Pipe.Accounted at *
  cases step with
  | readByte acts input first =>
      unfold Pipe.take
      dsimp only
      rw [accounted, first, List.append_assoc]
      rfl
  | writeByte acts output attended room =>
      unfold Pipe.put
      dsimp only
      rw [accounted, List.append_assoc]
  | _ => exact accounted

/-- The end is delivered to readers only. -/
theorem ProgramStep.ended (step : ProgramStep act capacity readers writers descriptors pipe state after outcome)
    (ended : after.ended = true) :
    pipe.ended = true ∨ (descriptors 0 = some .reading ∧ pipe.buffer = [] ∧ after.buffer = [] ∧ ¬ writers) := by
  cases step with
  | readEnd acts input empty alone => exact Or.inr ⟨input, empty, empty, alone⟩
  | _ => exact Or.inl ended

/-- The buffer is filled by writers only. -/
theorem ProgramStep.buffer (step : ProgramStep act capacity readers writers descriptors pipe state after outcome)
    (empty : pipe.buffer = []) : after.buffer = [] ∨ descriptors 1 = some .writing := by
  cases step with
  | readByte acts input first =>
      rw [empty] at first
      cases first
  | writeByte acts output attended room => exact Or.inr output
  | _ => exact Or.inl empty

/-- A program at one end of the pipe goes on without it, or it uses up what can be
taken or put there. -/
theorem ProgramStep.without (side : PipeEnd) (atEnd : descriptors.AtEnd side)
    (step : ProgramStep act capacity readers writers descriptors pipe state after (.running next)) :
    after.allowance capacity side < pipe.allowance capacity side ∨
      (after.buffer = pipe.buffer ∧ FollowsWithout act side next state) := by
  cases side with
  | reading =>
      rcases atEnd with ⟨input, output⟩
      cases step with
      | work acts => exact Or.inr ⟨rfl, .work acts⟩
      | readByte acts reading first =>
          refine Or.inl ?_
          unfold Pipe.allowance
          rw [first]
          exact Nat.lt_succ_self _
      | readEnd acts reading empty alone => exact Or.inr ⟨rfl, .readEnd acts⟩
      | readOther acts other delivered => cases input.symm.trans other
      | writeByte acts writing attended room => cases output.symm.trans writing
      | writeOther acts other => exact Or.inr ⟨rfl, .write acts⟩
  | writing =>
      rcases atEnd with ⟨input, output⟩
      cases step with
      | work acts => exact Or.inr ⟨rfl, .work acts⟩
      | readByte acts reading first => cases input.symm.trans reading
      | readEnd acts reading empty alone => cases input.symm.trans reading
      | readOther acts other delivered => exact Or.inr ⟨rfl, .read acts _⟩
      | writeByte acts writing attended room =>
          refine Or.inl ?_
          unfold Pipe.allowance Pipe.put
          dsimp only
          rw [List.length_append, List.length_singleton]
          omega
      | writeOther acts other => cases output.symm.trans other

/-- A program that ends leaves the buffer as it is. -/
theorem ProgramStep.exited {status : Nat}
    (step : ProgramStep act capacity readers writers descriptors pipe state after (.exited status)) :
    after = pipe := by
  cases step with
  | writeBroken acts output alone => rfl
  | exit acts => rfl

theorem ProgramStep.follows
    (step : ProgramStep act capacity readers writers descriptors pipe state after (.running next)) :
    Follows act next state := by
  cases step with
  | work acts => exact .work acts
  | readByte acts input first => exact .read acts _
  | readEnd acts input empty alone => exact .read acts _
  | readOther acts input delivered => exact .read acts _
  | writeByte acts output attended room => exact .write acts
  | writeOther acts output => exact .write acts

end Steps
end Library
end OsPa
