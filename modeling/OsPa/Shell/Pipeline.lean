import Mathlib.Logic.Relation
import OsPa.Library.Pipes
import OsPa.Shell.Pa1

namespace OsPa
namespace Shell

open Library

/-!
# Two commands at a pipe

The branch of `run_command` for commands with a pipe, from the return of `pipe` on.
The shell and its two children take their steps in any order.  A child first runs the
code of the shell that sets up its descriptors.  Then `execvp` replaces the code by a
program, of which it is only known what it does next, or fails.

The system calls do what they are documented to do, where `pipe` and `fork` succeed.
What is printed for a command that cannot be executed is left out.
-/

/-- The loop that looks for pipes keeps the place of the last one. -/
def pipeLoc (tokens : List String) : Option Nat :=
  (List.range tokens.length).foldl (fun pipeLoc i => if tokens[i]? = some "|" then some i else pipeLoc) none

/-- Where the shell is. -/
inductive ShellPoint
  | forkLeft
  | closeWriting
  | forkRight
  | closeReading
  | waitLeft
  | waitRight
  | returned
  deriving DecidableEq

/-- The number of steps that the shell has taken. -/
def ShellPoint.steps : ShellPoint -> Nat
  | forkLeft => 0
  | closeWriting => 1
  | forkRight => 2
  | closeReading => 3
  | waitLeft => 4
  | waitRight => 5
  | returned => 6

/-- Where a child is in the code of the shell. -/
inductive ChildPoint
  | dup2
  | close
  | execvp
  /-- What is done after `execvp` has failed. -/
  | closeOwn
  | exit
  deriving DecidableEq

inductive Phase (State : Type)
  | absent
  | code (point : ChildPoint)
  | running (state : State)
  | exited (status : Nat)
  | reaped

structure Child (State : Type) where
  phase : Phase State
  descriptors : Descriptors

/-- The descriptors in the code of a child: that of its end of the pipe, the standard
file that it becomes, and that of the other end. -/
structure ChildCode where
  own : Nat
  standard : Nat
  other : Nat

section

variable {State Byte : Type} (code : ChildCode) (act : State -> Act State Byte) (start : Option State)
  (capacity : Nat) (readers writers : Prop)

/-- A step of a child.  There is no state to start from if `execvp` fails. -/
inductive ChildStep : Pipe Byte -> Child State -> Pipe Byte -> Child State -> Prop
  | dup2 {pipe : Pipe Byte} {descriptors : Descriptors} :
      ChildStep pipe ⟨.code .dup2, descriptors⟩ pipe ⟨.code .close, descriptors.dup2 code.own code.standard⟩
  | close {pipe : Pipe Byte} {descriptors : Descriptors} :
      ChildStep pipe ⟨.code .close, descriptors⟩ pipe ⟨.code .execvp, descriptors.close code.other⟩
  | execvp {pipe : Pipe Byte} {descriptors : Descriptors} {state : State} (found : start = some state) :
      ChildStep pipe ⟨.code .execvp, descriptors⟩ pipe ⟨.running state, descriptors⟩
  | execvpFails {pipe : Pipe Byte} {descriptors : Descriptors} (notFound : start = none) :
      ChildStep pipe ⟨.code .execvp, descriptors⟩ pipe ⟨.code .closeOwn, descriptors⟩
  | closeOwn {pipe : Pipe Byte} {descriptors : Descriptors} :
      ChildStep pipe ⟨.code .closeOwn, descriptors⟩ pipe ⟨.code .exit, descriptors.close code.own⟩
  | exit {pipe : Pipe Byte} {descriptors : Descriptors} :
      ChildStep pipe ⟨.code .exit, descriptors⟩ pipe ⟨.exited 1, .closed⟩
  | runs {pipe after : Pipe Byte} {descriptors : Descriptors} {state next : State}
      (step : ProgramStep act capacity readers writers descriptors pipe state after (.running next)) :
      ChildStep pipe ⟨.running state, descriptors⟩ after ⟨.running next, descriptors⟩
  | ends {pipe after : Pipe Byte} {descriptors : Descriptors} {state : State} {status : Nat}
      (step : ProgramStep act capacity readers writers descriptors pipe state after (.exited status)) :
      ChildStep pipe ⟨.running state, descriptors⟩ after ⟨.exited status, .closed⟩

end

/-- What the branch starts from: the tokens, the programs, the descriptors of the shell and
what `pipe` has found for `pipefd`.  What `execvp` finds for the words of a command is the
state that its program starts in. -/
structure Setting (Left Right Byte : Type) where
  tokens : List String
  loc : Nat
  isPipe : pipeLoc tokens = some loc
  findLeft : List String -> Option Left
  findRight : List String -> Option Right
  left : Left -> Act Left Byte
  right : Right -> Act Right Byte
  capacity : Nat
  /-- The descriptors of the shell before the call of `pipe`. -/
  before : Descriptors
  /-- `pipefd[0]` -/
  reads : Nat
  /-- `pipefd[1]` -/
  writes : Nat
  positive : 0 < capacity
  others : forall fd file, before fd = some file -> file = .other
  stdin : before 0 = some .other
  stdout : before 1 = some .other
  readsFree : before reads = none
  writesFree : before writes = none
  apart : reads ≠ writes

/-- The shell and its children. -/
structure Pipeline (Left Right Byte : Type) where
  shell : ShellPoint
  descriptors : Descriptors
  left : Child Left
  right : Child Right
  pipe : Pipe Byte

/-- Some process has a file open. -/
def Pipeline.Holds {Left Right Byte : Type} (s : Pipeline Left Right Byte) (file : File) : Prop :=
  s.descriptors.Holds file ∨ s.left.descriptors.Holds file ∨ s.right.descriptors.Holds file

namespace Setting

variable {Left Right Byte : Type} (setting : Setting Left Right Byte)

/-- The descriptors of the shell behind the call of `pipe`. -/
def opened : Descriptors :=
  Function.update (Function.update setting.before setting.reads (some .reading)) setting.writes (some .writing)

def leftStart : Option Left := setting.findLeft (setting.tokens.take setting.loc)

def rightStart : Option Right := setting.findRight (setting.tokens.drop (setting.loc + 1))

def leftCode : ChildCode := ⟨setting.writes, 1, setting.reads⟩

def rightCode : ChildCode := ⟨setting.reads, 0, setting.writes⟩

def start : Pipeline Left Right Byte := ⟨.forkLeft, setting.opened, ⟨.absent, .closed⟩, ⟨.absent, .closed⟩, .empty⟩

/-- A step of the shell or of one of its children. -/
inductive Step : Pipeline Left Right Byte -> Pipeline Left Right Byte -> Prop
  | forkLeft {s : Pipeline Left Right Byte} (isAt : s.shell = .forkLeft) :
      Step s { s with shell := .closeWriting, left := ⟨.code .dup2, s.descriptors⟩ }
  | closeWriting {s : Pipeline Left Right Byte} (isAt : s.shell = .closeWriting) :
      Step s { s with shell := .forkRight, descriptors := s.descriptors.close setting.writes }
  | forkRight {s : Pipeline Left Right Byte} (isAt : s.shell = .forkRight) :
      Step s { s with shell := .closeReading, right := ⟨.code .dup2, s.descriptors⟩ }
  | closeReading {s : Pipeline Left Right Byte} (isAt : s.shell = .closeReading) :
      Step s { s with shell := .waitLeft, descriptors := s.descriptors.close setting.reads }
  | waitLeft {s : Pipeline Left Right Byte} (isAt : s.shell = .waitLeft) {status : Nat}
      (exited : s.left.phase = .exited status) :
      Step s { s with shell := .waitRight, left := ⟨.reaped, s.left.descriptors⟩ }
  | waitRight {s : Pipeline Left Right Byte} (isAt : s.shell = .waitRight) {status : Nat}
      (exited : s.right.phase = .exited status) :
      Step s { s with shell := .returned, right := ⟨.reaped, s.right.descriptors⟩ }
  | left {s : Pipeline Left Right Byte} {pipe : Pipe Byte} {child : Child Left}
      (step : ChildStep setting.leftCode setting.left setting.leftStart setting.capacity (s.Holds .reading)
        (s.Holds .writing) s.pipe s.left pipe child) : Step s { s with left := child, pipe := pipe }
  | right {s : Pipeline Left Right Byte} {pipe : Pipe Byte} {child : Child Right}
      (step : ChildStep setting.rightCode setting.right setting.rightStart setting.capacity (s.Holds .reading)
        (s.Holds .writing) s.pipe s.right pipe child) : Step s { s with right := child, pipe := pipe }

/-- What the branch can come to, in any order of the steps. -/
def Reached : Pipeline Left Right Byte -> Prop := Relation.ReflTransGen setting.Step setting.start

end Setting
end Shell
end OsPa
