import OsPa.Library.Machine
import OsPa.Sched.Framework
import OsPa.Simulators.Lines

namespace OsPa
namespace Sched

open Library Simulators

/-!
# Loading a script

The function `__load_script` of `sched.c`.  The `Script` of the other modules is the
fork queue that it leaves behind.  Its loop reads a piece of the file in each round
and is left when it returns `false`.  The process under description is `p`, and a
process that is not in the fork queue when another one begins, or when the file
ends, is lost.

What is printed about the processes is left out, and a file that cannot be opened
too.
-/

/-- How the loader leaves the defined behaviour of the program. -/
inductive LoadFault
  | parser (fault : Simulators.Fault)
  /-- A token is read that is `NULL`. -/
  | nullToken
  /-- An assertion on the number of tokens, or on `p`, fails. -/
  | assertion
  /-- A property is stored through `p` while it is `NULL`. -/
  | nullProcess
  /-- A number is not an `int`. -/
  | notAnInt
  deriving DecidableEq

namespace Keyword

def process : List Char := ['p', 'r', 'o', 'c', 'e', 's', 's']

def end_ : List Char := ['e', 'n', 'd']

def lifespan : List Char := ['l', 'i', 'f', 'e', 's', 'p', 'a', 'n']

def prio : List Char := ['p', 'r', 'i', 'o']

def start : List Char := ['s', 't', 'a', 'r', 't']

def acquire : List Char := ['a', 'c', 'q', 'u', 'i', 'r', 'e']

end Keyword

/-- The variables of the loader. -/
structure Loader where
  line : List Char
  p : Option Description
  forkqueue : List Description

namespace Loader

/-- A number of the script, in an `unsigned int`. -/
def number (text : List Char) : Except LoadFault Nat :=
  match atoi text with
  | none => .error .notAnInt
  | some value => .ok (unsigned value)

/-- Change the process under description. -/
def describe (loader : Loader) (change : Description -> Description) : Except LoadFault (Bool × Loader) :=
  match loader.p with
  | none => .error .nullProcess
  | some p => .ok (false, { loader with p := some (change p) })

/-- The start of a process description. -/
def beginProcess (loader : Loader) (pid : Nat) : Loader := { loader with p := some ⟨pid, 0, 0, 0, []⟩ }

/-- The end of a process description. -/
def endProcess (loader : Loader) : Except LoadFault (Bool × Loader) :=
  match loader.p with
  | none => .error .assertion
  | some p => .ok (false, { loader with p := none, forkqueue := loader.forkqueue ++ [p] })

/-- The branch of a property with one number. -/
def property (loader : Loader) (set : Nat -> Description -> Description) :
    List (List Char) -> Except LoadFault (Bool × Loader)
  | [text] =>
      match number text with
      | .error fault => .error fault
      | .ok value => loader.describe (set value)
  | _ => .error .assertion

/-- The branch of an entry of the schedule by which the process acquires resources. -/
def acquire (loader : Loader) : List (List Char) -> Except LoadFault (Bool × Loader)
  | [resourceId, at_, duration] =>
      match number resourceId, number at_, number duration with
      | .ok resourceId, .ok at_, .ok duration =>
          loader.describe fun p => { p with acquires := p.acquires ++ [⟨resourceId, at_, duration⟩] }
      | _, _, _ => .error .notAnInt
  | _ => .error .assertion

/-- The branch of a line that starts the description of a process. -/
def process (loader : Loader) : List (List Char) -> Except LoadFault (Bool × Loader)
  | [text] =>
      match number text with
      | .error fault => .error fault
      | .ok pid => .ok (false, loader.beginProcess pid)
  | _ => .error .assertion

/-- The body of the loop, once the tokens are known. -/
def interpret (loader : Loader) : List (List Char) -> Except LoadFault (Bool × Loader)
  | [] => .ok (false, loader)
  | keyword :: arguments =>
      if strmatch keyword Keyword.process then loader.process arguments
      else if strmatch keyword Keyword.end_ then loader.endProcess
      else if strmatch keyword Keyword.lifespan then
        loader.property (fun value p => { p with lifespan := value }) arguments
      else if strmatch keyword Keyword.prio then loader.property (fun value p => { p with prio := value }) arguments
      else if strmatch keyword Keyword.start then
        loader.property (fun value p => { p with startsAt := value }) arguments
      else if strmatch keyword Keyword.acquire then loader.acquire arguments
      -- `Unknown property`
      else .ok (true, loader)

/-- The body of the loop, for a piece that `fgets` has delivered. -/
def round (piece : List Char) (loader : Loader) : Except LoadFault (Bool × Loader) :=
  match parseCommand (store piece loader.line) (fun _ => none) with
  | .error fault => .error (.parser fault)
  | .ok parsed =>
      match parsed.texts with
      | none => .error .nullToken
      | some tokens => { loader with line := parsed.command }.interpret tokens

/-- The loop, whose output says whether it returns `false`. -/
def machine : Machine (List Char) Loader Bool LoadFault where
  step := round
  stops := id

end Loader

/-- `__load_script`: whether it returns `true`, and the fork queue then.  The buffer
`line` is not initialised. -/
def loadScript (line : List Char) (file : List Char) : Except LoadFault (Bool × Script) :=
  match Loader.machine.run (fgets file) ⟨line, none, []⟩ with
  | .error fault => .error fault
  | .ok (outputs, loader) => .ok (!outputs.any id, loader.forkqueue)

end Sched
end OsPa
