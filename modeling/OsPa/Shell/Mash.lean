import OsPa.Library.Machine
import OsPa.Shell.Pipeline
import OsPa.Shell.Tokens
import OsPa.Simulators.Lines

namespace OsPa
namespace Shell

open Library Simulators

/-!
# The shell

The function `run_command` of `pa1.c` as a whole, and the loop of `mash.c` that calls
it.  What the shell asks of the system is a parameter, with a type for all that the
system keeps.  The calls `pipe`, `fork` and `malloc` succeed, and what the children
print and the prompt are left out.  The children have the standard input of the shell.
A command that reads it, such as `cat` without arguments, takes away lines that
`fgets` would deliver, and is outside the model, in which what has been typed comes to
the shell alone.

The library function `fgets` delivers a line in pieces, if it does not fit into the
buffer.  The parser reads the string in the buffer, which ends at the latest where the
piece does.
-/

/-- The size of the buffer for a line. -/
def maxCommandLen : Nat := 4096

/-- What the shell asks of the system. -/
structure Kernel (World : Type) where
  /-- `getenv("HOME")` -/
  home : Option String
  /-- The directory is changed, or the call fails. -/
  chdir : String -> World -> Option World
  /-- A child executes the words and is waited for.  The result is whether its status
  is 0. -/
  execute : List String -> World -> World × Bool
  /-- Two children at a pipe execute the words and are waited for. -/
  connect : List String -> List String -> World -> World

/-- What the shell keeps from line to line. -/
structure Session (World : Type) where
  stack : List AliasEntry
  world : World
  deriving DecidableEq

/-- How a session leaves the defined behaviour of the program. -/
inductive SessionFault
  | memory (fault : Fault)
  /-- A token is read that is `NULL`. -/
  | nullToken
  /-- The rounds of a loop over the tokens are used up. -/
  | unended
  deriving DecidableEq

/-- What `run_command` returns and prints. -/
structure Returned where
  result : Int
  printed : List String
  deriving DecidableEq

section RunCommand

variable {World : Type} (kernel : Kernel World)

/-- The branches for `cd`, which are the same with and without a pipe. -/
def changeDirectory (path : Option String) (session : Session World) : Returned × Session World :=
  let dir := if path = none ∨ path = some "~" then kernel.home else path
  -- There is no directory `NULL` to change to.
  match dir.bind fun dir => kernel.chdir dir session.world with
  | none => (⟨-1, []⟩, session)
  | some world => (⟨1, []⟩, { session with world := world })

/-- The branch for `alias`. -/
def alias_ (tokens : List String) (session : Session World) : Except SessionFault (Returned × Session World) :=
  match tokens with
  | _ :: name :: words =>
      match addAlias session.stack name words with
      | .error fault => .error (.memory fault)
      | .ok stack => .ok (⟨1, []⟩, { session with stack := stack })
  | _ => .ok (⟨1, session.stack.reverse.map fun pos => pos.name ++ ": " ++ pos.command⟩, session)

/-- The part of `run_command` behind the expansion. -/
def dispatch (tokens : List String) (session : Session World) : Except SessionFault (Returned × Session World) :=
  match tokens with
  | [] => .error .nullToken
  | first :: _ =>
      match pipeLoc tokens with
      | some loc =>
          if first = "cd" then .ok (changeDirectory kernel tokens[1]? session)
          else
            let world := kernel.connect (tokens.take loc) (tokens.drop (loc + 1)) session.world
            .ok (⟨1, []⟩, { session with world := world })
      | none =>
          if first = "cd" then .ok (changeDirectory kernel tokens[1]? session)
          else if first = "alias" then alias_ tokens session
          else
            let ended := kernel.execute tokens session.world
            .ok (⟨if ended.2 then 1 else -1, []⟩, { session with world := ended.1 })

/-- `run_command`, with fuel for each loop over the tokens.  The `NULL` that is stored
behind the loops is not stored in front of the end of the tokens. -/
def runCommand (fuel : Nat) (tokens : List String) (session : Session World) :
    Except SessionFault (Returned × Session World) :=
  match tokens with
  | [] => .error .nullToken
  | first :: _ =>
      if first = "exit" then .ok (⟨0, []⟩, session)
      else if session.stack = [] then dispatch kernel tokens session
      else
        match expandAliases fuel session.stack (.start tokens) with
        | none => .error .unended
        | some (.error fault) => .error (.memory fault)
        | some (.ok e) =>
            match e.terminate with
            | .error fault => .error (.memory fault)
            | .ok _ => dispatch kernel e.tokens session

end RunCommand

/-- What a line has led to.  There is no result for an empty line. -/
structure Response where
  result : Option Int
  printed : List String
  deriving DecidableEq

/-- The loop is left: `ret == 0 || ret == -EINVAL`. -/
def Response.stops (response : Response) : Bool := response.result == some 0 || response.result == some (-22)

section Loop

variable {World : Type} (kernel : Kernel World) (fuel : Nat)

/-- What the loop makes of a result. -/
def respond (first : String) (returned : Returned) : Response :=
  ⟨some returned.result,
    if returned.result < 0 then returned.printed ++ ["Unable to execute " ++ first] else returned.printed⟩

/-- The body of the loop, once the tokens are known. -/
def Session.command (tokens : List String) (session : Session World) :
    Except SessionFault (Response × Session World) :=
  match tokens with
  | [] => .ok (⟨none, []⟩, session)
  | first :: _ =>
      match runCommand kernel fuel tokens session with
      | .error fault => .error fault
      | .ok (returned, next) => .ok (respond first returned, next)

/-- The body of the loop, for a piece that has been delivered. -/
def Session.round (piece : List Char) (session : Session World) : Except SessionFault (Response × Session World) :=
  match parseInto (fun _ => none) (String.ofList (stringAt nul piece 0)) with
  | .error fault => .error (.memory fault)
  | .ok (tokens, nrTokens) => session.command kernel fuel ((List.range nrTokens).filterMap tokens)

/-- The loop. -/
def shell : Machine (List Char) (Session World) Response SessionFault where
  step := Session.round kernel fuel
  stops := Response.stops

/-- The pieces of what is typed. -/
def typed (input : List Char) : List (List Char) := deliver (maxCommandLen - 1) (maxCommandLen - 1) [] input

end Loop

end Shell
end OsPa
