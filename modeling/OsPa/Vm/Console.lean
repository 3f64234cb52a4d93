import OsPa.Simulators.Lines
import OsPa.Vm.Framework

namespace OsPa
namespace Vm

open Library Simulators

/-!
# The console of the simulator

The function `__do_simulation` of `vm.c` from the text on that it reads, with the
functions that print the tables.  A line is made lowercase, split by `parse_command`
and answered.  The commands that do something are those of the command loop; the
others print and change nothing.

`verbose` is the flag that `-q` and a workload file clear.  Of what is printed, the
layout and the text of the help are left out.
-/

/-- How the console leaves the defined behaviour of the program. -/
inductive ConsoleFault
  | parser (fault : Simulators.Fault)
  /-- A token is read that is `NULL`. -/
  | nullToken
  /-- `Unknown command in trace` -/
  | assertion
  | command (fault : Fault)
  deriving DecidableEq

/-- The library function `tolower` in the C locale. -/
def tolower (letter : Char) : Char :=
  if 'A' ≤ letter ∧ letter ≤ 'Z' then Char.ofNat (letter.toNat + 32) else letter

/-- The loop over the string in the buffer. -/
def makeLowercase (command : List Char) : List Char :=
  (stringAt nul command 0).map tolower ++ command.drop (stringAt nul command 0).length

/-! ## Numbers -/

/-- The value of a digit in a base up to 36. -/
def digitValue (letter : Char) : Nat :=
  if '0' ≤ letter ∧ letter ≤ '9' then letter.toNat - '0'.toNat
  else if 'a' ≤ letter ∧ letter ≤ 'z' then letter.toNat - 'a'.toNat + 10
  else if 'A' ≤ letter ∧ letter ≤ 'Z' then letter.toNat - 'A'.toNat + 10
  else 36

/-- The value of the digits in front. -/
def magnitude (base : Nat) (text : List Char) : Nat :=
  (text.takeWhile fun letter => decide (digitValue letter < base)).foldl
    (fun value digit => base * value + digitValue digit) 0

/-- A number whose base is given by its prefix. -/
def prefixed : List Char -> Nat
  | '0' :: 'x' :: digits => magnitude 16 digits
  | '0' :: 'X' :: digits => magnitude 16 digits
  | '0' :: digits => magnitude 8 digits
  | digits => magnitude 10 digits

/-- The library function `strtoimax` for base 0, which stops at the ends of the type. -/
def strtoimax (text : List Char) : Int :=
  match text.dropWhile isspace with
  | '-' :: digits => max (-9223372036854775808) (- (prefixed digits : Int))
  | '+' :: digits => min 9223372036854775807 (prefixed digits)
  | digits => min 9223372036854775807 (prefixed digits)

/-! ## Tables -/

/-- A line for an entry of the page table, in which the flags stand for the letters
that are printed. -/
structure PteLine where
  i : Nat
  j : Nat
  v : Bool
  r : Bool
  w : Bool
  pfn : Nat
  deriving DecidableEq

def Pte.line (pte : Pte) (i j : Nat) : PteLine :=
  ⟨i, j, pte.valid, pte.valid && pte.rw &&& accessRead != 0, pte.rw &&& accessWrite != 0, pte.pfn⟩

/-- `__show_pagetable` -/
def showPagetable (verbose : Bool) (state : State) : List PteLine :=
  (List.finRange nrPdesPerPage).flatMap fun i =>
    match (state.process state.current).pagetable.pdes i with
    | none => []
    | some pd =>
        ((List.finRange nrPtesPerPage).filter fun j => verbose || (pd.ptes j).valid).map fun j => (pd.ptes j).line i j

/-- `__show_pageframes` -/
def showPageframes (state : State) : List (Nat × Nat) :=
  ((List.range nrPageframes).filter fun i => state.mapcounts i != 0).map fun i => (i, state.mapcounts i)

structure TlbLine where
  r : Bool
  w : Bool
  vpn : Nat
  pfn : Nat
  deriving DecidableEq

def TlbEntry.line (t : TlbEntry) : TlbLine := ⟨t.rw &&& accessRead != 0, t.rw &&& accessWrite != 0, t.vpn, t.pfn⟩

/-- `__show_tlb` -/
def showTlb (state : State) : List TlbLine :=
  (((List.range nrTlbEntries).map state.tlb).filter TlbEntry.valid).map TlbEntry.line

/-! ## The loop -/

/-- What a line asks for. -/
inductive Request
  | blank
  | exit
  | show_
  | frames
  | tlb
  | help
  | unknown (token : List Char)
  | command (input : Command)
  deriving DecidableEq

namespace Keyword

def exit : List Char := ['e', 'x', 'i', 't']

def show_ : List Char := ['s', 'h', 'o', 'w']

def frames : List Char := ['f', 'r', 'a', 'm', 'e', 's']

def tlb : List Char := ['t', 'l', 'b']

def help : List Char := ['h', 'e', 'l', 'p']

def switch : List Char := ['s', 'w', 'i', 't', 'c', 'h']

def free : List Char := ['f', 'r', 'e', 'e']

def read : List Char := ['r', 'e', 'a', 'd']

def write : List Char := ['w', 'r', 'i', 't', 'e']

def alloc : List Char := ['a', 'l', 'l', 'o', 'c']

def access : List Char := ['a', 'c', 'c', 'e', 's', 's']

end Keyword

/-- A number of a command, in an `unsigned int`. -/
def argument (text : List Char) : Nat := unsigned (strtoimax text)

/-- The dispatch on the tokens.  There is none for more than three. -/
def request : List (List Char) -> Option Request
  | [] => some .blank
  | [token] => some (
      if strmatch token Keyword.exit then .exit
      else if strmatch token Keyword.show_ then .show_
      else if strmatch token Keyword.frames then .frames
      else if strmatch token Keyword.tlb then .tlb
      else if strmatch token Keyword.help || strmatch token ['?'] then .help
      else .unknown token)
  | [token, arg] => some (
      if strmatch token Keyword.switch || strmatch token ['s'] then .command (.switch (argument arg))
      else if strmatch token Keyword.free || strmatch token ['f'] then .command (.free (argument arg))
      else if strmatch token Keyword.read || strmatch token ['r'] then .command (.read (argument arg))
      else if strmatch token Keyword.write || strmatch token ['w'] then .command (.write (argument arg))
      else .unknown token)
  | [token, vpn, rw] => some (
      if strmatch token Keyword.alloc || strmatch token ['a'] then .command (.alloc (argument vpn) rw)
      else if strmatch token Keyword.access then .command (.access (argument vpn) rw)
      else .unknown token)
  | _ => none

/-- What is printed for a line. -/
inductive Output
  | nothing
  | exit
  | pagetable (pid : Nat) (lines : List PteLine)
  | pageframes (lines : List (Nat × Nat))
  | tlb (lines : List TlbLine)
  | help
  | unknown (token : List Char)
  | event (event : Event)
  deriving DecidableEq

/-- The loop is left. -/
def Output.stops : Output -> Bool
  | .exit => true
  | .event reported => reported.stops
  | _ => false

/-- The prompt is printed behind the output. -/
def Output.prompts : Output -> Bool
  | .nothing => false
  | output => !output.stops

/-- The output for a line, with the `pid` of the prompt that follows it. -/
structure Response where
  output : Output
  prompt : Option Nat
  deriving DecidableEq

/-- The variables of the loop. -/
structure Console where
  command : List Char
  state : State

section

variable (heap : Heap) (printTlbResult verbose : Bool)

/-- What is asked for is done. -/
def answer (state : State) : Request -> Except ConsoleFault (Output × State)
  | .blank => .ok (.nothing, state)
  | .exit => .ok (.exit, state)
  | .show_ => .ok (.pagetable (state.process state.current).pid (showPagetable verbose state), state)
  | .frames => .ok (.pageframes (showPageframes state), state)
  | .tlb => .ok (.tlb (showTlb state), state)
  | .help => .ok (.help, state)
  | .unknown token => .ok (.unknown token, state)
  | .command input =>
      match command heap printTlbResult input state with
      | .error fault => .error (.command fault)
      | .ok (event, next) => .ok (.event event, next)

def respond (output : Output) (state : State) : Response :=
  ⟨output, if verbose && output.prompts then some (state.process state.current).pid else none⟩

/-- The body of the loop, once the tokens are known. -/
def reply (tokens : List (List Char)) (state : State) : Except ConsoleFault (Response × State) :=
  match request tokens with
  | none => .error .assertion
  | some request =>
      match answer heap printTlbResult verbose state request with
      | .error fault => .error fault
      | .ok (output, next) => .ok (respond verbose output next, next)

/-- The body of the loop, for a piece that `fgets` has delivered. -/
def Console.round (piece : List Char) (console : Console) : Except ConsoleFault (Response × Console) :=
  match parseCommand (makeLowercase (store piece console.command)) (fun _ => none) with
  | .error fault => .error (.parser fault)
  | .ok parsed =>
      match parsed.texts with
      | none => .error .nullToken
      | some tokens =>
          (reply heap printTlbResult verbose tokens console.state).map (Prod.map id (Console.mk parsed.command))

/-- The loop. -/
def console : Machine (List Char) Console Response ConsoleFault where
  step := Console.round heap printTlbResult verbose
  stops := fun response => response.output.stops

/-- `__do_simulation`, whose buffer is cleared in the beginning. -/
def doSimulation (input : List Char) : Except ConsoleFault (List Response × Console) :=
  (console heap printTlbResult verbose).run (fgets input) ⟨List.replicate maxCommandLen nul, initSystem⟩

end

end Vm
end OsPa
