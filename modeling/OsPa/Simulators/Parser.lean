import Mathlib.Logic.Function.Basic
import OsPa.Library.Words

namespace OsPa
namespace Simulators

open Library

/-!
# The parser of the simulators

The function `parse_command` of `parser.c`, which is the same file in `OS-PA2` and
in `OS-PA3`.  The buffer of the command is the list of its characters, together
with the terminator and whatever stands behind it.  A pointer into the buffer is
an index, and the array of the tokens is a function of the index, where `none` is
`NULL`.  The callers provide an array with `MAX_NR_TOKENS` places.
-/

/-- The number of places in the array of the tokens. -/
def maxNrTokens : Nat := 32

/-- The terminator of strings. -/
def nul : Char := '\x00'

/-- The library function `isspace` in the C locale. -/
def isspace (curr : Char) : Bool := curr ∈ [' ', '\t', '\n', '\x0b', '\x0c', '\r']

/-- How the parser leaves the defined behaviour of the program. -/
inductive Fault
  /-- The buffer is read behind its end. -/
  | commandOutOfBounds
  /-- A token is stored behind the end of the array. -/
  | tokensOutOfBounds
  deriving DecidableEq

/-- The variables of the first loop.  The pointer `curr` stands behind what has been
passed, where spaces have been overwritten. -/
structure Scan where
  passed : List Char
  tokenStarted : Bool
  tokens : Nat -> Option Nat
  nrTokens : Nat

/-- What the parser leaves behind. -/
structure Parsed where
  command : List Char
  tokens : Nat -> Option Nat
  nrTokens : Nat

/-- The body of the first loop. -/
def Scan.step (s : Scan) (curr : Char) : Except Fault Scan :=
  if isspace curr then .ok { s with passed := s.passed ++ [nul], tokenStarted := false }
  else if s.tokenStarted then .ok { s with passed := s.passed ++ [curr] }
  else if s.nrTokens < maxNrTokens then
    .ok ⟨s.passed ++ [curr], true, Function.update s.tokens s.nrTokens (some s.passed.length), s.nrTokens + 1⟩
  else .error .tokensOutOfBounds

/-- The first loop, with what is left of the buffer. -/
def Scan.loop (s : Scan) : List Char -> Except Fault Parsed
  | [] => .error .commandOutOfBounds
  | curr :: rest =>
      if curr = nul then .ok ⟨s.passed ++ curr :: rest, s.tokens, s.nrTokens⟩
      else
        match s.step curr with
        | .error fault => .error fault
        | .ok next => next.loop rest

/-- The comparison of a token with `#`, of which `strncmp` looks at one character. -/
def Parsed.isComment (parsed : Parsed) (i : Nat) : Bool :=
  ((parsed.tokens i).bind fun token => parsed.command[token]?) == some '#'

/-- The second loop: the first comment and what follows it are cut off. -/
def Parsed.removeComments (parsed : Parsed) : Parsed :=
  match (List.range parsed.nrTokens).find? parsed.isComment with
  | none => parsed
  | some i => { parsed with tokens := Function.update parsed.tokens i none, nrTokens := i }

def parseCommand (command : List Char) (tokens : Nat -> Option Nat) : Except Fault Parsed :=
  match Scan.loop ⟨[], false, tokens, 0⟩ command with
  | .error fault => .error fault
  | .ok parsed => .ok parsed.removeComments

/-- The first `nrTokens` entries of the array, read as strings from the buffer. -/
def Parsed.strings (parsed : Parsed) : List (Option (List Char)) :=
  (List.range parsed.nrTokens).map fun i => (parsed.tokens i).map (stringAt nul parsed.command)

end Simulators
end OsPa
