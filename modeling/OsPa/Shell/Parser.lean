import Mathlib.Data.List.Basic

namespace OsPa
namespace Shell

/-!
# The parser of the shell

The function `parse_command` of `OS-PA1/parser.c`.  A string is the sequence of
its characters without the terminator.  The array of tokens is the list of the
tokens that are stored in it; behind the last one the parser stores `NULL`.
-/

/-- The maximum length of tokens in a command. -/
def maxNrTokens : Nat := 32

/-- The maximum length of a single token. -/
def maxTokenLen : Nat := 128

/-- The delimiters between tokens: space, tab, carriage return, form feed, line feed
and vertical tab. -/
def delimiters : List Char := [' ', '\t', '\r', '\x0c', '\r', '\n', '\x0b']

/-- The library function `strtok`: the next token, and what it goes on with. -/
def strtok (command : List Char) : Option (String × List Char) :=
  match command.dropWhile (· ∈ delimiters) with
  | [] => none
  | first :: rest =>
      some (String.ofList (first :: rest.takeWhile (· ∉ delimiters)), (rest.dropWhile (· ∉ delimiters)).drop 1)

theorem strtok_shorter {command rest : List Char} {curr : String} (found : strtok command = some (curr, rest)) :
    rest.length < command.length := by
  unfold strtok at found
  split at found
  case h_1 => cases found
  case h_2 first behind dropped =>
      cases found
      have skipped := (List.dropWhile_suffix (· ∈ delimiters) (l := command)).length_le
      have taken := (List.dropWhile_suffix (· ∉ delimiters) (l := behind)).length_le
      rw [dropped, List.length_cons] at skipped
      rw [List.length_drop]
      omega

/-- The loop of `parse_command`. -/
def parseTokens (command : List Char) : List String :=
  match _found : strtok command with
  | none => []
  | some (curr, rest) => curr :: parseTokens rest
termination_by command.length
decreasing_by exact strtok_shorter ‹_›

def parseCommand (command : String) : List String := parseTokens command.toList

end Shell
end OsPa
