import OsPa.Library.Loop
import OsPa.Shell.Parser

namespace OsPa
namespace Shell

open Library

/-!
# Aliases

The parts of `run_command` of `pa1.c` that have to do with aliases.  The tokens
of a command are the list of the words that `tokens` points to, and `nr_tokens`
is its length.  The stack is the list of the aliases from its head on, which is
where a new alias is put.
-/

structure AliasEntry where
  name : String
  command : String
  deriving DecidableEq

/-- How the handling of aliases leaves the defined behaviour of the program. -/
inductive Fault
  /-- A token stored behind the end of `alias_tokens`. -/
  | aliasTokensOutOfBounds
  /-- A character stored behind the end of `input_command`. -/
  | inputCommandOutOfBounds
  /-- A token stored behind the end of the array that `tokens` is. -/
  | tokensOutOfBounds
  deriving DecidableEq

/-- The variables of the expansion.  The array that `tokens` is at present has
place for `slots` pointers. -/
structure Expansion where
  i : Nat
  tokens : List String
  slots : Nat
  deriving DecidableEq

/-- A round of the loop over the tokens, for the alias `pos`.  The array
`alias_tokens` has to take the words of the alias and the `NULL` behind them. -/
def Expansion.round (pos : AliasEntry) (e : Expansion) : Expansion ⊕ Except Fault Expansion :=
  match e.tokens[e.i]? with
  | none => .inr (.ok e)
  | some token =>
      if token = pos.name then
        let aliasTokens := parseCommand pos.command
        if maxNrTokens ≤ aliasTokens.length then .inr (.error .aliasTokensOutOfBounds)
        else
          let newTokens := e.tokens.take e.i ++ aliasTokens ++ e.tokens.drop (e.i + 1)
          .inl ⟨e.i + 1, newTokens, newTokens.length⟩
      else .inl { e with i := e.i + 1 }

/-- The loop over the aliases, with fuel for each loop over the tokens. -/
def expandAliases (fuel : Nat) : List AliasEntry -> Expansion -> Option (Except Fault Expansion)
  | [], e => some (.ok e)
  | pos :: stack, e =>
      match rounds (Expansion.round pos) fuel { e with i := 0 } with
      | none => none
      | some (.error fault) => some (.error fault)
      | some (.ok after) => expandAliases fuel stack after

/-- The expansion of a command comes to an end. -/
def Expands (stack : List AliasEntry) (e : Expansion) (result : Except Fault Expansion) : Prop :=
  Exists fun fuel => expandAliases fuel stack e = some result

/-- What `tokens[i] = NULL` makes of the array that `tokens` is at present.  Behind the
tokens, the array of the caller has `NULL` in all places. -/
def Expansion.terminate (e : Expansion) : Except Fault (List (Option String)) :=
  if e.slots ≤ e.i then .error .tokensOutOfBounds
  else .ok ((e.tokens.map some ++ List.replicate (e.slots - e.tokens.length) none).set e.i none)

/-- The tokens as the parser has stored them in the array of the caller. -/
def Expansion.start (tokens : List String) : Expansion := ⟨0, tokens, maxNrTokens⟩

/-- The words of an alias joined by spaces, as they are put into `input_command`. -/
def inputCommand : List String -> String
  | [] => ""
  | [token] => token
  | token :: next :: rest => token ++ " " ++ inputCommand (next :: rest)

/-- The command `alias` with a name.  The new alias is put at the head. -/
def addAlias (stack : List AliasEntry) (name : String) (words : List String) : Except Fault (List AliasEntry) :=
  let command := inputCommand words
  if maxTokenLen * maxNrTokens ≤ command.length then .error .inputCommandOutOfBounds
  else .ok (⟨name, command⟩ :: stack)

end Shell
end OsPa
