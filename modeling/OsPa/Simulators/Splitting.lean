import OsPa.Simulators.Parser

namespace OsPa
namespace Simulators

open Library

/-!
# The line is split into its words

The first loop overwrites the spaces and stores the places at which words start, one
for each word.  What is read from a place is settled later, when the space behind
the word has been overwritten.  The second loop asks the first letter of each word.
-/

section Loop

variable {line after : List Char} {curr : Char}

/-- What the first loop makes of a line, unless there are too many words. -/
theorem Scan.loop_eq (s : Scan) (fits : s.nrTokens ≤ maxNrTokens) (terminated : nul ∉ line) (after : List Char) :
    s.loop (line ++ nul :: after) =
      if s.nrTokens + (starts isspace s.tokenStarted s.passed.length line).length ≤ maxNrTokens then
        .ok ⟨s.passed ++ (overwrite isspace nul line ++ nul :: after),
          storeAll s.tokens s.nrTokens ((starts isspace s.tokenStarted s.passed.length line).map some),
          s.nrTokens + (starts isspace s.tokenStarted s.passed.length line).length⟩
      else .error .tokensOutOfBounds := by
  induction line generalizing s with
  | nil =>
      have nothing : starts isspace s.tokenStarted s.passed.length [] = [] := rfl
      rw [nothing, List.map_nil, storeAll_nil, List.length_nil, Nat.add_zero, if_pos fits]
      exact if_pos rfl
  | cons curr rest inductionHypothesis =>
      rw [List.mem_cons, not_or] at terminated
      have written : overwrite isspace nul (curr :: rest) =
          (if isspace curr then nul else curr) :: overwrite isspace nul rest := rfl
      rw [List.cons_append, Scan.loop, if_neg (Ne.symm terminated.1), written]
      unfold Scan.step
      have length (letter : Char) : (s.passed ++ [letter]).length = s.passed.length + 1 := List.length_append
      have command (letter : Char) : s.passed ++ (letter :: overwrite isspace nul rest ++ nul :: after) =
          (s.passed ++ [letter]) ++ (overwrite isspace nul rest ++ nul :: after) := by
        rw [List.append_assoc, List.singleton_append, List.cons_append]
      cases space : isspace curr with
      | true =>
          have further := inductionHypothesis ⟨s.passed ++ [nul], false, s.tokens, s.nrTokens⟩ fits terminated.2
          rw [if_pos rfl, if_pos rfl, starts_cons_of_separates space, ← length nul, command]
          exact further
      | false =>
          rw [if_neg Bool.false_ne_true, if_neg Bool.false_ne_true, starts_cons_of_letter space, ← length curr, command]
          cases started : s.tokenStarted with
          | true =>
              have further := inductionHypothesis ⟨s.passed ++ [curr], true, s.tokens, s.nrTokens⟩ fits terminated.2
              rw [if_pos rfl, if_pos rfl, List.nil_append]
              exact further
          | false =>
              rw [if_neg Bool.false_ne_true, if_neg Bool.false_ne_true, List.singleton_append, List.length_cons,
                List.map_cons, ← storeAll_cons]
              by_cases room : s.nrTokens < maxNrTokens
              · have further := inductionHypothesis
                  ⟨s.passed ++ [curr], true, Function.update s.tokens s.nrTokens (some s.passed.length),
                    s.nrTokens + 1⟩ room terminated.2
                have count : s.nrTokens + ((starts isspace true (s.passed ++ [curr]).length rest).length + 1) =
                    s.nrTokens + 1 + (starts isspace true (s.passed ++ [curr]).length rest).length := by omega
                rw [if_pos room, count]
                exact further
              · rw [if_neg room, if_neg (by omega)]

end Loop

section Comments

variable {parsed : Parsed} {places : List Nat}

/-- The first letter of a string that is not empty stands where the pointer points. -/
private theorem head_stringAt (command : List Char) (place : Nat) :
    (stringAt nul command place).head? = some '#' ↔ command[place]? = some '#' := by
  unfold stringAt
  rw [List.head?_takeWhile, List.head?_drop, Option.filter_eq_some_iff]
  exact and_iff_left (by decide)

/-- The tokens are the pointers to the places. -/
structure Parsed.Points (parsed : Parsed) (places : List Nat) : Prop where
  nrTokens : parsed.nrTokens = places.length
  tokens : forall i, i < places.length -> parsed.tokens i = places[i]?

private theorem Parsed.Points.strings (points : parsed.Points places) :
    parsed.strings = (places.map (stringAt nul parsed.command)).map some := by
  unfold Parsed.strings
  rw [points.nrTokens]
  apply List.ext_getElem
  · rw [List.length_map, List.length_range, List.length_map, List.length_map]
  · intro i inside _
    rw [List.length_map, List.length_range] at inside
    rw [List.getElem_map, List.getElem_range, points.tokens i inside, List.getElem?_eq_getElem inside,
      List.getElem_map, List.getElem_map, Option.map_some]

private theorem Parsed.Points.isComment (points : parsed.Points places) (i : Nat)
    (inside : i < (places.map (stringAt nul parsed.command)).length) :
    parsed.isComment i = ((places.map (stringAt nul parsed.command))[i].head? == some '#') := by
  rw [List.length_map] at inside
  unfold Parsed.isComment
  rw [points.tokens i inside, List.getElem?_eq_getElem inside, List.getElem_map, Bool.eq_iff_iff, beq_iff_eq,
    beq_iff_eq, head_stringAt]
  rfl

/-- The second loop keeps the pointers to the words in front of the first comment. -/
theorem Parsed.Points.removeComments (points : parsed.Points places) :
    parsed.removeComments.strings =
      ((places.map (stringAt nul parsed.command)).takeWhile fun word => !(word.head? == some '#')).map some := by
  rw [takeWhile_eq_take_find points.isComment, List.length_map, ← List.map_take]
  unfold Parsed.removeComments
  rw [points.nrTokens]
  cases found : (List.range places.length).find? parsed.isComment with
  | none =>
      rw [Option.getD_none, List.take_length]
      exact points.strings
  | some i =>
      have inside := List.mem_range.mp (List.find?_range_eq_some.mp found).2.1
      have length : (places.take i).length = i := List.length_take_of_le (Nat.le_of_lt inside)
      let cut : Parsed := { parsed with tokens := Function.update parsed.tokens i none, nrTokens := i }
      have points' : cut.Points (places.take i) := by
        refine ⟨length.symm, fun j before => ?_⟩
        rw [length] at before
        have kept : cut.tokens j = parsed.tokens j := Function.update_of_ne (Nat.ne_of_lt before) ..
        rw [kept, points.tokens j (Nat.lt_trans before inside), List.getElem?_take_of_lt before]
      exact points'.strings

end Comments

/-- The words of a line that the parser should find. -/
def uncommented (line : List Char) : List (List Char) :=
  (words isspace line).takeWhile fun word => !(word.head? == some '#')

section Parse

variable {line : List Char}

/-- As many pointers are stored as there are words. -/
theorem loop_start (terminated : nul ∉ line) (after : List Char) (tokens : Nat -> Option Nat) :
    Scan.loop ⟨[], false, tokens, 0⟩ (line ++ nul :: after) =
      if (words isspace line).length ≤ maxNrTokens then
        .ok ⟨overwrite isspace nul line ++ nul :: after, storeAll tokens 0 ((starts isspace false 0 line).map some),
          (words isspace line).length⟩
      else .error .tokensOutOfBounds := by
  have looped := Scan.loop_eq ⟨[], false, tokens, 0⟩ (Nat.zero_le _) terminated after
  have count : 0 + (starts isspace false 0 line).length = (words isspace line).length := by
    rw [Nat.zero_add, length_starts terminated]
  rw [← count]
  exact looped

/-- The parser stores behind the array exactly when the line has too many words. -/
theorem parseCommand_inside_iff (terminated : nul ∉ line) (after : List Char) (tokens : Nat -> Option Nat) :
    parseCommand (line ++ nul :: after) tokens ≠ .error .tokensOutOfBounds ↔
      (words isspace line).length ≤ maxNrTokens := by
  unfold parseCommand
  rw [loop_start terminated]
  by_cases few : (words isspace line).length ≤ maxNrTokens
  · rw [if_pos few]
    exact iff_of_true nofun few
  · rw [if_neg few]
    exact iff_of_false (fun inside => inside rfl) few

/-- A line is split into its words, up to the first comment. -/
theorem parse_command_splits (terminated : nul ∉ line) (few : (words isspace line).length ≤ maxNrTokens)
    (after : List Char) (tokens : Nat -> Option Nat) :
    Exists fun parsed => parseCommand (line ++ nul :: after) tokens = .ok parsed ∧
      parsed.strings = (uncommented line).map some ∧ parsed.nrTokens = (uncommented line).length := by
  let parsed : Parsed := ⟨overwrite isspace nul line ++ nul :: after,
    storeAll tokens 0 ((starts isspace false 0 line).map some), (words isspace line).length⟩
  have length : (starts isspace false 0 line).length = (words isspace line).length := length_starts terminated
  have points : parsed.Points (starts isspace false 0 line) := by
    refine ⟨length.symm, fun i inside => ?_⟩
    have place := storeAll_getElem tokens (List.length_map some ▸ inside)
    rw [List.getElem_map, ← List.getElem?_eq_getElem inside] at place
    exact place
  have strings : (starts isspace false 0 line).map (stringAt nul parsed.command) = words isspace line :=
    map_stringAt_starts [] after false terminated
  have left := points.removeComments
  rw [strings] at left
  refine ⟨parsed.removeComments, ?_, left, ?_⟩
  · unfold parseCommand
    rw [loop_start terminated, if_pos few]
  · have lengths := congrArg List.length left
    unfold Parsed.strings at lengths
    rw [List.length_map, List.length_map, List.length_range] at lengths
    exact lengths

/-- A line with a comment behind its second word. -/
theorem parse_command_splits_comment : Exists fun parsed =>
    parseCommand [' ', 'r', 'w', '\t', '5', ' ', ' ', '#', 'o', 'k', '\n', nul] (fun _ => none) = .ok parsed ∧
      parsed.strings = [some ['r', 'w'], some ['5']] := by
  have split := parse_command_splits (by decide : nul ∉ [' ', 'r', 'w', '\t', '5', ' ', ' ', '#', 'o', 'k', '\n'])
    (by decide) [] fun _ => none
  rcases split with ⟨parsed, ran, strings, _⟩
  exact ⟨parsed, ran, strings⟩

end Parse

end Simulators
end OsPa
