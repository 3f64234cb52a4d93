import OsPa.Shell.Pa1
import OsPa.Simulators.Splitting

namespace OsPa
namespace Shell

open Library

/-!
# Tokens and the array that takes them

The parser of the shell gives the words of its command.  It does not ask whether
the array has a place for a token, or for the `NULL` behind the last one, and no more
does the parser of the simulators.  An alias is joined by spaces and split again when it
is expanded, which gives back its words.
-/

/-- The delimiters that separate tokens. -/
def isDelimiter (c : Char) : Bool := decide (c ∈ delimiters)

/-- The loop of `parse_command` with what it stores, where the array of the caller has
`MAX_NR_TOKENS` places. -/
def storeTokens (tokens : Nat -> Option String) (nrTokens : Nat) (command : List Char) :
    Except Fault ((Nat -> Option String) × Nat) :=
  match _found : strtok command with
  | none =>
      if nrTokens < maxNrTokens then .ok (Function.update tokens nrTokens none, nrTokens)
      else .error .tokensOutOfBounds
  | some (curr, rest) =>
      if nrTokens < maxNrTokens then
        storeTokens (Function.update tokens nrTokens (some curr)) (nrTokens + 1) rest
      else .error .tokensOutOfBounds
termination_by command.length
decreasing_by exact strtok_shorter ‹_›

/-- `parse_command` with the array that it stores to. -/
def parseInto (tokens : Nat -> Option String) (command : String) : Except Fault ((Nat -> Option String) × Nat) :=
  storeTokens tokens 0 command.toList

/-! ## The words of a command -/

section Words

variable {command rest : List Char} {curr : String}

theorem strtok_eq (command : List Char) :
    strtok command =
      match command.dropWhile isDelimiter with
      | [] => none
      | first :: rest =>
          some (String.ofList (first :: lead isDelimiter rest), (behind isDelimiter rest).drop 1) := by
  have negated : (fun c => decide (c ∉ delimiters)) = fun c => !isDelimiter c := funext fun _ => decide_not
  unfold strtok lead behind
  rw [negated]
  rfl

theorem strtok_none (found : strtok command = none) : words isDelimiter command = [] := by
  rw [strtok_eq] at found
  split at found
  case h_2 => cases found
  case h_1 nothing => rw [← words_dropWhile, nothing, words_nil]

/-- The library function takes the first word off. -/
theorem strtok_some (found : strtok command = some (curr, rest)) :
    Exists fun word => curr = String.ofList word ∧ words isDelimiter command = word :: words isDelimiter rest := by
  rw [strtok_eq] at found
  split at found
  case h_1 => cases found
  case h_2 first more dropped =>
    cases found
    have isLetter : isDelimiter first = false := by
      have stopped := List.head?_dropWhile_not isDelimiter command
      rw [dropped] at stopped
      exact stopped
    refine ⟨_, rfl, ?_⟩
    rw [words_drop_behind, ← words_dropWhile, dropped, words_cons_of_letter isLetter]

theorem parseTokens_eq (command : List Char) :
    parseTokens command = (words isDelimiter command).map String.ofList := by
  induction command using parseTokens.induct with
  | case1 command found =>
      rw [parseTokens, strtok_none found, List.map_nil]
      split
      case h_1 => rfl
      case h_2 curr rest found' => cases found.symm.trans found'
  | case2 command curr rest found inductionHypothesis =>
      rcases strtok_some found with ⟨word, rfl, first⟩
      rw [parseTokens, first, List.map_cons, ← inductionHypothesis]
      split
      case h_1 found' => cases found.symm.trans found'
      case h_2 curr' rest' found' =>
        cases found.symm.trans found'
        rfl

/-- All tokens are stored and `NULL` behind them, if there is room for it. -/
theorem storeTokens_eq (tokens : Nat -> Option String) (nrTokens : Nat) (command : List Char) :
    storeTokens tokens nrTokens command =
      if nrTokens + (parseTokens command).length < maxNrTokens then
        .ok (storeAll tokens nrTokens ((parseTokens command).map some ++ [none]),
          nrTokens + (parseTokens command).length)
      else .error .tokensOutOfBounds := by
  induction command using parseTokens.induct generalizing tokens nrTokens with
  | case1 command found =>
      have nothing : parseTokens command = [] := by rw [parseTokens_eq, strtok_none found, List.map_nil]
      rw [nothing, List.length_nil, Nat.add_zero, List.map_nil, List.nil_append, ← storeAll_cons, storeAll_nil,
        storeTokens]
      split
      case h_1 => rfl
      case h_2 curr rest found' => cases found.symm.trans found'
  | case2 command curr rest found inductionHypothesis =>
      have more : parseTokens command = curr :: parseTokens rest := by
        rcases strtok_some found with ⟨word, rfl, first⟩
        rw [parseTokens_eq, parseTokens_eq, first, List.map_cons]
      have count : nrTokens + ((parseTokens rest).length + 1) = nrTokens + 1 + (parseTokens rest).length := by omega
      rw [more, List.length_cons, List.map_cons, List.cons_append, ← storeAll_cons, count, storeTokens]
      split
      case h_1 found' => cases found.symm.trans found'
      case h_2 curr' rest' found' =>
        cases found.symm.trans found'
        by_cases room : nrTokens < maxNrTokens
        · rw [if_pos room]
          exact inductionHypothesis _ _
        · rw [if_neg room, if_neg (by omega)]

theorem parseInto_eq (tokens : Nat -> Option String) (command : String) :
    parseInto tokens command =
      if (parseCommand command).length < maxNrTokens then
        .ok (storeAll tokens 0 ((parseCommand command).map some ++ [none]), (parseCommand command).length)
      else .error .tokensOutOfBounds := by
  have filled := storeTokens_eq tokens 0 command.toList
  rw [Nat.zero_add] at filled
  exact filled

end Words

/-! ## The room in the array -/

section Room

variable {line : List Char}

/-- The delimiters are the spaces of the C locale. -/
theorem isspace_eq : Simulators.isspace = isDelimiter := by
  funext c
  unfold Simulators.isspace isDelimiter delimiters
  rw [decide_eq_decide]
  simp only [List.mem_cons, List.not_mem_nil]
  tauto

/-- The stores of both parsers stay in the array exactly for lines with few words, where
the shell needs a place for the `NULL` too.  The line ends where its first terminator
stands, and words behind a comment mark count. -/
theorem stores_inside_iff (line after : List Char) (pointers : Nat -> Option Nat) (tokens : Nat -> Option String) :
    (Simulators.parseCommand (line ++ Simulators.nul :: after) pointers ≠ .error .tokensOutOfBounds ↔
      (words Simulators.isspace (stringAt Simulators.nul line 0)).length ≤ Simulators.maxNrTokens) ∧
    (parseInto tokens (String.ofList (stringAt Simulators.nul line 0)) ≠ .error .tokensOutOfBounds ↔
      (words Simulators.isspace (stringAt Simulators.nul line 0)).length < maxNrTokens) := by
  constructor
  · rcases exists_string_append line after with ⟨behind, same⟩
    rw [same]
    exact Simulators.parseCommand_inside_iff (not_mem_stringAt line 0) behind pointers
  · rw [parseInto_eq, parseCommand, String.toList_ofList, parseTokens_eq, List.length_map, isspace_eq]
    split
    case isTrue few => exact iff_of_true nofun few
    case isFalse many => exact iff_of_false (fun inside => inside rfl) many

/-- The line of so many words of one letter. -/
def crowded (nrWords : Nat) : List Char := [' '].intercalate (List.replicate nrWords ['a'])

private theorem words_crowded (nrWords : Nat) :
    words Simulators.isspace (crowded nrWords) = List.replicate nrWords ['a'] := by
  apply words_intercalate (by decide)
  intro word member
  rw [List.eq_of_mem_replicate member]
  refine ⟨List.cons_ne_nil _ _, fun letter inside => ?_⟩
  rw [List.mem_singleton.mp inside]
  rfl

/-- A line of 65 characters overruns the array of the simulators, and one of 63 that
of the shell. -/
theorem crowded_overruns :
    (crowded 33).length = 65 ∧ Simulators.nul ∉ crowded 33 ∧
      Simulators.parseCommand (crowded 33 ++ [Simulators.nul]) (fun _ => none) = .error .tokensOutOfBounds ∧
    (crowded 32).length = 63 ∧ Simulators.nul ∉ crowded 32 ∧
      parseInto (fun _ => none) (String.ofList (crowded 32)) = .error .tokensOutOfBounds := by
  refine ⟨by decide, by decide, rfl, by decide, by decide, ?_⟩
  rw [parseInto_eq, parseCommand, String.toList_ofList, parseTokens_eq, List.length_map, ← isspace_eq, words_crowded,
    List.length_replicate]
  exact if_neg (by decide)

end Room

/-! ## Aliases -/

section Alias

/-- The words are joined by spaces. -/
theorem toList_inputCommand (list : List String) :
    (inputCommand list).toList = [' '].intercalate (list.map String.toList) := by
  induction list with
  | nil => rfl
  | cons word more inductionHypothesis =>
      cases more with
      | nil => exact List.intercalate_singleton.symm
      | cons next others =>
          rw [inputCommand, String.toList_append, String.toList_append, inductionHypothesis, List.map_cons,
            List.map_cons, List.map_cons, List.intercalate_cons_cons]
          rfl

/-- Words without delimiters are words without separators. -/
theorem apart_of_plain {list : List String}
    (plain : forall word, word ∈ list -> word ≠ "" ∧ forall c, c ∈ word.toList -> c ∉ delimiters) :
    forall word, word ∈ list.map String.toList -> word ≠ [] ∧ forall c, c ∈ word -> isDelimiter c = false := by
  intro word member
  rcases List.mem_map.mp member with ⟨token, listed, rfl⟩
  refine ⟨fun empty => (plain token listed).1 (String.toList_eq_nil_iff.mp empty), fun c inside => ?_⟩
  exact decide_eq_false ((plain token listed).2 c inside)

/-- What has been joined is split again. -/
private theorem parseCommand_inputCommand {list : List String}
    (plain : forall word, word ∈ list -> word ≠ "" ∧ forall c, c ∈ word.toList -> c ∉ delimiters) :
    parseCommand (inputCommand list) = list := by
  unfold parseCommand
  rw [parseTokens_eq, toList_inputCommand, words_intercalate (by decide) _ (apart_of_plain plain), List.map_map]
  have same : String.ofList ∘ String.toList = id := funext fun _ => String.ofList_toList
  rw [same, List.map_id]

/-- An alias is expanded to the words that it was defined with. -/
theorem alias_round_trip {list : List String}
    (plain : forall word, word ∈ list -> word ≠ "" ∧ forall c, c ∈ word.toList -> c ∉ delimiters)
    (few : list.length ≤ maxNrTokens - 1) (short : (inputCommand list).length < maxTokenLen * maxNrTokens)
    (stack : List AliasEntry) (name : String) (aliasTokens : Nat -> Option String) :
    Exists fun entry => addAlias stack name list = .ok (entry :: stack) ∧ entry.name = name ∧
      parseCommand entry.command = list ∧
      Exists fun tokens => parseInto aliasTokens entry.command = .ok (tokens, list.length) ∧
        (forall i (inside : i < list.length), tokens i = some list[i]) ∧ tokens list.length = none := by
  have split := parseCommand_inputCommand plain
  refine ⟨⟨name, inputCommand list⟩, ?_, rfl, split, storeAll aliasTokens 0 (list.map some ++ [none]), ?_, ?_, ?_⟩
  · unfold addAlias
    exact if_neg (Nat.not_le_of_lt short)
  · unfold maxNrTokens at few
    rw [parseInto_eq, split, if_pos]
    exact Nat.lt_succ_of_le few
  · intro i inside
    have within : i < (list.map some).length := by
      rw [List.length_map]
      exact inside
    have place : i < (list.map some ++ [none]).length := by
      rw [List.length_append]
      omega
    rw [storeAll_getElem aliasTokens place, List.getElem_append_left within, List.getElem_map]
  · have place : list.length < (list.map some ++ [none]).length := by
      rw [List.length_append, List.length_map]
      exact Nat.lt_succ_self _
    rw [storeAll_getElem aliasTokens place, List.getElem_append_right (Nat.le_of_eq (List.length_map some))]
    exact List.getElem_singleton _

theorem alias_round_trip_two : Exists fun entry =>
    addAlias [] "ll" ["ls", "-al"] = .ok [entry] ∧ parseCommand entry.command = ["ls", "-al"] := by
  have plain : forall word, word ∈ ["ls", "-al"] -> word ≠ "" ∧ forall c, c ∈ word.toList -> c ∉ delimiters := by
    simp [delimiters]
  rcases alias_round_trip plain (by decide) (by decide) [] "ll" fun _ => none with ⟨entry, added, _, split, _⟩
  exact ⟨entry, added, split⟩

end Alias

end Shell
end OsPa
