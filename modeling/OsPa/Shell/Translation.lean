import OsPa.Library.Substitution
import OsPa.Shell.Pa1

namespace OsPa
namespace Shell

open Library

/-!
# Simultaneous translation

The loop over the tokens for one alias is the walk of a rule: the name of the
alias is replaced by the words of its command, and the walk knows of each word
whether it is a token of the command line or comes out of an alias.
-/

def AliasEntry.rule (pos : AliasEntry) : Rule String := ⟨pos.name, parseCommand pos.command⟩

/-- The index stands between what is behind and what is in front of the walk. -/
structure Expansion.At (e : Expansion) (before todo : List (Token String)) : Prop where
  behind : e.tokens.take e.i = before.map Token.word
  ahead : e.tokens.drop e.i = todo.map Token.word

section Round

variable {pos : AliasEntry} {e : Expansion} {before todo : List (Token String)} {token : Token String}

theorem Expansion.At.tokens (stands : e.At before todo) : e.tokens = (before ++ todo).map Token.word := by
  rw [List.map_append, ← stands.behind, ← stands.ahead, List.take_append_drop]

theorem Expansion.At.current (stands : e.At before todo) : e.tokens[e.i]? = (todo.map Token.word).head? := by
  rw [← stands.ahead, List.head?_drop]

theorem Expansion.At.rest (stands : e.At before (token :: todo)) :
    e.tokens.drop (e.i + 1) = todo.map Token.word := by
  rw [← List.tail_drop, stands.ahead]
  rfl

theorem Expansion.round_end (stands : e.At before []) : e.round pos = .inr (.ok e) := by
  have current := stands.current
  unfold Expansion.round
  rw [current]
  rfl

theorem Expansion.round_pass (stands : e.At before (token :: todo)) (other : token.word ≠ pos.name) :
    Exists fun next => Expansion.round pos e = .inl next ∧ next.At (before ++ [token]) todo := by
  have current : e.tokens[e.i]? = some token.word := stands.current
  refine ⟨{ e with i := e.i + 1 }, ?_, ?_, stands.rest⟩
  · unfold Expansion.round
    rw [current]
    exact if_neg other
  · rw [List.take_add_one, stands.behind, current, List.map_append]
    rfl

theorem Expansion.round_replace (stands : e.At before (token :: todo)) (same : token.word = pos.name)
    (fits : pos.rule.words.length < maxNrTokens) :
    Exists fun next => Expansion.round pos e = .inl next ∧
      next.At (before ++ (insertion pos.rule.words ++ todo).take 1) ((insertion pos.rule.words ++ todo).drop 1) := by
  have current : e.tokens[e.i]? = some token.word := stands.current
  have long : e.i = (before.map Token.word).length := by
    rcases List.getElem?_eq_some_iff.mp current with ⟨inside, _⟩
    rw [← stands.behind, List.length_take_of_le (Nat.le_of_lt inside)]
  let newTokens := e.tokens.take e.i ++ parseCommand pos.command ++ e.tokens.drop (e.i + 1)
  have shape : newTokens = before.map Token.word ++ (insertion pos.rule.words ++ todo).map Token.word := by
    rw [List.map_append, map_insertion, ← stands.rest, ← stands.behind, ← List.append_assoc]
    rfl
  refine ⟨⟨e.i + 1, newTokens, newTokens.length⟩, ?_, ?_, ?_⟩
  · unfold Expansion.round
    rw [current]
    exact (if_pos same).trans (if_neg (Nat.not_le_of_lt fits))
  · calc
      newTokens.take (e.i + 1) =
          before.map Token.word ++ ((insertion pos.rule.words ++ todo).map Token.word).take 1 := by
        rw [shape, long, List.take_length_add_append]
      _ = (before ++ (insertion pos.rule.words ++ todo).take 1).map Token.word := by
        rw [← List.map_take, ← List.map_append]
  · calc
      newTokens.drop (e.i + 1) = ((insertion pos.rule.words ++ todo).map Token.word).drop 1 := by
        rw [shape, long, List.drop_length_add_append]
      _ = ((insertion pos.rule.words ++ todo).drop 1).map Token.word := by rw [List.map_drop]

private theorem Expansion.round_fault (stands : e.At before (token :: todo)) (same : token.word = pos.name)
    (full : maxNrTokens ≤ pos.rule.words.length) :
    Expansion.round pos e = .inr (.error .aliasTokensOutOfBounds) := by
  have current : e.tokens[e.i]? = some token.word := stands.current
  unfold Expansion.round
  rw [current]
  exact (if_pos same).trans (if_pos full)

end Round

section Alias

variable {pos : AliasEntry} {e final : Expansion} {before todo after : List (Token String)} {again : Bool}

/-- A walk is followed by the loop over the tokens. -/
theorem ends_of_walk (walk : Walk pos.rule maxNrTokens before todo after again) (stands : e.At before todo) :
    Exists fun final => Ends (Expansion.round pos) e (.ok final) ∧ final.tokens = after.map Token.word := by
  induction walk generalizing e with
  | done before =>
      have tokens := stands.tokens
      rw [List.append_nil] at tokens
      exact ⟨e, (ends_of_inr (Expansion.round_end stands)).mpr rfl, tokens⟩
  | pass other rest inductionHypothesis =>
      rcases Expansion.round_pass stands other with ⟨next, goesOn, further⟩
      rcases inductionHypothesis further with ⟨final, ended, tokens⟩
      exact ⟨final, (ends_of_inl goesOn).mpr ended, tokens⟩
  | replace same fits rest inductionHypothesis =>
      rcases Expansion.round_replace stands same fits with ⟨next, goesOn, further⟩
      rcases inductionHypothesis further with ⟨final, ended, tokens⟩
      exact ⟨final, (ends_of_inl goesOn).mpr ended, tokens⟩

/-- The loop over the tokens, where it comes to an end without a fault, is a walk. -/
theorem walk_of_ends (ended : Ends (Expansion.round pos) e (.ok final)) (stands : e.At before todo) :
    Exists fun after => Exists fun again => Walk pos.rule maxNrTokens before todo after again ∧
      final.tokens = after.map Token.word := by
  rcases ended with ⟨fuel, ended⟩
  induction fuel generalizing e before todo with
  | zero => cases ended
  | succ fuel inductionHypothesis =>
      cases todo with
      | nil =>
          rw [rounds_succ_of_inr (Expansion.round_end stands)] at ended
          cases ended
          have tokens := stands.tokens
          rw [List.append_nil] at tokens
          exact ⟨before, false, .done before, tokens⟩
      | cons token todo =>
          by_cases same : token.word = pos.name
          · by_cases fits : pos.rule.words.length < maxNrTokens
            · rcases Expansion.round_replace stands same fits with ⟨next, goesOn, further⟩
              rw [rounds_succ_of_inl goesOn] at ended
              rcases inductionHypothesis further ended with ⟨after, again, walk, tokens⟩
              exact ⟨after, _, .replace same fits walk, tokens⟩
            · rw [rounds_succ_of_inr (Expansion.round_fault stands same (Nat.le_of_not_lt fits))] at ended
              cases ended
          · rcases Expansion.round_pass stands same with ⟨next, goesOn, further⟩
            rw [rounds_succ_of_inl goesOn] at ended
            rcases inductionHypothesis further ended with ⟨after, again, walk, tokens⟩
            exact ⟨after, again, .pass same walk, tokens⟩

end Alias

section Aliases

variable {pos : AliasEntry} {stack : List AliasEntry} {e final : Expansion} {tokens after : List (Token String)}
variable {again : Bool} {command : List String}

theorem Expansion.at_start (same : e.tokens = tokens.map Token.word) : ({ e with i := 0 } : Expansion).At [] tokens :=
  ⟨rfl, same⟩

theorem expandAliases_cons {middle : Expansion} {fuel : Nat}
    (ended : rounds (Expansion.round pos) fuel { e with i := 0 } = some (.ok middle)) :
    expandAliases fuel (pos :: stack) e = expandAliases fuel stack middle := by
  rw [expandAliases, ended]

/-- More fuel does not change the result. -/
theorem expandAliases_mono {fuel more : Nat} {result : Except Fault Expansion} (enough : fuel ≤ more)
    (ended : expandAliases fuel stack e = some result) : expandAliases more stack e = some result := by
  induction stack generalizing e with
  | nil => exact ended
  | cons pos stack inductionHypothesis =>
      unfold expandAliases at ended
      split at ended
      case h_1 => cases ended
      case h_2 fault first =>
          unfold expandAliases
          rw [rounds_mono enough first]
          exact ended
      case h_3 middle first =>
          rw [expandAliases_cons (rounds_mono enough first)]
          exact inductionHypothesis ended

private theorem Expands.unique {result other : Except Fault Expansion} (expands : Expands stack e result)
    (also : Expands stack e other) : result = other := by
  rcases expands with ⟨fuel, ended⟩
  rcases also with ⟨more, ended'⟩
  have first := expandAliases_mono (Nat.le_max_left fuel more) ended
  have second := expandAliases_mono (Nat.le_max_right fuel more) ended'
  exact Option.some.inj (first.symm.trans second)

theorem expands_cons : Expands (pos :: stack) e (.ok final) ↔ Exists fun middle =>
    Ends (Expansion.round pos) { e with i := 0 } (.ok middle) ∧ Expands stack middle (.ok final) := by
  constructor
  · rintro ⟨fuel, ended⟩
    unfold expandAliases at ended
    split at ended
    case h_1 => cases ended
    case h_2 => cases ended
    case h_3 middle first => exact ⟨middle, ⟨fuel, first⟩, fuel, ended⟩
  · rintro ⟨middle, ⟨fuel, first⟩, more, rest⟩
    refine ⟨max fuel more, ?_⟩
    rw [expandAliases_cons (rounds_mono (Nat.le_max_left fuel more) first)]
    exact expandAliases_mono (Nat.le_max_right fuel more) rest

theorem expands_of_walks (walks : Walks maxNrTokens (stack.map AliasEntry.rule) tokens after again)
    (same : e.tokens = tokens.map Token.word) :
    Exists fun final => Expands stack e (.ok final) ∧ final.tokens = after.map Token.word := by
  induction stack generalizing e tokens again with
  | nil =>
      cases walks
      exact ⟨e, ⟨0, rfl⟩, same⟩
  | cons pos stack inductionHypothesis =>
      rcases walks.of_cons with ⟨_, _, _, walk, rest, _⟩
      rcases ends_of_walk walk (Expansion.at_start same) with ⟨middle, first, words⟩
      rcases inductionHypothesis rest words with ⟨final, others, result⟩
      exact ⟨final, expands_cons.mpr ⟨middle, first, others⟩, result⟩

theorem walks_of_expands (expands : Expands stack e (.ok final)) (same : e.tokens = tokens.map Token.word) :
    Exists fun after => Exists fun again => Walks maxNrTokens (stack.map AliasEntry.rule) tokens after again ∧
      final.tokens = after.map Token.word := by
  induction stack generalizing e tokens with
  | nil =>
      rcases expands with ⟨fuel, ended⟩
      cases ended
      exact ⟨tokens, false, .nil tokens, same⟩
  | cons pos stack inductionHypothesis =>
      rcases expands_cons.mp expands with ⟨middle, first, others⟩
      rcases walk_of_ends first (Expansion.at_start same) with ⟨_, _, walk, words⟩
      rcases inductionHypothesis others words with ⟨after, _, rest, result⟩
      exact ⟨after, _, .cons walk rest, result⟩

end Aliases

/-! ## At once -/

/-- The tokens of the command in order, each alias replaced by the words of its
command. -/
def simultaneous (stack : List AliasEntry) (command : List String) : List String :=
  command.flatMap fun token =>
    match stack.find? fun pos => pos.name = token with
    | none => [token]
    | some pos => parseCommand pos.command

/-- The walks of the aliases replace no word that comes out of an alias. -/
def TranslatedOnce (stack : List AliasEntry) (command : List String) : Prop :=
  forall after again, Walks maxNrTokens (stack.map AliasEntry.rule) (originals command) after again -> again = false

section Simultaneous

variable {stack : List AliasEntry} {command : List String}

private theorem translation_rule (stack : List AliasEntry) (token : String) :
    (translation (stack.map AliasEntry.rule) token).map Token.word =
      match stack.find? fun pos => pos.name = token with
      | none => [token]
      | some pos => parseCommand pos.command := by
  have found : ((stack.map AliasEntry.rule).find? fun rule => rule.name = token) =
      (stack.find? fun pos => pos.name = token).map AliasEntry.rule := List.find?_map
  unfold translation
  rw [found]
  cases stack.find? fun pos => pos.name = token with
  | none => rfl
  | some pos => exact map_insertion pos.rule.words

private theorem simultaneous_eq (stack : List AliasEntry) (command : List String) :
    simultaneous stack command = (substitute (stack.map AliasEntry.rule) command).map Token.word := by
  unfold simultaneous substitute
  rw [List.map_flatMap]
  congr
  funext token
  exact (translation_rule stack token).symm

/-- The expansion is the simultaneous translation, and translates no word twice,
exactly if the aliases are independent for the command. -/
theorem simultaneous_iff_independent (distinct : (stack.map AliasEntry.name).Nodup) :
    (Exists fun final => Expands stack (.start command) (.ok final) ∧ final.tokens = simultaneous stack command) ∧
        TranslatedOnce stack command ↔
      Independent maxNrTokens (stack.map AliasEntry.rule) command := by
  have names : ((stack.map AliasEntry.rule).map Rule.name).Nodup := by
    rw [List.map_map]
    exact distinct
  have start : (Expansion.start command).tokens = (originals command).map Token.word := (map_originals command).symm
  rw [← walks_iff_independent names (by decide), simultaneous_eq]
  constructor
  · rintro ⟨⟨final, expands, translated⟩, once⟩
    rcases walks_of_expands expands start with ⟨after, again, walks, words⟩
    rw [once after again walks] at walks
    exact ⟨after, walks, words.symm.trans translated⟩
  · rintro ⟨after, walks, equal⟩
    rcases expands_of_walks walks start with ⟨final, expands, words⟩
    constructor
    · exact ⟨final, expands, words.trans equal⟩
    · intro other again also
      exact (also.unique walks).2

/-- The aliases `xyz` for `Hello world` and then `world` for `Korea`. -/
theorem simultaneous_hello_world_korea :
    (Exists fun final =>
      Expands [⟨"world", "Korea"⟩, ⟨"xyz", "Hello world"⟩] (.start ["echo", "xyz", "world"]) (.ok final) ∧
        final.tokens = ["echo", "Hello", "world", "Korea"]) ∧
      TranslatedOnce [⟨"world", "Korea"⟩, ⟨"xyz", "Hello world"⟩] ["echo", "xyz", "world"] := by
  have translated : simultaneous [⟨"world", "Korea"⟩, ⟨"xyz", "Hello world"⟩] ["echo", "xyz", "world"] =
      ["echo", "Hello", "world", "Korea"] := by decide +kernel
  have rules : [⟨"world", "Korea"⟩, ⟨"xyz", "Hello world"⟩].map AliasEntry.rule =
      [⟨"world", ["Korea"]⟩, ⟨"xyz", ["Hello", "world"]⟩] := by decide +kernel
  rw [← translated]
  apply (simultaneous_iff_independent (by decide)).mpr
  rw [rules]
  intro earlier rule later split
  rcases earlier with _ | ⟨first, _ | ⟨second, more⟩⟩
  · cases split
    exact ⟨by decide, fun other member => absurd member List.not_mem_nil⟩
  · cases split
    refine ⟨by decide, fun other member => ?_⟩
    rw [List.mem_singleton.mp member]
    decide
  · injection split with _ split
    injection split with _ split
    exact absurd split.symm (List.append_ne_nil_of_right_ne_nil _ (List.cons_ne_nil _ _))

/-- The alias `ls` for `ls -al` and then `ll` for `ls`: the command of `ll` is stored
as `ls -al`, and its first word is translated once more when `ll` is entered. -/
theorem ll_translated_again : Exists fun first => Exists fun second => Exists fun defining =>
    addAlias [] "ls" ["ls", "-al"] = .ok first ∧
      Expands first (.start ["alias", "ll", "ls"]) (.ok defining) ∧
        defining.tokens = ["alias", "ll", "ls", "-al"] ∧ addAlias first "ll" (defining.tokens.drop 2) = .ok second ∧
          (second.map AliasEntry.name).Nodup ∧ simultaneous second ["ll"] = ["ls", "-al"] ∧
            (Exists fun final => Expands second (.start ["ll"]) (.ok final) ∧ final.tokens = ["ls", "-al", "-al"]) ∧
              ¬ Exists fun final => Expands second (.start ["ll"]) (.ok final) ∧
                final.tokens = simultaneous second ["ll"] := by
  have expands : Expands [⟨"ll", "ls -al"⟩, ⟨"ls", "ls -al"⟩] (.start ["ll"]) (.ok ⟨3, ["ls", "-al", "-al"], 3⟩) :=
    ⟨4, by decide +kernel⟩
  refine ⟨[⟨"ls", "ls -al"⟩], [⟨"ll", "ls -al"⟩, ⟨"ls", "ls -al"⟩], ⟨4, ["alias", "ll", "ls", "-al"], 4⟩,
    by decide +kernel, ⟨5, by decide +kernel⟩, rfl, by decide +kernel, by decide, by decide +kernel,
    ⟨_, expands, rfl⟩, ?_⟩
  rintro ⟨final, also, translated⟩
  cases expands.unique also
  exact absurd translated (by decide +kernel)

end Simultaneous

end Shell
end OsPa
