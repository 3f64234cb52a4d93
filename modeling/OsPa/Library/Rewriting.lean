import OsPa.Library.Substitution

/-!
# Where substituting in place comes to an end

The walk of a rule goes on among the words that it has put in, behind the first of
them.  If the name is among these, the walk never comes to the end of the text.
Otherwise it replaces the name wherever it is, and what it comes to can be written
down.
-/

namespace OsPa
namespace Library

universe u

variable {Word : Type u}

/-- A walk that comes to an end does not put in the name behind the first word. -/
theorem Walk.contained {rule : Rule Word} {limit : Nat} {before todo after : List (Token Word)} {again : Bool}
    (walk : Walk rule limit before todo after again) (met : rule.name ∈ todo.map Token.word) :
    rule.name ∉ rule.words.tail ∧ rule.words.length < limit := by
  induction walk with
  | done before => exact absurd met List.not_mem_nil
  | pass other rest inductionHypothesis =>
      rcases List.mem_cons.mp met with same | later
      · exact absurd same.symm other
      · exact inductionHypothesis later
  | @replace before todo after token again same fits rest inductionHypothesis =>
      refine ⟨fun further => ?_, fits⟩
      cases words : rule.words with
      | nil =>
          rw [words] at further
          exact List.not_mem_nil further
      | cons first others =>
          rcases insertion_split words todo with ⟨_, dropped, _⟩
          rw [dropped, List.map_append, map_insertion] at inductionHypothesis
          rw [words] at further
          have absent := (inductionHypothesis (List.mem_append_left _ further)).1
          rw [words] at absent
          exact absent further

variable [DecidableEq Word]

/-- The text without the name.  The word behind a name that is left out is kept,
whatever it is. -/
def leaveOut (name : Word) : List Word -> List Word
  | [] => []
  | [word] => if word = name then [] else [word]
  | word :: next :: text =>
      if word = name then next :: leaveOut name text else word :: leaveOut name (next :: text)

/-- The text with the words of the rule for its name. -/
def Rule.rewrite (rule : Rule Word) (text : List Word) : List Word :=
  match rule.words with
  | [] => leaveOut rule.name text
  | _ :: _ => text.flatMap fun word => if word = rule.name then rule.words else [word]

/-- A rule whose name is in the text by then has its name as the first of its words
only, if at all, and has less than `limit` words. -/
def Contained (limit : Nat) : List (Rule Word) -> List Word -> Prop
  | [], _ => True
  | rule :: rules, text =>
      (rule.name ∈ text -> rule.name ∉ rule.words.tail ∧ rule.words.length < limit) ∧
        Contained limit rules (rule.rewrite text)

section Rewrite

variable {rule : Rule Word} {word : Word} {text : List Word}

private theorem leaveOut_cons_of_ne (other : word ≠ rule.name) (text : List Word) :
    leaveOut rule.name (word :: text) = word :: leaveOut rule.name text := by
  cases text with
  | nil => exact if_neg other
  | cons next text => exact if_neg other

private theorem leaveOut_cons_name (name : Word) (text : List Word) :
    leaveOut name (name :: text) = text.take 1 ++ leaveOut name (text.drop 1) := by
  cases text with
  | nil => exact if_pos rfl
  | cons next text => exact if_pos rfl

theorem Rule.rewrite_of_nil (words : rule.words = []) (text : List Word) :
    rule.rewrite text = leaveOut rule.name text := by
  unfold Rule.rewrite
  rw [words]

theorem Rule.rewrite_of_ne_nil (words : rule.words ≠ []) (text : List Word) :
    rule.rewrite text = text.flatMap fun word => if word = rule.name then rule.words else [word] := by
  unfold Rule.rewrite
  split
  case h_1 nothing => exact absurd nothing words
  case h_2 => rfl

theorem Rule.rewrite_nil (rule : Rule Word) : rule.rewrite [] = [] := by
  unfold Rule.rewrite
  split
  case h_1 => rfl
  case h_2 => rfl

theorem Rule.rewrite_cons_of_ne (other : word ≠ rule.name) (text : List Word) :
    rule.rewrite (word :: text) = word :: rule.rewrite text := by
  by_cases words : rule.words = []
  · rw [Rule.rewrite_of_nil words, Rule.rewrite_of_nil words, leaveOut_cons_of_ne other]
  · rw [Rule.rewrite_of_ne_nil words, Rule.rewrite_of_ne_nil words, List.flatMap_cons, if_neg other]
    rfl

/-- Words that are not the name stay as they are. -/
theorem Rule.rewrite_append {segment : List Word} (others : rule.name ∉ segment) (text : List Word) :
    rule.rewrite (segment ++ text) = segment ++ rule.rewrite text := by
  induction segment with
  | nil => rfl
  | cons word segment inductionHypothesis =>
      have other : word ≠ rule.name := fun same => others (same ▸ List.mem_cons_self)
      have later : rule.name ∉ segment := fun member => others (List.mem_cons_of_mem _ member)
      rw [List.cons_append, Rule.rewrite_cons_of_ne other, inductionHypothesis later, List.cons_append]

/-- The name is replaced, and the walk goes on behind the first word that is then
there. -/
theorem Rule.rewrite_cons_name (once : rule.name ∉ rule.words.tail) (text : List Word) :
    rule.rewrite (rule.name :: text) =
      (rule.words ++ text).take 1 ++ rule.rewrite ((rule.words ++ text).drop 1) := by
  cases words : rule.words with
  | nil =>
      rw [Rule.rewrite_of_nil words, Rule.rewrite_of_nil words, leaveOut_cons_name]
      rfl
  | cons first rest =>
      rw [words] at once
      have something : rule.words ≠ [] := by
        rw [words]
        exact List.cons_ne_nil first rest
      have behind : rule.rewrite (rest ++ text) = rest ++ rule.rewrite text := Rule.rewrite_append once text
      have replaced : rule.rewrite (rule.name :: text) = first :: rest ++ rule.rewrite text := by
        rw [Rule.rewrite_of_ne_nil something, Rule.rewrite_of_ne_nil something, List.flatMap_cons, if_pos rfl, words]
      have dropped : List.drop 1 (first :: rest ++ text) = rest ++ text := rfl
      rw [dropped, behind, replaced]
      rfl

end Rewrite

section Walk

variable {rule : Rule Word} {limit : Nat} {before todo after : List (Token Word)} {again : Bool}

private theorem Walk.text (walk : Walk rule limit before todo after again) :
    after.map Token.word = before.map Token.word ++ rule.rewrite (todo.map Token.word) := by
  induction walk with
  | done before =>
      rw [List.map_nil, Rule.rewrite_nil, List.append_nil]
  | pass other rest inductionHypothesis =>
      rw [inductionHypothesis, List.map_cons, Rule.rewrite_cons_of_ne other, List.map_append, List.append_assoc]
      rfl
  | @replace before todo after token again same fits rest inductionHypothesis =>
      have met : rule.name ∈ (token :: todo).map Token.word := same ▸ List.mem_cons_self
      have once := ((Walk.replace same fits rest).contained met).1
      have words : (insertion rule.words ++ todo).map Token.word = rule.words ++ todo.map Token.word := by
        rw [List.map_append, map_insertion]
      rw [inductionHypothesis, List.map_append, List.map_take, List.map_drop, words, List.map_cons, same,
        Rule.rewrite_cons_name once, List.append_assoc]

/-- The walk comes to an end, for what it has still to look at gets shorter. -/
theorem walk_of_contained (contained : rule.name ∈ todo.map Token.word ->
      rule.name ∉ rule.words.tail ∧ rule.words.length < limit) (before : List (Token Word)) :
    Exists fun after => Exists fun again => Walk rule limit before todo after again := by
  induction length : todo.length using Nat.strongRecOn generalizing todo before with
  | ind size inductionHypothesis =>
      cases todo with
      | nil => exact ⟨before, false, .done before⟩
      | cons token todo =>
          have shorter : todo.length < size := length ▸ Nat.lt_succ_self _
          have later : rule.name ∈ todo.map Token.word -> rule.name ∉ rule.words.tail ∧ rule.words.length < limit :=
            fun met => contained (List.mem_cons_of_mem _ met)
          by_cases same : token.word = rule.name
          · rcases contained (same ▸ List.mem_cons_self) with ⟨once, fits⟩
            cases words : rule.words with
            | nil =>
                have rest : (todo.drop 1).length < size := by
                  rw [List.length_drop]
                  omega
                have unmet : rule.name ∈ (todo.drop 1).map Token.word ->
                    rule.name ∉ rule.words.tail ∧ rule.words.length < limit := by
                  intro met
                  rw [List.map_drop] at met
                  exact later (List.mem_of_mem_drop met)
                rcases inductionHypothesis _ rest unmet (before ++ todo.take 1) rfl with ⟨after, again, walk⟩
                rw [← insertion_of_nil words todo] at walk
                exact ⟨after, _, .replace same fits walk⟩
            | cons first others =>
                rcases insertion_split words todo with ⟨taken, dropped, _⟩
                rcases inductionHypothesis _ shorter later (before ++ [⟨first, true⟩] ++ insertion others) rfl with
                  ⟨after, again, walk⟩
                have goesOn : Walk rule limit (before ++ (insertion rule.words ++ todo).take 1)
                    ((insertion rule.words ++ todo).drop 1) after again := by
                  rw [taken, dropped]
                  apply walk.passes
                  intro put member isName
                  rcases List.mem_map.mp member with ⟨word, listed, rfl⟩
                  rw [words] at once
                  exact once (isName ▸ listed)
                exact ⟨after, _, .replace same fits goesOn⟩
          · rcases inductionHypothesis _ shorter later (before ++ [token]) rfl with ⟨after, again, walk⟩
            exact ⟨after, again, .pass same walk⟩

end Walk

/-- The walks of the rules come to an end exactly if the rules are contained. -/
theorem walks_iff_contained {rules : List (Rule Word)} {limit : Nat} {tokens : List (Token Word)} :
    (Exists fun after => Exists fun again => Walks limit rules tokens after again) ↔
      Contained limit rules (tokens.map Token.word) := by
  induction rules generalizing tokens with
  | nil => exact ⟨fun _ => trivial, fun _ => ⟨tokens, false, .nil tokens⟩⟩
  | cons rule rules inductionHypothesis =>
      constructor
      · rintro ⟨after, again, walks⟩
        rcases walks.of_cons with ⟨middle, _, _, walk, rest, _⟩
        have text : middle.map Token.word = rule.rewrite (tokens.map Token.word) := walk.text
        refine ⟨walk.contained, ?_⟩
        rw [← text]
        exact inductionHypothesis.mp ⟨after, _, rest⟩
      · rintro ⟨first, others⟩
        rcases walk_of_contained first [] with ⟨middle, again, walk⟩
        have text : middle.map Token.word = rule.rewrite (tokens.map Token.word) := walk.text
        rw [← text] at others
        rcases inductionHypothesis.mpr others with ⟨after, _, rest⟩
        exact ⟨after, _, .cons walk rest⟩

end Library
end OsPa
