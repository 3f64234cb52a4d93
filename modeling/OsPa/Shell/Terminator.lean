import OsPa.Shell.Translation

namespace OsPa
namespace Shell

open Library

/-!
# The end of the argument vector

Behind the loops the index is where the last loop over the tokens has left it, and
`NULL` is stored there.  The array that a replacement has made has a place for each
token and none behind them.
-/

section Round

variable {pos : AliasEntry} {e next final : Expansion}

theorem round_inl_cases (goesOn : Expansion.round pos e = .inl next) :
    (e.tokens[e.i]? = some pos.name ∧ next.slots = next.tokens.length) ∨
      (Exists fun token => e.tokens[e.i]? = some token ∧ token ≠ pos.name) ∧ next = { e with i := e.i + 1 } := by
  unfold Expansion.round at goesOn
  split at goesOn
  case h_1 => cases goesOn
  case h_2 token current =>
      split at goesOn
      case isTrue same =>
          by_cases long : maxNrTokens ≤ (parseCommand pos.command).length
          · rw [if_pos long] at goesOn
            cases goesOn
          · rw [if_neg long] at goesOn
            cases goesOn
            exact .inl ⟨same ▸ current, rfl⟩
      case isFalse other =>
          cases goesOn
          exact .inr ⟨⟨token, current, other⟩, rfl⟩

theorem round_inr_ok (leaves : Expansion.round pos e = .inr (.ok final)) :
    final = e ∧ e.tokens.length ≤ e.i := by
  unfold Expansion.round at leaves
  split at leaves
  case h_1 behind =>
      cases leaves
      exact ⟨rfl, List.getElem?_eq_none_iff.mp behind⟩
  case h_2 token current =>
      split at leaves
      case isTrue same =>
          by_cases long : maxNrTokens ≤ (parseCommand pos.command).length
          · rw [if_pos long] at leaves
            cases leaves
          · rw [if_neg long] at leaves
            cases leaves
      case isFalse => cases leaves

end Round

section Alias

variable {pos : AliasEntry} {e final : Expansion}

/-- An alias whose name is not among the tokens leaves them as they are. -/
theorem ends_unmet (unmet : pos.name ∉ e.tokens) (ended : Ends (Expansion.round pos) { e with i := 0 } (.ok final)) :
    final = { e with i := e.tokens.length } := by
  have step : forall state next : Expansion, (state = { e with i := state.i } ∧ state.i ≤ e.tokens.length) ->
      Expansion.round pos state = .inl next -> next = { e with i := next.i } ∧ next.i ≤ e.tokens.length := by
    rintro state next ⟨same, inside⟩ goesOn
    have tokens : state.tokens = e.tokens := by rw [same]
    rcases round_inl_cases goesOn with ⟨met, _⟩ | ⟨⟨token, current, _⟩, rfl⟩
    · rw [tokens] at met
      exact absurd (List.mem_of_getElem? met) unmet
    · constructor
      · rw [same]
      · rw [tokens] at current
        exact (List.getElem?_eq_some_iff.mp current).1
  rcases ended.last _ step ⟨rfl, Nat.zero_le _⟩ with ⟨last, ⟨same, inside⟩, leaves⟩
  rcases round_inr_ok leaves with ⟨rfl, behind⟩
  have tokens : final.tokens = e.tokens := by rw [same]
  rw [tokens] at behind
  rw [same, Nat.le_antisymm inside behind]

/-- After a replacement the array is full. -/
theorem ends_met (met : pos.name ∈ e.tokens) (ended : Ends (Expansion.round pos) { e with i := 0 } (.ok final)) :
    final.slots = final.tokens.length := by
  have step : forall state next : Expansion,
      (state.tokens = e.tokens ∧ pos.name ∉ e.tokens.take state.i) ∨ state.slots = state.tokens.length ->
      Expansion.round pos state = .inl next ->
        (next.tokens = e.tokens ∧ pos.name ∉ e.tokens.take next.i) ∨ next.slots = next.tokens.length := by
    intro state next before goesOn
    rcases round_inl_cases goesOn with ⟨_, full⟩ | ⟨⟨token, current, other⟩, rfl⟩
    · exact .inr full
    · rcases before with ⟨tokens, unmet⟩ | full
      · refine .inl ⟨tokens, ?_⟩
        rw [tokens] at current
        rw [List.take_add_one, current]
        intro member
        rcases List.mem_append.mp member with earlier | here
        · exact unmet earlier
        · exact other (List.mem_singleton.mp here).symm
      · exact .inr full
  have start : pos.name ∉ e.tokens.take 0 := List.not_mem_nil
  rcases ended.last _ step (.inl ⟨rfl, start⟩) with ⟨last, ⟨tokens, unmet⟩ | full, leaves⟩
  · rcases round_inr_ok leaves with ⟨rfl, behind⟩
    rw [tokens] at behind
    rw [List.take_of_length_le behind] at unmet
    exact absurd met unmet
  · rcases round_inr_ok leaves with ⟨rfl, _⟩
    exact full

private theorem ends_full (full : e.slots = e.tokens.length)
    (ended : Ends (Expansion.round pos) { e with i := 0 } (.ok final)) : final.slots = final.tokens.length := by
  by_cases met : pos.name ∈ e.tokens
  · exact ends_met met ended
  · rw [ends_unmet met ended]
    exact full

private theorem ends_behind (ended : Ends (Expansion.round pos) { e with i := 0 } (.ok final)) :
    final.tokens.length ≤ final.i := by
  rcases ended.last (fun _ => True) (fun _ _ _ _ => trivial) trivial with ⟨last, _, leaves⟩
  rcases round_inr_ok leaves with ⟨rfl, behind⟩
  exact behind

end Alias

section Aliases

variable {stack : List AliasEntry} {e final : Expansion} {command : List String}

theorem expands_nil (expands : Expands [] e (.ok final)) : final = e := by
  rcases expands with ⟨fuel, ended⟩
  cases ended
  rfl

theorem expands_behind (expands : Expands stack e (.ok final)) (aliases : stack ≠ []) :
    final.tokens.length ≤ final.i := by
  induction stack generalizing e with
  | nil => exact absurd rfl aliases
  | cons pos stack inductionHypothesis =>
      rcases expands_cons.mp expands with ⟨middle, first, others⟩
      by_cases last : stack = []
      · subst last
        rw [expands_nil others]
        exact ends_behind first
      · exact inductionHypothesis others last

private theorem expands_full (expands : Expands stack e (.ok final)) (full : e.slots = e.tokens.length) :
    final.slots = final.tokens.length := by
  induction stack generalizing e with
  | nil =>
      rw [expands_nil expands]
      exact full
  | cons pos stack inductionHypothesis =>
      rcases expands_cons.mp expands with ⟨middle, first, others⟩
      exact inductionHypothesis others (ends_full full first)

theorem expands_unmet (expands : Expands stack e (.ok final)) (aliases : stack ≠ [])
    (unmet : forall pos, pos ∈ stack -> pos.name ∉ e.tokens) : final = { e with i := e.tokens.length } := by
  induction stack generalizing e with
  | nil => exact absurd rfl aliases
  | cons pos stack inductionHypothesis =>
      rcases expands_cons.mp expands with ⟨middle, first, others⟩
      have same := ends_unmet (unmet pos List.mem_cons_self) first
      subst same
      by_cases last : stack = []
      · subst last
        exact expands_nil others
      · have rest := inductionHypothesis others last fun other member => unmet other (List.mem_cons_of_mem _ member)
        exact rest

theorem expands_met {pos : AliasEntry} (expands : Expands stack e (.ok final)) (member : pos ∈ stack)
    (met : pos.name ∈ e.tokens) : final.slots = final.tokens.length := by
  induction stack generalizing e with
  | nil => exact absurd member List.not_mem_nil
  | cons other stack inductionHypothesis =>
      rcases expands_cons.mp expands with ⟨middle, first, others⟩
      by_cases here : other.name ∈ e.tokens
      · exact expands_full others (ends_met here first)
      · rcases List.mem_cons.mp member with rfl | later
        · exact absurd met here
        · rw [ends_unmet here first] at others
          exact inductionHypothesis others later met

/-- The store is inside the array of the caller, right behind the tokens. -/
theorem terminate_start (fits : command.length < maxNrTokens) :
    Expansion.terminate { Expansion.start command with i := command.length } =
      .ok (command.map some ++ none :: List.replicate (maxNrTokens - command.length - 1) none) := by
  have room : maxNrTokens - command.length = (maxNrTokens - command.length - 1) + 1 := by omega
  have stored : (command.map some ++ List.replicate (maxNrTokens - command.length) none).set command.length none =
      command.map some ++ none :: List.replicate (maxNrTokens - command.length - 1) none := by
    rw [List.set_append_right _ _ (Nat.le_of_eq (List.length_map some)), List.length_map, Nat.sub_self, room]
    rfl
  unfold Expansion.terminate
  exact (if_neg (Nat.not_le_of_lt fits)).trans (congrArg Except.ok stored)

/-- The argument vector ends right behind its last word exactly if no alias is used,
and the command has left a place for `NULL`. -/
theorem terminated_iff_unused (aliases : stack ≠ []) (expands : Expands stack (.start command) (.ok final)) :
    (final.i = final.tokens.length ∧
        Exists fun rest => final.terminate = .ok (final.tokens.map some ++ none :: rest)) ↔
      (forall pos, pos ∈ stack -> pos.name ∉ command) ∧ command.length < maxNrTokens := by
  constructor
  · rintro ⟨_, rest, terminated⟩
    have inside : ¬ final.slots ≤ final.i := by
      intro outside
      unfold Expansion.terminate at terminated
      rw [if_pos outside] at terminated
      cases terminated
    have unmet : forall pos, pos ∈ stack -> pos.name ∉ command := by
      intro pos member met
      rw [expands_met expands member met] at inside
      exact inside (expands_behind expands aliases)
    rw [expands_unmet expands aliases unmet] at inside
    exact ⟨unmet, Nat.lt_of_not_le inside⟩
  · rintro ⟨unmet, fits⟩
    rw [expands_unmet expands aliases unmet]
    exact ⟨rfl, _, terminate_start fits⟩

/-- The command `echo ll` while `ls` stands for `ls -al`. -/
theorem terminated_echo_ll : Exists fun final => Expands [⟨"ls", "ls -al"⟩] (.start ["echo", "ll"]) (.ok final) ∧
    final.i = final.tokens.length ∧
      Exists fun rest => final.terminate = .ok (final.tokens.map some ++ none :: rest) := by
  have expands : Expands [⟨"ls", "ls -al"⟩] (.start ["echo", "ll"]) (.ok ⟨2, ["echo", "ll"], 32⟩) :=
    ⟨3, by decide +kernel⟩
  refine ⟨_, expands, (terminated_iff_unused (List.cons_ne_nil _ _) expands).mpr ⟨?_, by decide⟩⟩
  intro pos member
  rw [List.mem_singleton.mp member]
  decide

/-- The command `ll` while it stands for `ls -al`: the array has two places, and
`NULL` is stored behind them. -/
theorem ll_not_terminated : Exists fun final => Expands [⟨"ll", "ls -al"⟩] (.start ["ll"]) (.ok final) ∧
    final.tokens = ["ls", "-al"] ∧ final.i = 2 ∧ final.slots = 2 ∧ final.terminate = .error .tokensOutOfBounds :=
  ⟨⟨2, ["ls", "-al"], 2⟩, ⟨3, by decide +kernel⟩, rfl, rfl, rfl, rfl⟩

end Aliases

end Shell
end OsPa
