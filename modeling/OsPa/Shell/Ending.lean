import OsPa.Library.Rewriting
import OsPa.Shell.Translation

namespace OsPa
namespace Shell

open Library

/-!
# The end of the expansion

Each round of the loop over the tokens moves the index on by one, and a
replacement makes the tokens more by the words of the alias but one.  The index
only falls behind for good where the words that it has still to pass have the name
among them.
-/

section Faults

variable {pos : AliasEntry} {stack : List AliasEntry} {e : Expansion} {fault : Fault}

private theorem long_of_round_fault (faulty : Expansion.round pos e = .inr (.error fault)) :
    maxNrTokens ≤ pos.rule.words.length := by
  unfold Expansion.round at faulty
  split at faulty
  case h_1 => cases faulty
  case h_2 token current =>
      split at faulty
      case isTrue same =>
          by_cases long : maxNrTokens ≤ (parseCommand pos.command).length
          · exact long
          · rw [if_neg long] at faulty
            cases faulty
      case isFalse => cases faulty

/-- Only an alias with too many words is behind a fault. -/
private theorem long_of_expands_fault (expands : Expands stack e (.error fault)) :
    Exists fun pos => pos ∈ stack ∧ maxNrTokens ≤ pos.rule.words.length := by
  rcases expands with ⟨fuel, ended⟩
  induction stack generalizing e with
  | nil => cases ended
  | cons pos stack inductionHypothesis =>
      unfold expandAliases at ended
      split at ended
      case h_1 => cases ended
      case h_2 first =>
          have left : Ends (Expansion.round pos) { e with i := 0 } (.error _) := ⟨fuel, first⟩
          rcases left.last (fun _ => True) (fun _ _ _ _ => trivial) trivial with ⟨last, _, faulty⟩
          exact ⟨pos, List.mem_cons_self, long_of_round_fault faulty⟩
      case h_3 middle first =>
          rcases inductionHypothesis ended with ⟨other, member, long⟩
          exact ⟨other, List.mem_cons_of_mem pos member, long⟩

end Faults

section Contained

variable {stack : List AliasEntry} {command : List String} {final : Expansion}

theorem contained_of_expands (expands : Expands stack (.start command) (.ok final)) :
    Contained maxNrTokens (stack.map AliasEntry.rule) command := by
  have start : (Expansion.start command).tokens = (originals command).map Token.word := (map_originals command).symm
  rcases walks_of_expands expands start with ⟨after, again, walks, _⟩
  have contained := walks_iff_contained.mp ⟨after, again, walks⟩
  rw [map_originals] at contained
  exact contained

private theorem expands_of_contained (contained : Contained maxNrTokens (stack.map AliasEntry.rule) command) :
    Exists fun final => Expands stack (.start command) (.ok final) := by
  have start : (Expansion.start command).tokens = (originals command).map Token.word := (map_originals command).symm
  rw [← map_originals command] at contained
  rcases walks_iff_contained.mpr contained with ⟨after, again, walks⟩
  rcases expands_of_walks walks start with ⟨final, expands, _⟩
  exact ⟨final, expands⟩

end Contained

/-- The expansion of a command comes to an end exactly if each alias whose name it
meets is contained. -/
theorem expansion_ends_iff (stack : List AliasEntry) (command : List String) :
    (Exists fun final => Expands stack (.start command) (.ok final)) ↔
      Contained maxNrTokens (stack.map AliasEntry.rule) command := by
  constructor
  · rintro ⟨final, expands⟩
    exact contained_of_expands expands
  · exact expands_of_contained

/-- The alias `say` for `echo say`. -/
theorem say_endless : Exists fun stack => addAlias [] "say" ["echo", "say"] = .ok stack ∧
    ¬ Exists fun result => Expands stack (.start ["say"]) result := by
  have rules : [⟨"say", "echo say"⟩].map AliasEntry.rule = [⟨"say", ["echo", "say"]⟩] := by decide +kernel
  refine ⟨[⟨"say", "echo say"⟩], by decide +kernel, ?_⟩
  rintro ⟨result, expands⟩
  cases result with
  | error fault =>
      rcases long_of_expands_fault expands with ⟨pos, member, long⟩
      have short : pos.rule ∈ [⟨"say", "echo say"⟩].map AliasEntry.rule := List.mem_map_of_mem member
      rw [rules, List.mem_singleton] at short
      rw [short] at long
      exact absurd long (by decide)
  | ok final =>
      have contained := contained_of_expands expands
      rw [rules] at contained
      exact (contained.1 (by decide)).1 (by decide)

end Shell
end OsPa
