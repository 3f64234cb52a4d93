import Mathlib.Data.List.TakeWhile

/-!
# The words of a line

A line is split at its separators, and the pieces that are not empty are its
words, which are the maximal runs of other letters.  A parser that splits in place
overwrites the separators with the terminator of strings and keeps the places at
which words start.  The lemmas here say that the strings at these places are the
words, and that joining words by a separator is undone by splitting.
-/

namespace OsPa
namespace Library

universe u

variable {Letter : Type u} {separates : Letter -> Bool} {letter separator : Letter} {line rest word : List Letter}

def words (separates : Letter -> Bool) (line : List Letter) : List (List Letter) :=
  (line.splitOnP separates).filter fun word => !word.isEmpty

/-- The letters of a word in front of the rest of a line. -/
def lead (separates : Letter -> Bool) (line : List Letter) : List Letter :=
  line.takeWhile fun letter => !separates letter

/-- What is behind the letters in front. -/
def behind (separates : Letter -> Bool) (line : List Letter) : List Letter :=
  line.dropWhile fun letter => !separates letter

theorem words_nil (separates : Letter -> Bool) : words separates [] = [] := rfl

theorem words_cons_of_separates (separator : separates letter = true) (rest : List Letter) :
    words separates (letter :: rest) = words separates rest := by
  unfold words
  rw [List.splitOnP_cons_eq_if_modifyHead, if_pos separator]
  rfl

/-- A word is followed by the other words. -/
theorem words_append_separator (nonempty : word ≠ [])
    (letters : forall letter, letter ∈ word -> separates letter = false)
    (separator : separates letter = true) (rest : List Letter) :
    words separates (word ++ letter :: rest) = word :: words separates rest := by
  unfold words
  rw [List.splitOnP_append_cons_of_forall_mem letters letter separator, List.filter_cons_of_pos]
  rw [List.isEmpty_eq_false_iff.mpr nonempty]
  rfl

theorem words_eq_singleton (nonempty : word ≠ [])
    (letters : forall letter, letter ∈ word -> separates letter = false) : words separates word = [word] := by
  unfold words
  rw [List.splitOnP_eq_singleton letters, List.filter_cons_of_pos, List.filter_nil]
  rw [List.isEmpty_eq_false_iff.mpr nonempty]
  rfl

private theorem mem_lead (member : letter ∈ lead separates line) : separates letter = false := by
  unfold lead at member
  simpa using List.mem_takeWhile_imp member

/-- What is behind the letters in front starts with a separator. -/
theorem separates_of_behind (remains : behind separates line = letter :: rest) : separates letter = true := by
  have stopped := List.head?_dropWhile_not (fun letter => !separates letter) line
  unfold behind at remains
  rw [remains] at stopped
  simpa using stopped

theorem words_drop_behind (separates : Letter -> Bool) (line : List Letter) :
    words separates ((behind separates line).drop 1) = words separates (behind separates line) := by
  cases remains : behind separates line with
  | nil => rfl
  | cons letter rest => exact (words_cons_of_separates (separates_of_behind remains) rest).symm

theorem words_cons_of_letter (isLetter : separates letter = false) (rest : List Letter) :
    words separates (letter :: rest) =
      (letter :: lead separates rest) :: words separates (behind separates rest) := by
  have letters : forall other, other ∈ letter :: lead separates rest -> separates other = false := by
    intro other member
    rcases List.mem_cons.mp member with rfl | member
    · exact isLetter
    · exact mem_lead member
  have whole : letter :: rest = (letter :: lead separates rest) ++ behind separates rest :=
    congrArg (letter :: ·) List.takeWhile_append_dropWhile.symm
  rw [whole]
  cases remains : behind separates rest with
  | nil =>
      rw [List.append_nil, words_nil]
      exact words_eq_singleton (List.cons_ne_nil _ _) letters
  | cons separator more =>
      have separator := separates_of_behind remains
      rw [words_append_separator (List.cons_ne_nil _ _) letters separator, words_cons_of_separates separator]

/-- Separators in front do not matter. -/
theorem words_dropWhile (separates : Letter -> Bool) (line : List Letter) :
    words separates (line.dropWhile separates) = words separates line := by
  induction line with
  | nil => rfl
  | cons letter rest inductionHypothesis =>
      by_cases separator : separates letter = true
      · rw [List.dropWhile_cons_of_pos separator, words_cons_of_separates separator, inductionHypothesis]
      · rw [List.dropWhile_cons_of_neg separator]

/-- Joining words by a separator is undone by splitting. -/
theorem words_intercalate (isSeparator : separates separator = true) (list : List (List Letter))
    (plain : forall word, word ∈ list -> word ≠ [] ∧ forall letter, letter ∈ word -> separates letter = false) :
    words separates ([separator].intercalate list) = list := by
  induction list with
  | nil => rfl
  | cons word more inductionHypothesis =>
      have first := plain word List.mem_cons_self
      cases more with
      | nil =>
          rw [List.intercalate_singleton]
          exact words_eq_singleton first.1 first.2
      | cons next others =>
          rw [List.intercalate_cons_cons, List.append_assoc, List.singleton_append,
            words_append_separator first.1 first.2 isSeparator,
            inductionHypothesis fun word member => plain word (List.mem_cons_of_mem _ member)]

/-- Joined words that a separator ends are followed by the other words. -/
theorem words_intercalate_append (isSeparator : separates separator = true) {last : Letter}
    (isLast : separates last = true) {list : List (List Letter)}
    (plain : forall word, word ∈ list -> word ≠ [] ∧ forall letter, letter ∈ word -> separates letter = false)
    (rest : List Letter) :
    words separates ([separator].intercalate list ++ last :: rest) = list ++ words separates rest := by
  induction list with
  | nil => exact words_cons_of_separates isLast rest
  | cons word more inductionHypothesis =>
      have first := plain word List.mem_cons_self
      cases more with
      | nil =>
          rw [List.intercalate_singleton, words_append_separator first.1 first.2 isLast]
          rfl
      | cons next others =>
          rw [List.intercalate_cons_cons, List.append_assoc, List.append_assoc, List.singleton_append,
            words_append_separator first.1 first.2 isSeparator,
            inductionHypothesis fun word member => plain word (List.mem_cons_of_mem _ member)]
          rfl

/-- Separators cannot be saved: joined words are no longer than the line they are from. -/
theorem length_intercalate_words_le (separates : Letter -> Bool) (separator : Letter) (line : List Letter) :
    ([separator].intercalate (words separates line)).length ≤ line.length := by
  induction length : line.length using Nat.strong_induction_on generalizing line with
  | h size inductionHypothesis =>
      subst length
      cases line with
      | nil => exact Nat.le_refl 0
      | cons letter rest =>
          by_cases isSeparator : separates letter = true
          · rw [words_cons_of_separates isSeparator]
            exact Nat.le_succ_of_le (inductionHypothesis rest.length (Nat.lt_succ_self _) rest rfl)
          · have whole : (lead separates rest).length + (behind separates rest).length = rest.length := by
              rw [← List.length_append]
              exact congrArg List.length List.takeWhile_append_dropWhile
            rw [words_cons_of_letter (eq_false_of_ne_true isSeparator), ← words_drop_behind]
            have later := inductionHypothesis ((behind separates rest).drop 1).length (by
              rw [List.length_drop, List.length_cons]
              omega) _ rfl
            cases remains : behind separates rest with
            | nil =>
                rw [List.drop_nil, words_nil, List.intercalate_singleton]
                rw [List.length_cons, List.length_cons]
                omega
            | cons other more =>
                rw [remains] at later whole
                rw [List.drop_succ_cons, List.drop_zero] at later ⊢
                cases others : words separates more with
                | nil =>
                    rw [List.intercalate_singleton, List.length_cons, List.length_cons]
                    omega
                | cons next words =>
                    rw [others] at later
                    rw [List.length_cons] at whole
                    rw [List.intercalate_cons_cons, List.length_append, List.length_append, List.length_singleton,
                      List.length_cons, List.length_cons]
                    omega

theorem mem_intercalate {list : List (List Letter)} (member : letter ∈ [separator].intercalate list) :
    letter = separator ∨ Exists fun word => word ∈ list ∧ letter ∈ word := by
  induction list with
  | nil => cases member
  | cons word more inductionHypothesis =>
      cases more with
      | nil =>
          rw [List.intercalate_singleton] at member
          exact Or.inr ⟨word, List.mem_cons_self, member⟩
      | cons next others =>
          rw [List.intercalate_cons_cons, List.append_assoc, List.mem_append, List.singleton_append,
            List.mem_cons] at member
          rcases member with inside | isSeparator | later
          · exact Or.inr ⟨word, List.mem_cons_self, inside⟩
          · exact Or.inl isSeparator
          · refine (inductionHypothesis later).imp_right ?_
            rintro ⟨other, isWord, inside⟩
            exact ⟨other, List.mem_cons_of_mem _ isWord, inside⟩

theorem length_intercalate_le (separator : Letter) {bound : Nat} {list : List (List Letter)}
    (short : forall word, word ∈ list -> word.length ≤ bound) :
    ([separator].intercalate list).length ≤ list.length * (bound + 1) := by
  induction list with
  | nil => exact Nat.zero_le _
  | cons word more inductionHypothesis =>
      rcases List.forall_mem_cons.mp short with ⟨first, later⟩
      have rest := inductionHypothesis later
      rw [List.length_cons, Nat.succ_mul]
      cases more with
      | nil =>
          rw [List.intercalate_singleton]
          omega
      | cons next others =>
          rw [List.intercalate_cons_cons, List.length_append, List.length_append, List.length_singleton]
          omega

/-! ## Splitting in place -/

/-- The places at which words start, in what is left of a line.  The flag says
whether the letter in front belongs to a word. -/
def starts (separates : Letter -> Bool) : Bool -> Nat -> List Letter -> List Nat
  | _, _, [] => []
  | started, place, letter :: rest =>
      if separates letter then starts separates false (place + 1) rest
      else if started then starts separates true (place + 1) rest
      else place :: starts separates true (place + 1) rest

theorem starts_cons_of_separates (separator : separates letter = true) (started : Bool) (place : Nat)
    (rest : List Letter) :
    starts separates started place (letter :: rest) = starts separates false (place + 1) rest :=
  if_pos separator

theorem starts_cons_of_letter (isLetter : separates letter = false) (started : Bool) (place : Nat)
    (rest : List Letter) :
    starts separates started place (letter :: rest) =
      (if started then [] else [place]) ++ starts separates true (place + 1) rest := by
  have unfolded : starts separates started place (letter :: rest) =
      if started then starts separates true (place + 1) rest
      else place :: starts separates true (place + 1) rest :=
    if_neg (Bool.not_eq_true _ ▸ isLetter)
  rw [unfolded]
  cases started <;> rfl

/-- The line with the terminator in the places of its separators. -/
def overwrite (separates : Letter -> Bool) (terminator : Letter) (line : List Letter) : List Letter :=
  line.map fun letter => if separates letter then terminator else letter

/-- The string at a place of a buffer. -/
def stringAt [DecidableEq Letter] (terminator : Letter) (buffer : List Letter) (place : Nat) : List Letter :=
  (buffer.drop place).takeWhile fun letter => decide (letter ≠ terminator)

section InPlace

variable [DecidableEq Letter] {terminator : Letter}

private theorem takeWhile_overwrite (terminated : terminator ∉ line) (after : List Letter) :
    (overwrite separates terminator line ++ terminator :: after).takeWhile
        (fun letter => decide (letter ≠ terminator)) =
      lead separates line := by
  unfold overwrite lead
  induction line with
  | nil => exact List.takeWhile_cons_of_neg (by simp)
  | cons letter rest inductionHypothesis =>
      rw [List.mem_cons, not_or] at terminated
      rw [List.map_cons, List.cons_append]
      cases separator : separates letter with
      | true => rw [if_pos rfl, List.takeWhile_cons_of_neg (by simp), List.takeWhile_cons_of_neg (by simp [separator])]
      | false =>
          rw [if_neg Bool.false_ne_true, List.takeWhile_cons_of_pos (by simpa using Ne.symm terminated.1),
            List.takeWhile_cons_of_pos (by simp [separator]), inductionHypothesis terminated.2]

/-- The strings at the places where words start are the words. -/
theorem map_stringAt_starts (before after : List Letter) (started : Bool) (terminated : terminator ∉ line) :
    (starts separates started before.length line).map
        (stringAt terminator (before ++ (overwrite separates terminator line ++ terminator :: after))) =
      words separates (if started then behind separates line else line) := by
  induction line generalizing before started with
  | nil => cases started <;> rfl
  | cons letter rest inductionHypothesis =>
      rw [List.mem_cons, not_or] at terminated
      have place (letter : Letter) : (before ++ [letter]).length = before.length + 1 := List.length_append
      have shift : forall written : Letter,
          before ++ (written :: overwrite separates terminator rest ++ terminator :: after) =
            (before ++ [written]) ++ (overwrite separates terminator rest ++ terminator :: after) := by
        intro written
        rw [List.append_assoc, List.singleton_append, List.cons_append]
      have further := fun written started => inductionHypothesis (before ++ [written]) started terminated.2
      have written : overwrite separates terminator (letter :: rest) =
          (if separates letter then terminator else letter) :: overwrite separates terminator rest := rfl
      rw [written, shift]
      cases separator : separates letter with
      | true =>
          rw [if_pos rfl, starts_cons_of_separates separator, ← place terminator, further, if_neg Bool.false_ne_true]
          cases started with
          | false => exact (words_cons_of_separates separator rest).symm
          | true =>
              have behind : behind separates (letter :: rest) = letter :: rest :=
                List.dropWhile_cons_of_neg (by simp [separator])
              rw [if_pos rfl, behind]
              exact (words_cons_of_separates separator rest).symm
      | false =>
          rw [if_neg Bool.false_ne_true, starts_cons_of_letter separator, List.map_append, ← place letter, further,
            if_pos rfl]
          cases started with
          | true =>
              have behind : behind separates (letter :: rest) = Library.behind separates rest :=
                List.dropWhile_cons_of_pos (by simp [separator])
              rw [if_pos rfl, if_pos rfl, behind]
              rfl
          | false =>
              have first : stringAt terminator ((before ++ [letter]) ++
                  (overwrite separates terminator rest ++ terminator :: after)) before.length =
                    letter :: lead separates rest := by
                unfold stringAt
                rw [List.append_assoc, List.drop_left, List.singleton_append,
                  List.takeWhile_cons_of_pos (by simpa using Ne.symm terminated.1), takeWhile_overwrite terminated.2]
              rw [if_neg Bool.false_ne_true, if_neg Bool.false_ne_true, words_cons_of_letter separator,
                List.map_singleton, first, List.singleton_append]

/-- There are as many places as words. -/
theorem length_starts (terminated : terminator ∉ line) :
    (starts separates false 0 line).length = (words separates line).length := by
  have strings : (starts separates false 0 line).map _ = words separates line :=
    map_stringAt_starts [] [] false terminated
  rw [← strings, List.length_map]

theorem not_mem_stringAt (buffer : List Letter) (place : Nat) : terminator ∉ stringAt terminator buffer place := by
  intro member
  unfold stringAt at member
  simpa using List.mem_takeWhile_imp member

/-- Without a terminator the string is all there is. -/
theorem stringAt_self (terminated : terminator ∉ line) : stringAt terminator line 0 = line := by
  unfold stringAt
  rw [List.drop_zero, List.takeWhile_eq_self_iff]
  exact fun letter member => decide_eq_true fun isTerminator => terminated (isTerminator ▸ member)

theorem stringAt_terminated (terminated : terminator ∉ line) (after : List Letter) :
    stringAt terminator (line ++ terminator :: after) 0 = line := by
  unfold stringAt
  rw [List.drop_zero, List.takeWhile_append_of_pos, List.takeWhile_cons_of_neg, List.append_nil]
  · simp
  · intro letter member
    exact decide_eq_true fun isTerminator => terminated (isTerminator ▸ member)

/-- A string ends where its first terminator stands. -/
theorem exists_string_append (line after : List Letter) : Exists fun behind =>
    line ++ terminator :: after = stringAt terminator line 0 ++ terminator :: behind := by
  have whole : stringAt terminator line 0 ++ line.dropWhile (fun letter => decide (letter ≠ terminator)) = line :=
    List.takeWhile_append_dropWhile
  cases remains : line.dropWhile fun letter => decide (letter ≠ terminator) with
  | nil =>
      rw [remains, List.append_nil] at whole
      exact ⟨after, by rw [whole]⟩
  | cons letter rest =>
      have stopped := List.head?_dropWhile_not (fun letter => decide (letter ≠ terminator)) line
      rw [remains] at stopped
      have first : letter = terminator := by simpa using stopped
      refine ⟨rest ++ terminator :: after, ?_⟩
      rw [remains, first] at whole
      rw [← List.cons_append, ← List.append_assoc, whole]

end InPlace

/-! ## Items in an array -/

section Items

variable {Item : Type u} {items : List Item}

/-- An array in which items have been stored one after the other from an index on. -/
def storeAll (array : Nat -> Item) (index : Nat) (items : List Item) : Nat -> Item :=
  fun i => if index ≤ i then items[i - index]?.getD (array i) else array i

theorem storeAll_nil (array : Nat -> Item) (index : Nat) : storeAll array index [] = array := by
  funext i
  unfold storeAll
  rw [List.getElem?_nil, Option.getD_none, ite_self]

/-- The first item, and then the others. -/
theorem storeAll_cons (array : Nat -> Item) (index : Nat) (item : Item) (items : List Item) :
    storeAll (Function.update array index item) (index + 1) items = storeAll array index (item :: items) := by
  funext i
  unfold storeAll
  by_cases first : i = index
  · subst i
    rw [if_neg (Nat.not_succ_le_self index), if_pos (Nat.le_refl index), Function.update_self, Nat.sub_self,
      List.getElem?_cons_zero, Option.getD_some]
  · rw [Function.update_of_ne first]
    by_cases later : index ≤ i
    · have next : i - index = i - (index + 1) + 1 := by omega
      rw [if_pos (by omega), if_pos later, next, List.getElem?_cons_succ]
    · rw [if_neg (by omega), if_neg later]

theorem storeAll_getElem (array : Nat -> Item) {i : Nat} (inside : i < items.length) :
    storeAll array 0 items i = items[i] := by
  unfold storeAll
  rw [if_pos (Nat.zero_le i), Nat.sub_zero, List.getElem?_eq_getElem inside, Option.getD_some]

/-- What has been stored is read again. -/
theorem filterMap_storeAll (array : Nat -> Option Item) (items : List Item) (last : Option Item) :
    (List.range items.length).filterMap (storeAll array 0 (items.map some ++ [last])) = items := by
  have stored : forall i (inside : i < items.length),
      storeAll array 0 (items.map some ++ [last]) i = some items[i] := by
    intro i inside
    have within : i < (items.map some).length := Nat.lt_of_lt_of_eq inside (List.length_map some).symm
    have place : i < (items.map some ++ [last]).length := by
      rw [List.length_append]
      omega
    rw [storeAll_getElem array place, List.getElem_append_left within, List.getElem_map]
  generalize storeAll array 0 (items.map some ++ [last]) = read at stored ⊢
  induction items generalizing read with
  | nil => rfl
  | cons item items inductionHypothesis =>
      have first := stored 0 (Nat.succ_pos _)
      rw [List.length_cons, List.range_succ_eq_map, List.filterMap_cons_some first, List.filterMap_map]
      exact congrArg (item :: ·) (inductionHypothesis _ fun i inside => stored (i + 1) (Nat.succ_lt_succ inside))

/-- A search by indices for the first item to stop at. -/
theorem takeWhile_eq_take_find {stops : Item -> Bool} {search : Nat -> Bool}
    (agree : forall i (inside : i < items.length), search i = stops items[i]) :
    items.takeWhile (fun item => !stops item) =
      items.take (((List.range items.length).find? search).getD items.length) := by
  rw [List.takeWhile_eq_take_findIdx_not]
  congr 1
  have stops' : (fun item => !!stops item) = stops := funext fun item => Bool.not_not (stops item)
  rw [stops']
  cases found : (List.range items.length).find? search with
  | none =>
      apply List.findIdx_eq_length_of_false
      intro item member
      rcases List.mem_iff_getElem.mp member with ⟨i, inside, rfl⟩
      have passed := List.find?_range_eq_none.mp found i inside
      rw [agree i inside] at passed
      simpa using passed
  | some i =>
      have first := List.find?_range_eq_some.mp found
      have inside := List.mem_range.mp first.2.1
      apply (List.findIdx_eq inside).mpr
      refine ⟨agree i inside ▸ first.1, fun j before => ?_⟩
      have passed := first.2.2 j before
      rw [agree j (Nat.lt_trans before inside)] at passed
      simpa using passed

end Items

end Library
end OsPa
