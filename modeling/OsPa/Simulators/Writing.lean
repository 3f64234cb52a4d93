import OsPa.Simulators.Lines

namespace OsPa
namespace Simulators

open Library

/-!
# Writing lines

How a text is written that the simulators read as intended: tokens with a blank
between them, lines with a newline at their end, and numbers in decimal notation.  An
`unsigned int` that is larger than an `int` is written as a negative number.
-/

/-- A number in decimal notation. -/
def numeral (value : Nat) : List Char := Nat.toDigits 10 value

/-- The largest `int`. -/
def intMax : Nat := 2147483647

/-- A number that is read into an `unsigned int` by way of an `int`. -/
def spelling (value : Nat) : List Char :=
  if value ≤ intMax then numeral value else '-' :: numeral (Word.size - value)

/-- A line with the tokens. -/
def writeLine (tokens : List (List Char)) : List Char := [' '].intercalate tokens ++ ['\n']

/-- A text with a line for each list of tokens. -/
def writeLines (lines : List (List (List Char))) : List Char := (lines.map writeLine).flatten

/-- The token is read as it has been written. -/
structure Plain (token : List Char) : Prop where
  nonempty : token ≠ []
  letters : forall letter, letter ∈ token -> isspace letter = false ∧ letter ≠ nul
  noComment : token.head? ≠ some '#'

/-- The test for a token that is read as it has been written. -/
def isPlain (token : List Char) : Bool :=
  !token.isEmpty && token.all (fun letter => !isspace letter && letter != nul) && token.head? != some '#'

theorem plain_of_isPlain {token : List Char} (test : isPlain token = true) : Plain token := by
  unfold isPlain at test
  rw [Bool.and_eq_true, Bool.and_eq_true, List.all_eq_true, Bool.not_eq_true', List.isEmpty_eq_false_iff] at test
  refine ⟨test.1.1, fun letter member => ?_, bne_iff_ne.mp test.2⟩
  have letters := test.1.2 letter member
  rw [Bool.and_eq_true, Bool.not_eq_true'] at letters
  exact ⟨letters.1, bne_iff_ne.mp letters.2⟩

/-! ## Numbers -/

section Numbers

variable {value : Nat} {letter : Char}

theorem isdigit_of_mem_numeral (member : letter ∈ numeral value) : isdigit letter = true := by
  have digit := Nat.isDigit_of_mem_toDigits (by decide) (by decide) member
  exact digit

/-- A digit is neither a space nor a sign, and it does not start a comment. -/
theorem ne_of_isdigit (digit : isdigit letter = true) :
    isspace letter = false ∧ letter ≠ nul ∧ letter ≠ '#' ∧ letter ≠ '-' ∧ letter ≠ '+' := by
  have differs : forall other : Char, isdigit other = false -> letter ≠ other := by
    rintro other noDigit rfl
    rw [digit] at noDigit
    exact Bool.noConfusion noDigit
  refine ⟨?_, differs _ (by decide), differs _ (by decide), differs _ (by decide), differs _ (by decide)⟩
  unfold isspace
  rw [decide_eq_false_iff_not]
  intro member
  simp only [List.mem_cons, List.not_mem_nil, or_false] at member
  rcases member with rfl | rfl | rfl | rfl | rfl | rfl <;> exact Bool.noConfusion digit

private theorem numeral_ne_nil (value : Nat) : numeral value ≠ [] := Nat.toDigits_ne_nil

theorem plain_numeral (value : Nat) : Plain (numeral value) where
  nonempty := numeral_ne_nil value
  letters letter member := by
    have differs := ne_of_isdigit (isdigit_of_mem_numeral member)
    exact ⟨differs.1, differs.2.1⟩
  noComment comment := by
    have member : '#' ∈ numeral value := List.mem_of_head? comment
    exact (ne_of_isdigit (isdigit_of_mem_numeral member)).2.2.1 rfl

theorem decimal_numeral (value : Nat) : decimal (numeral value) = value := by
  unfold decimal
  rw [List.takeWhile_eq_self_iff.mpr fun letter => isdigit_of_mem_numeral]
  exact Nat.ofDigitChars_toDigits (by decide) (by decide)

private theorem atoi_numeral (fits : value ≤ intMax) : atoi (numeral value) = some (value : Int) := by
  have noSpace : (numeral value).dropWhile isspace = numeral value := by
    cases isNumeral : numeral value with
    | nil => rfl
    | cons letter rest =>
        have member : letter ∈ numeral value := isNumeral ▸ List.mem_cons_self
        refine List.dropWhile_cons_of_neg ?_
        rw [(ne_of_isdigit (isdigit_of_mem_numeral member)).1]
        exact Bool.false_ne_true
  have isNumber := decimal_numeral value
  have inside : -2147483648 ≤ (value : Int) ∧ (value : Int) ≤ 2147483647 := by
    unfold intMax at fits
    omega
  unfold atoi
  rw [noSpace]
  dsimp only
  split
  next digits starts =>
    have member : '-' ∈ numeral value := starts ▸ List.mem_cons_self
    exact absurd rfl (ne_of_isdigit (isdigit_of_mem_numeral member)).2.2.2.1
  next digits starts =>
    have member : '+' ∈ numeral value := starts ▸ List.mem_cons_self
    exact absurd rfl (ne_of_isdigit (isdigit_of_mem_numeral member)).2.2.2.2
  next => rw [isNumber, if_pos inside]

private theorem atoi_negative (fits : value ≤ intMax + 1) : atoi ('-' :: numeral value) = some (- (value : Int)) := by
  have inside : -2147483648 ≤ - (value : Int) ∧ - (value : Int) ≤ 2147483647 := by
    unfold intMax at fits
    omega
  have noSpace : ('-' :: numeral value).dropWhile isspace = '-' :: numeral value :=
    List.dropWhile_cons_of_neg (by decide)
  have isNumber : ((decimal (numeral value) : Nat) : Int) = value := congrArg _ (decimal_numeral value)
  rw [← isNumber] at inside ⊢
  unfold atoi
  rw [noSpace]
  exact if_pos inside

/-- What has been written is read again. -/
theorem atoi_spelling (isWord : value < Word.size) :
    Exists fun number => atoi (spelling value) = some number ∧ unsigned number = value := by
  have size : Word.size = 4294967296 := rfl
  unfold spelling unsigned
  rw [size] at isWord ⊢
  by_cases fits : value ≤ intMax
  · rw [if_pos fits]
    exact ⟨value, atoi_numeral fits, by omega⟩
  · rw [if_neg fits]
    unfold intMax at fits
    have fits' : 4294967296 - value ≤ intMax + 1 := by
      unfold intMax
      omega
    exact ⟨_, atoi_negative fits', by omega⟩

theorem plain_spelling (value : Nat) : Plain (spelling value) := by
  unfold spelling
  split
  · exact plain_numeral value
  · have plain := plain_numeral (Word.size - value)
    refine ⟨List.cons_ne_nil _ _, List.forall_mem_cons.mpr ⟨by decide, plain.letters⟩, ?_⟩
    rw [List.head?_cons]
    decide

theorem length_numeral_le (fits : value < Word.size) : (numeral value).length ≤ 10 :=
  (Nat.length_toDigits_le_iff (by decide) (by decide)).mpr (Nat.lt_trans fits (by decide))

theorem length_spelling_le (isWord : value < Word.size) : (spelling value).length ≤ 11 := by
  unfold spelling
  split
  · exact Nat.le_succ_of_le (length_numeral_le isWord)
  · refine Nat.succ_le_succ (length_numeral_le ?_)
    unfold intMax at *
    omega

end Numbers

/-! ## Lines -/

section Lines

variable {line piece rest : List Char} {tokens : List (List Char)} {lines : List (List (List Char))}

/-- No piece is longer than the limit. -/
theorem length_of_mem_deliver {limit room : Nat} (positive : 1 ≤ room) (fits : piece.length + room ≤ limit)
    (member : line ∈ deliver limit room piece rest) : line.length ≤ limit := by
  induction rest generalizing room piece with
  | nil =>
      rw [deliver] at member
      split at member
      · exact absurd member List.not_mem_nil
      · rw [List.mem_singleton.mp member]
        omega
  | cons letter rest inductionHypothesis =>
      rw [deliver] at member
      split at member
      next =>
        rcases List.mem_cons.mp member with rfl | later
        · rw [List.length_append, List.length_singleton]
          omega
        · refine inductionHypothesis (by omega) ?_ later
          rw [List.length_nil]
          omega
      next goesOn =>
        rw [not_or] at goesOn
        refine inductionHypothesis (by omega) ?_ member
        rw [List.length_append, List.length_singleton]
        omega

/-- A line that fits is delivered in one piece. -/
theorem deliver_line (limit : Nat) {room : Nat} (noNewline : '\n' ∉ line) (fits : line.length < room) :
    deliver limit room piece (line ++ '\n' :: rest) = (piece ++ line ++ ['\n']) :: deliver limit limit [] rest := by
  induction line generalizing room piece with
  | nil =>
      rw [List.append_nil]
      exact if_pos (Or.inl rfl)
  | cons letter line inductionHypothesis =>
      rw [List.mem_cons, not_or] at noNewline
      rw [List.length_cons] at fits
      have goesOn : ¬ (letter = '\n' ∨ room ≤ 1) := by
        rintro (isNewline | small)
        · exact noNewline.1 isNewline.symm
        · omega
      rw [List.cons_append, deliver, if_neg goesOn, inductionHypothesis noNewline.2 (by omega), List.append_assoc,
        List.append_assoc, List.append_assoc, List.singleton_append]
      rfl

/-- Lines that fit are delivered one by one. -/
theorem deliver_lines (limit : Nat) {lines : List (List Char)} (fits : forall line, line ∈ lines ->
      Exists fun text => line = text ++ ['\n'] ∧ '\n' ∉ text ∧ text.length < limit) :
    deliver limit limit [] lines.flatten = lines := by
  induction lines with
  | nil => rfl
  | cons line lines inductionHypothesis =>
      rcases List.forall_mem_cons.mp fits with ⟨⟨text, rfl, noNewline, short⟩, later⟩
      rw [List.flatten_cons, List.append_assoc, List.singleton_append, deliver_line _ noNewline short,
        List.nil_append]
      exact congrArg _ (inductionHypothesis later)

/-- The tokens make up a line that is read as it has been written. -/
structure Writable (tokens : List (List Char)) : Prop where
  nonempty : tokens ≠ []
  plain : forall token, token ∈ tokens -> Plain token
  few : tokens.length ≤ maxNrTokens
  short : ([' '].intercalate tokens).length < maxCommandLen - 1

namespace Writable

variable (writable : Writable tokens)

include writable

theorem not_mem {letter : Char} (isOther : letter ≠ ' ') (stops : isspace letter = true ∨ letter = nul) :
    letter ∉ [' '].intercalate tokens := by
  intro member
  rcases mem_intercalate member with isBlank | ⟨token, isToken, inside⟩
  · exact isOther isBlank
  · have letters := (writable.plain token isToken).letters letter inside
    rcases stops with space | isNul
    · rw [letters.1] at space
      cases space
    · exact letters.2 isNul

theorem stringAt_writeLine : stringAt nul (writeLine tokens) 0 = writeLine tokens := by
  refine stringAt_self fun member => ?_
  rcases List.mem_append.mp member with inside | isNewline
  · exact writable.not_mem (by decide) (Or.inr rfl) inside
  · exact absurd (List.mem_singleton.mp isNewline) (by decide)

theorem pieceWords_writeLine : pieceWords (writeLine tokens) = tokens := by
  unfold pieceWords
  rw [writable.stringAt_writeLine]
  have joined : words isspace ([' '].intercalate tokens ++ '\n' :: []) = tokens ++ words isspace [] := by
    refine words_intercalate_append (by decide) (by decide) (fun token isToken => ?_) []
    have plain := writable.plain token isToken
    exact ⟨plain.nonempty, fun letter inside => (plain.letters letter inside).1⟩
  rw [words_nil, List.append_nil] at joined
  exact joined

theorem pieceTokens_writeLine : pieceTokens (writeLine tokens) = tokens := by
  have isWords : pieceTokens (writeLine tokens) =
      (pieceWords (writeLine tokens)).takeWhile fun word => !(word.head? == some '#') := rfl
  rw [isWords, writable.pieceWords_writeLine, List.takeWhile_eq_self_iff]
  intro token isToken
  rw [Bool.not_eq_true', beq_eq_false_iff_ne]
  exact (writable.plain token isToken).noComment

end Writable

theorem fgets_writeLines (writable : forall tokens, tokens ∈ lines -> Writable tokens) :
    fgets (writeLines lines) = lines.map writeLine := by
  refine deliver_lines _ fun line member => ?_
  rcases List.mem_map.mp member with ⟨tokens, isLine, rfl⟩
  have fits := writable tokens isLine
  exact ⟨_, rfl, fits.not_mem (by decide) (Or.inl (by decide)), fits.short⟩

end Lines

end Simulators
end OsPa
