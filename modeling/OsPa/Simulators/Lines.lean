import OsPa.Library.Word
import OsPa.Simulators.Splitting

namespace OsPa
namespace Simulators

open Library

/-!
# Reading lines

Both simulators read their input by `fgets` into a buffer with `MAX_COMMAND_LEN`
places, so that a longer line comes in pieces.  A piece is written over the beginning
of the buffer and terminated.  What is behind is left of earlier pieces, and a `NUL`
in the input ends the string before the piece does.

The numbers of the script are read by `atoi`.  For what does not fit into an `int` its
behaviour is undefined.
-/

/-- The size of the buffer for a line. -/
def maxCommandLen : Nat := 1024

/-- What successive calls of `fgets` deliver that take at most `limit` characters each.
There is `room` for so many more in the current piece. -/
def deliver (limit : Nat) : Nat -> List Char -> List Char -> List (List Char)
  | _, piece, [] => if piece = [] then [] else [piece]
  | room, piece, letter :: rest =>
      if letter = '\n' ∨ room ≤ 1 then (piece ++ [letter]) :: deliver limit limit [] rest
      else deliver limit (room - 1) (piece ++ [letter]) rest

/-- The pieces of a file. -/
def fgets (file : List Char) : List (List Char) := deliver (maxCommandLen - 1) (maxCommandLen - 1) [] file

/-- The buffer after a piece has been delivered. -/
def store (piece buffer : List Char) : List Char := piece ++ nul :: buffer.drop (piece.length + 1)

/-- The library function `isdigit`. -/
def isdigit (letter : Char) : Bool := '0' ≤ letter && letter ≤ '9'

/-- The value of the digits in front. -/
def decimal (text : List Char) : Nat :=
  (text.takeWhile isdigit).foldl (fun value digit => 10 * value + (digit.toNat - '0'.toNat)) 0

/-- The library function `atoi`, while the value is an `int`. -/
def atoi (text : List Char) : Option Int :=
  let value : Int :=
    match text.dropWhile isspace with
    | '-' :: digits => - decimal digits
    | '+' :: digits => decimal digits
    | digits => decimal digits
  if -2147483648 ≤ value ∧ value ≤ 2147483647 then some value else none

/-- An `int` that is stored to an `unsigned int`. -/
def unsigned (value : Int) : Nat := (value % Word.size).toNat

/-- `strmatch` compares the lengths and then the letters up to the length of what is
expected. -/
def strmatch (str expect : List Char) : Bool :=
  str.length == expect.length && str.take expect.length == expect.take expect.length

/-- Nothing can be read through a token that is `NULL`. -/
def Parsed.texts (parsed : Parsed) : Option (List (List Char)) := parsed.strings.mapM id

/-! ## What is read of a piece -/

section Read

variable {piece after : List Char}

theorem strmatch_iff {str expect : List Char} : strmatch str expect = true ↔ str = expect := by
  unfold strmatch
  rw [Bool.and_eq_true, beq_iff_eq, beq_iff_eq, List.take_length]
  constructor
  · rintro ⟨length, letters⟩
    rwa [← length, List.take_length] at letters
  · rintro rfl
    exact ⟨rfl, List.take_length⟩

/-- The words of a piece, which the first `NUL` ends. -/
def pieceWords (piece : List Char) : List (List Char) := words isspace (stringAt nul piece 0)

/-- The words that are left when comments are removed. -/
def pieceTokens (piece : List Char) : List (List Char) := uncommented (stringAt nul piece 0)

private theorem texts_of_strings {parsed : Parsed} {tokens : List (List Char)}
    (strings : parsed.strings = tokens.map some) : parsed.texts = some tokens := by
  unfold Parsed.texts
  rw [strings]
  clear strings
  induction tokens with
  | nil => rfl
  | cons token tokens inductionHypothesis =>
      rw [List.map_cons, List.mapM_cons, inductionHypothesis]
      rfl

/-- The pointers that the first loop stores point to the words. -/
theorem points_start (line after : List Char) (terminated : nul ∉ line) :
    Exists fun parsed : Parsed => parsed = ⟨overwrite isspace nul line ++ nul :: after,
        storeAll (fun _ => none) 0 ((starts isspace false 0 line).map some), (words isspace line).length⟩ ∧
      parsed.removeComments.texts = some (uncommented line) := by
  refine ⟨_, rfl, texts_of_strings ?_⟩
  have points : Parsed.Points ⟨overwrite isspace nul line ++ nul :: after,
      storeAll (fun _ => none) 0 ((starts isspace false 0 line).map some), (words isspace line).length⟩
        (starts isspace false 0 line) := by
    refine ⟨(length_starts terminated).symm, fun i inside => ?_⟩
    have place := storeAll_getElem (fun _ => none) (List.length_map some ▸ inside)
    rw [List.getElem_map, ← List.getElem?_eq_getElem inside] at place
    exact place
  have strings : (starts isspace false 0 line).map (stringAt nul (overwrite isspace nul line ++ nul :: after)) =
    words isspace line := map_stringAt_starts [] after false terminated
  rw [points.removeComments, strings]
  rfl

/-- Whatever is behind it, a piece is split into its tokens, unless there are too many
words. -/
theorem parseCommand_piece (piece after : List Char) :
    (maxNrTokens < (pieceWords piece).length ∧
      parseCommand (piece ++ nul :: after) (fun _ => none) = .error .tokensOutOfBounds) ∨
    ((pieceWords piece).length ≤ maxNrTokens ∧ Exists fun parsed =>
      parseCommand (piece ++ nul :: after) (fun _ => none) = .ok parsed ∧ parsed.texts = some (pieceTokens piece)) := by
  have string : Exists fun behind => piece ++ nul :: after = stringAt nul piece 0 ++ nul :: behind :=
    exists_string_append piece after
  rcases string with ⟨behind, split⟩
  have terminated : nul ∉ stringAt nul piece 0 := not_mem_stringAt piece 0
  unfold parseCommand
  rw [split, loop_start terminated]
  by_cases few : (pieceWords piece).length ≤ maxNrTokens
  · rcases points_start (stringAt nul piece 0) behind terminated with ⟨parsed, isParsed, texts⟩
    have few' : (words isspace (stringAt nul piece 0)).length ≤ maxNrTokens := few
    rw [if_pos few', ← isParsed]
    exact Or.inr ⟨few, parsed.removeComments, rfl, texts⟩
  · have many : ¬ (words isspace (stringAt nul piece 0)).length ≤ maxNrTokens := few
    rw [if_neg many]
    exact Or.inl ⟨Nat.lt_of_not_le few, rfl⟩

end Read

end Simulators
end OsPa
