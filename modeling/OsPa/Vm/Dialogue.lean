import OsPa.Simulators.Writing
import OsPa.Vm.Console
import OsPa.Vm.WellFormed

namespace OsPa
namespace Vm

open Library Simulators Framework

/-!
# Texts and commands

What the console does on a text is what the command loop does on the commands in it,
and each sequence of commands can be typed.
-/

/-- The string in a piece, in lowercase. -/
def lowered (piece : List Char) : List Char := (stringAt nul piece 0).map tolower

/-- The tokens of a piece that are dispatched on. -/
def lineTokens (piece : List Char) : List (List Char) := pieceTokens (lowered piece)

/-! ## One piece -/

section Piece

variable {heap : Heap} {printTlbResult verbose : Bool} {piece : List Char} {letter : Char}

private theorem tolower_of_not_upper (notUpper : ¬ ('A' ≤ letter ∧ letter ≤ 'Z')) : tolower letter = letter :=
  if_neg notUpper

/-- Whatever is behind it, the string is made lowercase and stays terminated. -/
theorem makeLowercase_store (piece buffer : List Char) : Exists fun behind =>
    makeLowercase (store piece buffer) = lowered piece ++ nul :: behind := by
  have split : Exists fun behind => store piece buffer = stringAt nul piece 0 ++ nul :: behind :=
    exists_string_append piece _
  rcases split with ⟨behind, split⟩
  have terminated : nul ∉ stringAt nul piece 0 := not_mem_stringAt piece 0
  refine ⟨behind, ?_⟩
  unfold makeLowercase
  rw [split, stringAt_terminated terminated, List.drop_left]
  rfl

private theorem round_of_many (console : Console) (many : maxNrTokens < (pieceWords (lowered piece)).length) :
    console.round heap printTlbResult verbose piece = .error (.parser .tokensOutOfBounds) := by
  rcases makeLowercase_store piece console.command with ⟨behind, lowercase⟩
  unfold Console.round
  rw [lowercase]
  rcases parseCommand_piece (lowered piece) behind with ⟨_, faults⟩ | ⟨few, _⟩
  · rw [faults]
  · exact absurd many (Nat.not_lt.mpr few)

/-- What is left in the buffer does not matter. -/
theorem round_of_few (heap : Heap) (printTlbResult verbose : Bool) (console : Console)
    (few : (pieceWords (lowered piece)).length ≤ maxNrTokens) :
    Exists fun command => console.round heap printTlbResult verbose piece =
      (reply heap printTlbResult verbose (lineTokens piece) console.state).map (Prod.map id (Console.mk command)) := by
  rcases makeLowercase_store piece console.command with ⟨behind, lowercase⟩
  rcases parseCommand_piece (lowered piece) behind with ⟨many, _⟩ | ⟨_, parsed, succeeds, texts⟩
  · exact absurd many (Nat.not_lt.mpr few)
  · refine ⟨parsed.command, ?_⟩
    unfold Console.round
    rw [lowercase, succeeds]
    dsimp only
    rw [texts]
    rfl

/-- The answer to a line of which the loop knows what it asks for. -/
theorem reply_of_request {tokens : List (List Char)} {request : Request} (asked : Vm.request tokens = some request)
    (state : State) : reply heap printTlbResult verbose tokens state =
      (answer heap printTlbResult verbose state request).map fun made => (respond verbose made.1 made.2, made.2) := by
  unfold reply
  rw [asked]
  dsimp only
  cases answer heap printTlbResult verbose state request <;> rfl

theorem answer_command (input : Command) (state : State) :
    answer heap printTlbResult verbose state (.command input) =
      ((command heap printTlbResult input state).mapError ConsoleFault.command).map (Prod.map Output.event id) := by
  unfold answer
  dsimp only
  cases command heap printTlbResult input state <;> rfl

end Piece

/-! ## From texts to commands -/

/-- The command in a line, unless the line asks for something else. -/
def Request.command? : Request -> Option Command
  | .command input => some input
  | _ => none

def commandIn (piece : List Char) : Option Command := (request (lineTokens piece)).bind Request.command?

def Output.event? : Output -> Option Event
  | .event reported => some reported
  | _ => none

def Response.event? (response : Response) : Option Event := response.output.event?

section Texts

variable {heap : Heap} {printTlbResult verbose : Bool} {piece : List Char} {pieces : List (List Char)}
  {start next final : Console} {response : Response} {responses : List Response}

/-- What a line does that is answered: a command runs, or nothing happens. -/
inductive Answered (heap : Heap) (printTlbResult : Bool) (start next : State) (response : Response) :
    Option Command -> Prop
  | command {input : Command} {event : Event} (ran : command heap printTlbResult input start = .ok (event, next))
      (reported : response.output = .event event) : Answered heap printTlbResult start next response (some input)
  | other (same : next = start) (silent : response.event? = none) :
      Answered heap printTlbResult start next response none

private theorem answered_of_round (ran : start.round heap printTlbResult verbose piece = .ok (response, next)) :
    Answered heap printTlbResult start.state next.state response (commandIn piece) := by
  have few : (pieceWords (lowered piece)).length ≤ maxNrTokens := by
    by_contra many
    rw [round_of_many start (Nat.lt_of_not_le many)] at ran
    cases ran
  rcases round_of_few heap printTlbResult verbose start few with ⟨buffer, round⟩
  rw [round] at ran
  unfold commandIn
  cases asked : request (lineTokens piece) with
  | none =>
      unfold reply at ran
      rw [asked] at ran
      cases ran
  | some request =>
      rw [reply_of_request asked] at ran
      cases request with
      | command input =>
          rw [answer_command] at ran
          cases stepped : command heap printTlbResult input start.state with
          | error fault =>
              rw [stepped] at ran
              cases ran
          | ok result =>
              rw [stepped] at ran
              cases ran
              exact .command stepped rfl
      | _ =>
          cases ran
          exact .other rfl rfl

/-- What the console does on a text, the command loop does on the commands in the part
that is read. -/
theorem console_runs_commands (ran : (console heap printTlbResult verbose).run pieces start = .ok (responses, final)) :
    (simulator heap printTlbResult).run ((pieces.take responses.length).filterMap commandIn) start.state =
      .ok (responses.filterMap Response.event?, final.state) := by
  induction pieces generalizing start responses with
  | nil =>
      cases ran
      rfl
  | cons piece pieces inductionHypothesis =>
      rcases (console heap printTlbResult verbose).run_cons_ok ran with
        ⟨response, next, stepped, ⟨_, rfl, rfl⟩ | ⟨goesOn, rest, ran', rfl⟩⟩
      · rw [List.length_singleton, List.take_succ_cons, List.take_zero]
        have answered := answered_of_round stepped
        generalize isCommand : commandIn piece = found at answered
        cases answered with
        | command stepped reported =>
            have isEvent : response.event? = some _ := congrArg Output.event? reported
            rw [List.filterMap_cons_some isCommand, List.filterMap_cons_some isEvent, List.filterMap_nil,
              List.filterMap_nil, Machine.run_single]
            exact congrArg (Except.map _) stepped
        | other same silent =>
            rw [List.filterMap_cons_none isCommand, List.filterMap_cons_none silent, ← same]
            rfl
      · have later := inductionHypothesis ran'
        have answered := answered_of_round stepped
        rw [List.length_cons, List.take_succ_cons]
        generalize isCommand : commandIn piece = found at answered
        cases answered with
        | command stepped reported =>
            have continues : Output.stops response.output = false := goesOn
            rw [reported] at continues
            have isEvent : response.event? = some _ := congrArg Output.event? reported
            rw [List.filterMap_cons_some isCommand, List.filterMap_cons_some isEvent,
              (simulator heap printTlbResult).run_cons _ stepped continues, later]
            rfl
        | other same silent =>
            rw [List.filterMap_cons_none isCommand, List.filterMap_cons_none silent, ← same]
            exact later

/-- A page is allocated and asked for, and what is behind `exit` is not read. -/
def fourLines : List (List Char) :=
  [['A', ' ', '0', 'X', '3', ' ', 'R', 'W', '\n'], ['s', 'h', 'o', 'w', '\n'], ['e', 'x', 'i', 't', ' ', '#', '\n'],
    ['f', ' ', '3', '\n']]

theorem console_runs_commands_four : Exists fun responses => Exists fun final =>
    (console Heap.zeroed false false).run fourLines ⟨[], initSystem⟩ = .ok (responses, final) ∧
      (simulator Heap.zeroed false).run ((fourLines.take responses.length).filterMap commandIn) initSystem =
        .ok (responses.filterMap Response.event?, final.state) := by
  have ran : Exists fun responses => Exists fun final =>
      (console Heap.zeroed false false).run fourLines ⟨[], initSystem⟩ = .ok (responses, final) := ⟨_, _, rfl⟩
  rcases ran with ⟨responses, final, ran⟩
  exact ⟨responses, final, ran, console_runs_commands ran⟩

end Texts
/-! ## From commands to texts -/

/-- A permission string in short. -/
def permission (rw : List Char) : List Char := if makeRwflag rw = 3 then ['w'] else ['r']

namespace Command

/-- The line that is typed for a command. -/
def tokens : Command -> List (List Char)
  | switch pid => [Keyword.switch, numeral pid]
  | free vpn => [Keyword.free, numeral vpn]
  | read vpn => [Keyword.read, numeral vpn]
  | write vpn => [Keyword.write, numeral vpn]
  | alloc vpn rw => [Keyword.alloc, numeral vpn, permission rw]
  | access vpn rw => [Keyword.access, numeral vpn, permission rw]

/-- The number in a command. -/
def number : Command -> Nat
  | switch pid => pid
  | free vpn | read vpn | write vpn | alloc vpn _ | access vpn _ => vpn

/-- The command that is read for the line. -/
def typed : Command -> Command
  | alloc vpn rw => alloc vpn (permission rw)
  | access vpn rw => access vpn (permission rw)
  | input => input

end Command

def typeCommands (commands : List Command) : List Char := writeLines (commands.map Command.tokens)

section Numbers

variable {value : Nat}

private theorem magnitude_numeral (value : Nat) : magnitude 10 (numeral value) = value := by
  have digit : forall letter, letter ∈ numeral value ->
      digitValue letter = letter.toNat - '0'.toNat ∧ digitValue letter < 10 := by
    intro letter member
    have isDigit := isdigit_of_mem_numeral member
    unfold isdigit at isDigit
    rw [Bool.and_eq_true, decide_eq_true_eq, decide_eq_true_eq] at isDigit
    have isValue : digitValue letter = letter.toNat - '0'.toNat := if_pos isDigit
    have low : letter.toNat ≤ 57 := isDigit.2
    rw [isValue]
    refine ⟨rfl, ?_⟩
    have zero : '0'.toNat = 48 := rfl
    omega
  unfold magnitude
  rw [List.takeWhile_eq_self_iff.mpr fun letter member => decide_eq_true (digit letter member).2,
    List.foldl_ext _ (fun value digit => 10 * value + (digit.toNat - '0'.toNat)) 0 fun value letter member => by
      rw [(digit letter member).1]]
  exact Nat.ofDigitChars_toDigits (by decide) (by decide)

/-- Only the numeral of zero starts with a zero. -/
private theorem head_numeral (positive : 0 < value) : (numeral value).head? ≠ some '0' := by
  unfold numeral
  induction value using Nat.strong_induction_on with
  | h value inductionHypothesis =>
      by_cases small : value < 10
      · have digits : forall digit, digit < 10 -> 0 < digit -> Nat.digitChar digit ≠ '0' := by decide
        rw [Nat.toDigits_of_lt_base small, List.head?_cons]
        exact fun same => digits value small positive (Option.some.inj same)
      · rw [Nat.toDigits_of_base_le (by decide) (Nat.le_of_not_lt small),
          List.head?_append_of_ne_nil _ Nat.toDigits_ne_nil]
        exact inductionHypothesis (value / 10) (by omega) (by omega)

private theorem prefixed_numeral (value : Nat) : prefixed (numeral value) = value := by
  rcases Nat.eq_zero_or_pos value with rfl | positive
  · rfl
  · have isNumber := magnitude_numeral value
    have noZero := head_numeral positive
    generalize numeral value = digits at isNumber noZero
    rw [← isNumber]
    unfold prefixed
    split
    · exact absurd rfl noZero
    · exact absurd rfl noZero
    · exact absurd rfl noZero
    · rfl

private theorem argument_numeral (isWord : value < Word.size) : argument (numeral value) = value := by
  have size : Word.size = 4294967296 := rfl
  rw [size] at isWord
  have isNumber := prefixed_numeral value
  have digits : forall letter, letter ∈ numeral value -> isdigit letter = true := fun _ => isdigit_of_mem_numeral
  have read : strtoimax (numeral value) = value := by
    generalize numeral value = text at isNumber digits
    have noSpace : text.dropWhile isspace = text := by
      cases text with
      | nil => rfl
      | cons letter rest =>
          refine List.dropWhile_cons_of_neg ?_
          rw [(ne_of_isdigit (digits letter List.mem_cons_self)).1]
          exact Bool.false_ne_true
    unfold strtoimax
    rw [noSpace]
    split
    next => exact absurd (digits '-' List.mem_cons_self) (by decide)
    next => exact absurd (digits '+' List.mem_cons_self) (by decide)
    next =>
      rw [isNumber]
      omega
  unfold argument unsigned
  rw [read, size]
  omega

end Numbers

section Typed

variable {heap : Heap} {printTlbResult verbose : Bool} {input : Command} {commands : List Command}
  {tokens : List (List Char)} {token : List Char}

/-- Writing a token in lowercase does not change it. -/
def Lowercase (token : List Char) : Prop := forall letter, letter ∈ token -> tolower letter = letter

/-- The tokens that stand for words. -/
def keywords : List (List Char) :=
  [Keyword.switch, Keyword.free, Keyword.read, Keyword.write, Keyword.alloc, Keyword.access, ['r'], ['w']]

private theorem plain_keyword (member : token ∈ keywords) : Plain token ∧ Lowercase token ∧ token.length ≤ 10 := by
  have general : forall token, token ∈ keywords ->
      isPlain token = true ∧ token.all (fun letter => tolower letter == letter) = true ∧ token.length ≤ 10 := by decide
  rcases general token member with ⟨plain, lowercase, short⟩
  exact ⟨plain_of_isPlain plain, fun letter inside => eq_of_beq (List.all_eq_true.mp lowercase letter inside), short⟩

private theorem lowercase_numeral (value : Nat) : Lowercase (numeral value) := by
  intro letter member
  have digit := isdigit_of_mem_numeral member
  unfold isdigit at digit
  rw [Bool.and_eq_true, decide_eq_true_eq, decide_eq_true_eq] at digit
  refine tolower_of_not_upper fun upper => ?_
  have high : letter.toNat ≤ 57 := digit.2
  have low : 65 ≤ letter.toNat := upper.1
  omega

theorem permission_cases (rw : List Char) : permission rw ∈ keywords ∧ makeRwflag (permission rw) = makeRwflag rw := by
  unfold permission
  rcases makeRwflag_cases rw with one | three
  · rw [one]
    decide
  · rw [three]
    decide

/-- At most three words and numbers make up a line. -/
theorem writable_of_mem (nonempty : tokens ≠ []) (few : tokens.length ≤ 3)
    (each : forall token, token ∈ tokens -> token ∈ keywords ∨ Exists fun value =>
      value < Word.size ∧ token = numeral value) :
    Writable tokens ∧ forall token, token ∈ tokens -> Lowercase token := by
  have parts : forall token, token ∈ tokens -> Plain token ∧ Lowercase token ∧ token.length ≤ 10 := by
    intro token member
    rcases each token member with isKeyword | ⟨value, isWord, rfl⟩
    · exact plain_keyword isKeyword
    · exact ⟨plain_numeral value, lowercase_numeral value, length_numeral_le isWord⟩
  refine ⟨⟨nonempty, fun token member => (parts token member).1, Nat.le_trans few (by decide), ?_⟩,
    fun token member => (parts token member).2.1⟩
  have length := length_intercalate_le ' ' fun token member => (parts token member).2.2
  unfold maxCommandLen
  omega

theorem Command.writable (isWord : input.number < Word.size) :
    Writable input.tokens ∧ forall token, token ∈ input.tokens -> Lowercase token := by
  cases input with
  | alloc vpn rw | access vpn rw =>
      refine writable_of_mem (List.cons_ne_nil _ _) (Nat.le_refl 3) ?_
      exact List.forall_mem_cons.mpr ⟨Or.inl (by decide), List.forall_mem_cons.mpr
        ⟨Or.inr ⟨vpn, isWord, rfl⟩, List.forall_mem_singleton.mpr (Or.inl (permission_cases rw).1)⟩⟩
  | switch value | free value | read value | write value =>
      refine writable_of_mem (List.cons_ne_nil _ _) (Nat.le_succ 2) ?_
      exact List.forall_mem_cons.mpr ⟨Or.inl (by decide), List.forall_mem_singleton.mpr (Or.inr ⟨value, isWord, rfl⟩)⟩

private theorem lowered_writeLine (writable : Writable tokens)
    (lowercase : forall token, token ∈ tokens -> Lowercase token) :
    lowered (writeLine tokens) = writeLine tokens := by
  unfold lowered
  rw [writable.stringAt_writeLine]
  have fixed : forall letter, letter ∈ writeLine tokens -> tolower letter = id letter := by
    intro letter member
    rcases List.mem_append.mp member with inside | isNewline
    · rcases mem_intercalate inside with rfl | ⟨token, isToken, isLetter⟩
      · decide
      · exact lowercase token isToken letter isLetter
    · rw [List.mem_singleton.mp isNewline]
      decide
  rw [List.map_congr_left fixed, List.map_id]

private theorem request_tokens (isWord : input.number < Word.size) :
    request input.tokens = some (.command input.typed) := by
  have read := argument_numeral isWord
  cases input with
  | alloc vpn rw => exact congrArg (fun vpn => some (Request.command (.alloc vpn (permission rw)))) read
  | access vpn rw => exact congrArg (fun vpn => some (Request.command (.access vpn (permission rw)))) read
  | switch value => exact congrArg (fun pid => some (Request.command (.switch pid))) read
  | free value => exact congrArg (fun vpn => some (Request.command (.free vpn))) read
  | read value => exact congrArg (fun vpn => some (Request.command (.read vpn))) read
  | write value => exact congrArg (fun vpn => some (Request.command (.write vpn))) read

private theorem command_typed (state : State) :
    command heap printTlbResult input.typed state = command heap printTlbResult input state := by
  cases input with
  | alloc vpn rw =>
      exact congrArg (fun flags => Framework.allocPage heap printTlbResult vpn flags state) (permission_cases rw).2
  | access vpn rw =>
      exact congrArg (fun flags => reportAccess (accessMemory heap printTlbResult vpn flags state))
        (permission_cases rw).2
  | _ => rfl

/-- The console does for the line of a command what the command does. -/
private theorem round_writeLine (heap : Heap) (printTlbResult verbose : Bool) (isWord : input.number < Word.size)
    (start : Console) : Exists fun buffer =>
    start.round heap printTlbResult verbose (writeLine input.tokens) =
      ((command heap printTlbResult input start.state).mapError ConsoleFault.command).map fun made =>
        (respond verbose (.event made.1) made.2, Console.mk buffer made.2) := by
  rcases input.writable isWord with ⟨writable, lowercase⟩
  have same := lowered_writeLine writable lowercase
  have isTokens : lineTokens (writeLine input.tokens) = input.tokens := by
    unfold lineTokens
    rw [same, writable.pieceTokens_writeLine]
  have few : (pieceWords (lowered (writeLine input.tokens))).length ≤ maxNrTokens := by
    rw [same, writable.pieceWords_writeLine]
    exact writable.few
  rcases round_of_few heap printTlbResult verbose start few with ⟨buffer, round⟩
  refine ⟨buffer, ?_⟩
  rw [round, isTokens, reply_of_request (request_tokens isWord), answer_command, command_typed]
  cases command heap printTlbResult input start.state <;> rfl

/-- The commands that are typed do at the console what they do in the command loop,
faults included. -/
theorem typed_commands_run (heap : Heap) (printTlbResult verbose : Bool)
    (words : forall input, input ∈ commands -> input.number < Word.size) (start : Console) :
    ((console heap printTlbResult verbose).run (fgets (typeCommands commands)) start).map
        (Prod.map (List.map Response.output) Console.state) =
      (((simulator heap printTlbResult).run commands start.state).mapError ConsoleFault.command).map
        (Prod.map (List.map Output.event) id) := by
  have writable : forall tokens, tokens ∈ commands.map Command.tokens -> Writable tokens := by
    intro tokens member
    rcases List.mem_map.mp member with ⟨input, isCommand, rfl⟩
    exact (input.writable (words input isCommand)).1
  have pieces : fgets (typeCommands commands) = (commands.map Command.tokens).map writeLine :=
    fgets_writeLines writable
  rw [pieces]
  clear writable pieces
  induction commands generalizing start with
  | nil => rfl
  | cons input commands inductionHypothesis =>
      rcases List.forall_mem_cons.mp words with ⟨isWord, later⟩
      rcases round_writeLine heap printTlbResult verbose isWord start with ⟨buffer, round⟩
      rw [List.map_cons, List.map_cons]
      cases stepped : command heap printTlbResult input start.state with
      | error fault =>
          rw [stepped] at round
          have faults : (console heap printTlbResult verbose).step (writeLine input.tokens) start = _ := round
          have faults' : (simulator heap printTlbResult).step input start.state = _ := stepped
          rw [Machine.run, Machine.run, faults, faults']
          rfl
      | ok result =>
          rcases result with ⟨event, next⟩
          rw [stepped] at round
          have answers : (console heap printTlbResult verbose).step (writeLine input.tokens) start = _ := round
          have steps : (simulator heap printTlbResult).step input start.state = _ := stepped
          cases ended : event.stops with
          | true =>
              have ends : (console heap printTlbResult verbose).stops (respond verbose (.event event) next) = true :=
                ended
              have ends' : (simulator heap printTlbResult).stops event = true := ended
              rw [Machine.run, Machine.run, answers, steps]
              dsimp only [Except.mapError, Except.map]
              rw [ends, ends']
              rfl
          | false =>
              have rest := inductionHypothesis later ⟨buffer, next⟩
              rw [Machine.run_cons _ _ answers ended, Machine.run_cons _ _ steps ended]
              cases ran : (console heap printTlbResult verbose).run
                ((commands.map Command.tokens).map writeLine) ⟨buffer, next⟩ <;>
                cases ran' : (simulator heap printTlbResult).run commands next <;>
                rw [ran, ran'] at rest
              · exact rest
              · cases rest
              · cases rest
              · rw [Except.map, Except.mapError, Except.map, Except.ok.injEq, Prod.mk.injEq] at rest
                have outputs := congrArg (Output.event event :: ·) rest.1
                exact congrArg Except.ok (Prod.ext outputs rest.2)

theorem typed_commands_run_fork : ((console Heap.zeroed true false).run
      (fgets (typeCommands [.alloc 3 ['W'], .switch 4294967295, .write 3])) ⟨[], initSystem⟩).map
        (Prod.map (List.map Response.output) Console.state) =
    (((simulator Heap.zeroed true).run [.alloc 3 ['W'], .switch 4294967295, .write 3] initSystem).mapError
      ConsoleFault.command).map (Prod.map (List.map Output.event) id) :=
  typed_commands_run Heap.zeroed true false (by decide) ⟨[], initSystem⟩

end Typed

end Vm
end OsPa
