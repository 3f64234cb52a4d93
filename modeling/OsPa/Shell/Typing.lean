import OsPa.Shell.Session
import OsPa.Simulators.Writing

namespace OsPa
namespace Shell

open Library Simulators

/-!
# Sessions that are typed

A text with a line for each request is read as it has been written, so that each
sequence of requests can be typed.  Whether the shell gets through is seen from the
lines of a text alone.
-/

/-- The request is read again from its words. -/
def Request.Proper : Request -> Prop
  | blank | exit | cd _ | list => True
  | define name words => "|" ∉ name :: words
  | execute words => "|" ∉ words ∧ Exists fun first => words.head? = some first ∧ first ∉ ["exit", "cd", "alias"]
  | connect left right => "|" ∉ right ∧ forall first, left.head? = some first -> first ∉ ["exit", "cd"]

/-- The words fit into a line and come back from it. -/
structure Typeable (tokens : List String) : Prop where
  plain : forall token, token ∈ tokens -> token ≠ "" ∧ forall letter, letter ∈ token.toList ->
    letter ∉ delimiters ∧ letter ≠ nul
  few : tokens.length < maxNrTokens
  short : (inputCommand tokens).length < maxCommandLen - 1

/-- The test for words that can be typed. -/
def isTypeable (tokens : List String) : Bool :=
  tokens.all (fun token => token != "" && token.toList.all fun letter => !isDelimiter letter && letter != nul) &&
    decide (tokens.length < maxNrTokens) && decide ((inputCommand tokens).length < maxCommandLen - 1)

theorem isTypeable_iff {tokens : List String} : isTypeable tokens = true ↔ Typeable tokens := by
  have letters : forall token : String, (token.toList.all fun letter => !isDelimiter letter && letter != nul) = true ↔
      forall letter, letter ∈ token.toList -> letter ∉ delimiters ∧ letter ≠ nul := by
    intro token
    rw [List.all_eq_true]
    refine forall_congr' fun letter => imp_congr_right fun _ => ?_
    rw [Bool.and_eq_true, Bool.not_eq_true', bne_iff_ne]
    exact and_congr_left' decide_eq_false_iff_not
  unfold isTypeable
  rw [Bool.and_eq_true, Bool.and_eq_true, decide_eq_true_eq, decide_eq_true_eq, List.all_eq_true]
  have words : (forall token, token ∈ tokens -> (token != "" &&
      token.toList.all fun letter => !isDelimiter letter && letter != nul) = true) ↔
        forall token, token ∈ tokens -> token ≠ "" ∧ forall letter, letter ∈ token.toList ->
          letter ∉ delimiters ∧ letter ≠ nul := by
    refine forall_congr' fun token => imp_congr_right fun _ => ?_
    rw [Bool.and_eq_true, bne_iff_ne, letters]
  rw [words]
  exact ⟨fun ⟨⟨plain, few⟩, short⟩ => ⟨plain, few, short⟩, fun ⟨plain, few, short⟩ => ⟨⟨plain, few⟩, short⟩⟩

instance (tokens : List String) : Decidable (Typeable tokens) := decidable_of_iff _ isTypeable_iff

/-- A line with the words. -/
def typeLine (tokens : List String) : List Char := (inputCommand tokens).toList ++ ['\n']

/-- A text with a line for each request. -/
def typeRequests (requests : List Request) : List Char := (requests.map fun request => typeLine request.tokens).flatten

section Typing

variable {request : Request} {requests : List Request} {tokens : List String}

/-- What is asked for is what has been written. -/
private theorem asked_tokens (proper : request.Proper) : asked request.tokens = request := by
  cases request with
  | blank => rfl
  | exit => rfl
  | cd path => cases path <;> rfl
  | list => rfl
  | define name words =>
      have noPipe : "|" ∉ "alias" :: name :: words := by
        rw [List.mem_cons, not_or]
        exact ⟨by decide, proper⟩
      unfold asked Request.tokens
      dsimp only
      rw [pipeLoc_of_not_mem noPipe]
      rfl
  | execute words =>
      rcases proper with ⟨noPipe, first, isFirst, ordinary⟩
      cases words with
      | nil => cases isFirst
      | cons head rest =>
          cases isFirst
          simp only [List.mem_cons, List.not_mem_nil, or_false, not_or] at ordinary
          unfold asked Request.tokens
          dsimp only
          rw [pipeLoc_of_not_mem noPipe, if_neg ordinary.1, if_neg ordinary.2.1]
          exact if_neg ordinary.2.2
  | connect left right =>
      rcases proper with ⟨noPipe, ordinary⟩
      have found := pipeLoc_append left noPipe
      have before : (left ++ "|" :: right).take left.length = left := List.take_left
      have behind : (left ++ "|" :: right).drop (left.length + 1) = right := by
        rw [← List.drop_drop, List.drop_left]
        rfl
      cases left with
      | nil =>
          unfold asked Request.tokens
          dsimp only [List.nil_append] at found ⊢
          rw [found]
          rfl
      | cons head rest =>
          have different := ordinary head rfl
          simp only [List.mem_cons, List.not_mem_nil, or_false, not_or] at different
          unfold asked Request.tokens
          dsimp only [List.cons_append] at found before behind ⊢
          rw [if_neg different.1, if_neg different.2, found]
          dsimp only
          rw [before, behind]

theorem Typeable.not_mem {letter : Char} (typeable : Typeable tokens) (isOther : letter ≠ ' ')
    (stops : letter ∈ delimiters ∨ letter = nul) : letter ∉ (inputCommand tokens).toList := by
  rw [toList_inputCommand]
  intro member
  rcases mem_intercalate member with isBlank | ⟨word, isWord, inside⟩
  · exact isOther isBlank
  · rcases List.mem_map.mp isWord with ⟨token, isToken, rfl⟩
    have letters := (typeable.plain token isToken).2 letter inside
    rcases stops with delimits | isNul
    · exact letters.1 delimits
    · exact letters.2 isNul

/-- The words of a line come back from it. -/
theorem Typeable.lineTokens_typeLine (typeable : Typeable tokens) : lineTokens (typeLine tokens) = tokens := by
  have whole : stringAt nul (typeLine tokens) 0 = typeLine tokens := by
    refine stringAt_self fun member => ?_
    rcases List.mem_append.mp member with inside | isNewline
    · exact typeable.not_mem (by decide) (Or.inr rfl) inside
    · exact absurd (List.mem_singleton.mp isNewline) (by decide)
  have apart := apart_of_plain fun token isToken =>
    (typeable.plain token isToken).imp_right fun letters letter inside => (letters letter inside).1
  have joined : words isDelimiter ([' '].intercalate (tokens.map String.toList) ++ '\n' :: []) =
    tokens.map String.toList ++ words isDelimiter [] := words_intercalate_append (by decide) (by decide) apart []
  have same : String.ofList ∘ String.toList = id := funext fun _ => String.ofList_toList
  rw [words_nil, List.append_nil] at joined
  unfold lineTokens parseCommand
  rw [whole, String.toList_ofList, parseTokens_eq]
  unfold typeLine
  rw [toList_inputCommand, joined, List.map_map, same, List.map_id]

private theorem typed_typeRequests (typeable : forall request, request ∈ requests -> Typeable request.tokens) :
    typed (typeRequests requests) = requests.map fun request => typeLine request.tokens := by
  refine deliver_lines _ fun line member => ?_
  rcases List.mem_map.mp member with ⟨request, isRequest, rfl⟩
  have fits := typeable request isRequest
  refine ⟨_, rfl, fits.not_mem (by decide) (Or.inl (by decide)), ?_⟩
  rw [String.length_toList]
  exact fits.short

theorem readLines_typeRequests (typeable : forall request, request ∈ requests -> Typeable request.tokens) :
    readLines (typeRequests requests) = untilExit (requests.map Request.tokens) := by
  unfold readLines
  rw [typed_typeRequests typeable, List.map_map]
  have same : forall request, request ∈ requests -> (lineTokens ∘ fun request => typeLine request.tokens) request =
      request.tokens := fun request isRequest => (typeable request isRequest).lineTokens_typeLine
  rw [List.map_congr_left same]

private theorem untilExit_sublist (lines : List (List String)) : (untilExit lines).Sublist lines := by
  induction lines with
  | nil => exact List.Sublist.refl []
  | cons line lines inductionHypothesis =>
      rcases untilExit_cons line lines with ⟨_, same⟩ | ⟨_, same⟩
      · rw [same]
        exact (List.nil_sublist lines).cons_cons line
      · rw [same]
        exact inductionHypothesis.cons_cons line

end Typing

section Performed

variable {World : Type} {kernel : Kernel World} {fuel : Nat} {requests : List Request}

/-- What is behind the request to leave is not read. -/
private theorem run_untilExit (lines : List (List String)) (start : Session World) :
    (performer kernel).run ((untilExit lines).map asked) start = (performer kernel).run (lines.map asked) start := by
  induction lines generalizing start with
  | nil => rfl
  | cons line lines inductionHypothesis =>
      have stops := reply_stops kernel start (asked line)
      rcases replied : reply kernel start (asked line) with ⟨response, next⟩
      rw [replied] at stops
      have performs : (performer kernel).step (asked line) start = .ok (response, next) := congrArg Except.ok replied
      rw [List.map_cons]
      rcases untilExit_cons line lines with ⟨exits, same⟩ | ⟨stays, same⟩
      · have ended : (performer kernel).stops response = true := stops.mpr exits
        rw [same, List.map_singleton, Machine.run_single, performs, Machine.run, performs]
        dsimp only
        rw [if_pos ended]
        rfl
      · have goesOn : response.stops = false := Bool.eq_false_iff.mpr (mt stops.mp stays)
        rw [same, List.map_cons, Machine.run_cons _ _ performs goesOn, Machine.run_cons _ _ performs goesOn,
          inductionHypothesis]

/-- The requests that are typed are performed in turn, if none of them mentions an alias
that is defined before. -/
theorem typed_requests_performed (kernel : Kernel World) (enough : maxNrTokens ≤ fuel)
    (proper : forall request, request ∈ requests -> request.Proper)
    (typeable : forall request, request ∈ requests -> Typeable request.tokens)
    (unused : requests.Pairwise fun earlier later => forall pos, pos ∈ earlier.aliases -> pos.name ∉ later.tokens)
    (start : Session World)
    (unknown : forall request, request ∈ requests -> forall pos, pos ∈ start.stack -> pos.name ∉ request.tokens) :
    (shell kernel fuel).run (typed (typeRequests requests)) start = (performer kernel).run requests start := by
  have isAsked : (requests.map Request.tokens).map asked = requests := by
    rw [List.map_map]
    have same : forall request, request ∈ requests -> (asked ∘ Request.tokens) request = id request :=
      fun request isRequest => asked_tokens (proper request isRequest)
    rw [List.map_congr_left same, List.map_id]
  have all : Orderly start.stack (requests.map Request.tokens) := by
    constructor
    case few =>
      intro line member
      rcases List.mem_map.mp member with ⟨request, isRequest, rfl⟩
      exact (typeable request isRequest).few
    case known =>
      intro line member pos isKnown met
      rcases List.mem_map.mp member with ⟨request, isRequest, rfl⟩
      exact absurd met (unknown request isRequest pos isKnown)
    case defined =>
      rw [List.pairwise_map]
      refine unused.imp_of_mem ?_
      intro earlier later isEarlier _ apart pos isDefined met
      rw [asked_tokens (proper earlier isEarlier)] at isDefined
      exact absurd met (apart pos isDefined)
  have beginning := untilExit_sublist (requests.map Request.tokens)
  have orderly : Orderly start.stack (readLines (typeRequests requests)) := by
    rw [readLines_typeRequests typeable]
    exact ⟨fun line member => all.few line (beginning.subset member),
      fun line member => all.known line (beginning.subset member), all.defined.sublist beginning⟩
  have performed : (performer kernel).run ((readLines (typeRequests requests)).map asked) start =
      (performer kernel).run requests start := by
    rw [readLines_typeRequests typeable, run_untilExit, isAsked]
  have anything : (fun _ : Session World => True) start := trivial
  have step : forall request (session : Session World), True -> Exists fun response => Exists fun next =>
      (performer kernel).step request session = .ok (response, next) ∧ True ∧
        ((performer kernel).stops response = true -> True) :=
    fun request session _ => ⟨_, _, rfl, trivial, fun _ => trivial⟩
  rcases (performer kernel).run_total step requests anything with ⟨responses, final, ran, _⟩
  rw [ran]
  refine (pieces_run_iff enough (fun _ member => length_of_mem_typed member) start _).mpr ⟨orderly, ?_⟩
  exact performed.trans ran

/-- A system that keeps what it is asked for, in which `false` fails. -/
def recorder : Kernel (List (List String)) where
  home := some "/home"
  chdir dir world := some (world ++ [["cd", dir]])
  execute words world := (world ++ [words], words.head? != some "false")
  connect left right world := world ++ [left, right]

/-- An alias is defined and listed, and what is behind `exit` is not asked for. -/
def sevenRequests : List Request :=
  [.define "ll" ["ls", "-al"], .connect ["cat", "f"] ["wc"], .cd none, .list, .execute ["false"], .exit,
    .execute ["ls"]]

theorem typed_requests_performed_seven :
    (shell recorder 32).run (typed (typeRequests sevenRequests)) ⟨[], []⟩ =
      (performer recorder).run sevenRequests ⟨[], []⟩ := by
  have proper : forall request, request ∈ sevenRequests -> request.Proper := by
    simp [sevenRequests, Request.Proper]
  exact typed_requests_performed recorder (by decide) proper (by decide) (by decide) ⟨[], []⟩ (by decide)

/-- A session comes to what its lines ask for, exactly if each line that is read leaves
a place in the array of tokens, and no alias is used.  No other session ends well. -/
theorem session_runs_iff (kernel : Kernel World) (enough : maxNrTokens ≤ fuel) (input : List Char)
    (start : Session World) (result : List Response × Session World) :
    (shell kernel fuel).run (typed input) start = .ok result ↔
      Orderly start.stack (readLines input) ∧
        (performer kernel).run ((readLines input).map asked) start = .ok result :=
  pieces_run_iff enough (fun _ member => length_of_mem_typed member) start result

/-- The second line uses the alias that the first one defines. -/
theorem session_runs_iff_ll : ¬ Exists fun result =>
    (shell recorder 32).run (typed (typeRequests [.define "ll" ["ls"], .execute ["ll"]])) ⟨[], []⟩ = .ok result := by
  rintro ⟨result, ran⟩
  have orderly := ((session_runs_iff recorder (by decide) _ ⟨[], []⟩ result).mp ran).1
  rw [readLines_typeRequests (by decide)] at orderly
  have unused := List.rel_of_pairwise_cons orderly.defined (List.mem_singleton_self ["ll"])
  exact absurd (unused ⟨"ll", "ls"⟩ (by decide) (by decide)) (by decide)

end Performed

end Shell
end OsPa
