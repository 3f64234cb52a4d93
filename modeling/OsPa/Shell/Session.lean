import OsPa.Shell.Mash
import OsPa.Shell.Terminator
import OsPa.Simulators.Writing

namespace OsPa
namespace Shell

open Library Simulators

/-!
# Sessions

What a session should come to: each line asks for something, which is done in turn
until a line asks to leave.  The shell does just that, unless a line has too many words
or uses an alias, and as long as no command reads the standard input that it has from
the shell.
-/

/-- What a line asks for. -/
inductive Request
  | blank
  | exit
  | cd (path : Option String)
  | define (name : String) (words : List String)
  | list
  | execute (words : List String)
  | connect (left right : List String)
  deriving DecidableEq

/-- The words of a line that asks for it. -/
def Request.tokens : Request -> List String
  | blank => []
  | exit => ["exit"]
  | cd path => "cd" :: path.toList
  | define name words => "alias" :: name :: words
  | list => ["alias"]
  | execute words => words
  | connect left right => left ++ "|" :: right

/-- What a line with the words asks for. -/
def asked (tokens : List String) : Request :=
  match tokens with
  | [] => .blank
  | first :: rest =>
      if first = "exit" then .exit
      else if first = "cd" then .cd rest.head?
      else
        match pipeLoc tokens with
        | some loc => .connect (tokens.take loc) (tokens.drop (loc + 1))
        | none =>
            if first = "alias" then
              match rest with
              | [] => .list
              | name :: words => .define name words
            else .execute tokens

/-- The aliases that are put on the stack. -/
def Request.aliases : Request -> List AliasEntry
  | define name words => [⟨name, inputCommand words⟩]
  | _ => []

section Perform

variable {World : Type} (kernel : Kernel World)

/-- What is asked for is done. -/
def perform (session : Session World) : Request -> Returned × Session World
  | .blank | .exit => (⟨0, []⟩, session)
  | .cd path => changeDirectory kernel path session
  | .define name words =>
      (⟨1, []⟩, { session with stack := (Request.define name words).aliases ++ session.stack })
  | .list => (⟨1, session.stack.reverse.map fun pos => pos.name ++ ": " ++ pos.command⟩, session)
  | .execute words =>
      let ended := kernel.execute words session.world
      (⟨if ended.2 then 1 else -1, []⟩, { session with world := ended.1 })
  | .connect left right => (⟨1, []⟩, { session with world := kernel.connect left right session.world })

/-- The answer to a line that asks for it. -/
def reply (session : Session World) (request : Request) : Response × Session World :=
  match request.tokens with
  | [] => (⟨none, []⟩, session)
  | first :: _ => Prod.map (respond first) id (perform kernel session request)

/-- A shell that is asked without words. -/
def performer : Machine Request (Session World) Response SessionFault where
  step := fun request session => .ok (reply kernel session request)
  stops := Response.stops

end Perform

/-- The words in a piece. -/
def lineTokens (piece : List Char) : List String := parseCommand (String.ofList (stringAt nul piece 0))

/-- The lines up to the one that leaves the shell. -/
def untilExit : List (List String) -> List (List String)
  | [] => []
  | line :: lines => if asked line = .exit then [line] else line :: untilExit lines

/-- The lines of an input that are read. -/
def readLines (input : List Char) : List (List String) := untilExit ((typed input).map lineTokens)

/-- Each line leaves a place in the array of tokens, and no line but the last one uses
an alias. -/
structure Orderly (stack : List AliasEntry) (lines : List (List String)) : Prop where
  few : forall line, line ∈ lines -> line.length < maxNrTokens
  known : forall line, line ∈ lines -> forall pos, pos ∈ stack -> pos.name ∈ line -> asked line = .exit
  defined : lines.Pairwise fun earlier later =>
    forall pos, pos ∈ (asked earlier).aliases -> pos.name ∈ later -> asked later = .exit

/-! ## What a line asks for -/

section Asked

variable {tokens left right : List String} {first : String} {rest : List String}

theorem pipeLoc_concat (tokens : List String) (token : String) :
    pipeLoc (tokens ++ [token]) = if token = "|" then some tokens.length else pipeLoc tokens := by
  have earlier : forall (places : List Nat) (found : Option Nat), (forall i, i ∈ places -> i < tokens.length) ->
      places.foldl (fun pipeLoc i => if (tokens ++ [token])[i]? = some "|" then some i else pipeLoc) found =
        places.foldl (fun pipeLoc i => if tokens[i]? = some "|" then some i else pipeLoc) found := by
    intro places found inside
    apply List.foldl_ext
    intro found i member
    rw [List.getElem?_append_left (inside i member)]
  unfold pipeLoc
  rw [List.length_append, List.length_singleton, List.range_succ, List.foldl_append,
    earlier _ _ fun i member => List.mem_range.mp member, List.foldl_cons, List.foldl_nil, List.getElem?_concat_length]
  exact if_congr Option.some_inj rfl rfl

theorem pipeLoc_of_not_mem (noPipe : "|" ∉ tokens) : pipeLoc tokens = none := by
  induction tokens using List.reverseRecOn with
  | nil => rfl
  | append_singleton tokens token inductionHypothesis =>
      rw [List.mem_append, List.mem_singleton, not_or] at noPipe
      rw [pipeLoc_concat, if_neg (Ne.symm noPipe.2)]
      exact inductionHypothesis noPipe.1

/-- The last pipe counts. -/
theorem pipeLoc_append (left : List String) (noPipe : "|" ∉ right) :
    pipeLoc (left ++ "|" :: right) = some left.length := by
  induction right using List.reverseRecOn with
  | nil =>
      rw [pipeLoc_concat]
      exact if_pos rfl
  | append_singleton right token inductionHypothesis =>
      rw [List.mem_append, List.mem_singleton, not_or] at noPipe
      rw [← List.cons_append, ← List.append_assoc, pipeLoc_concat, if_neg (Ne.symm noPipe.2)]
      exact inductionHypothesis noPipe.1

private theorem pipeLoc_cases (tokens : List String) : pipeLoc tokens = none ∨
    Exists fun left => Exists fun right => tokens = left ++ "|" :: right ∧ pipeLoc tokens = some left.length := by
  by_cases member : "|" ∈ tokens
  · rcases List.eq_append_cons_of_mem (List.mem_reverse.mpr member) with ⟨right, left, split, noPipe⟩
    have whole : tokens = left.reverse ++ "|" :: right.reverse := by
      rw [List.reverse_eq_iff.mp split, List.reverse_append, List.reverse_cons, List.append_assoc,
        List.singleton_append]
    refine Or.inr ⟨left.reverse, right.reverse, whole, ?_⟩
    rw [whole]
    exact pipeLoc_append _ (mt List.mem_reverse.mp noPipe)
  · exact Or.inl (pipeLoc_of_not_mem member)

/-- The request starts with the word that the line starts with. -/
theorem tokens_asked (first : String) (rest : List String) :
    Exists fun more => (asked (first :: rest)).tokens = first :: more := by
  unfold asked
  dsimp only
  by_cases isExit : first = "exit"
  · subst first
    exact ⟨[], rfl⟩
  by_cases isCd : first = "cd"
  · subst first
    exact ⟨rest.head?.toList, rfl⟩
  rw [if_neg isExit, if_neg isCd]
  rcases pipeLoc_cases (first :: rest) with none | ⟨left, right, split, found⟩
  · rw [none]
    dsimp only
    by_cases isAlias : first = "alias"
    · subst first
      cases rest with
      | nil => exact ⟨[], rfl⟩
      | cons name words => exact ⟨name :: words, rfl⟩
    · rw [if_neg isAlias]
      exact ⟨rest, rfl⟩
  · rw [found, split]
    dsimp only
    rw [List.take_left, ← List.drop_drop, List.drop_left]
    exact ⟨rest, split.symm⟩

theorem asked_eq_exit : asked tokens = .exit ↔ tokens.head? = some "exit" := by
  cases tokens with
  | nil => exact iff_of_false nofun nofun
  | cons first rest =>
      rw [List.head?_cons, Option.some_inj]
      constructor
      · intro exits
        rcases tokens_asked first rest with ⟨more, same⟩
        rw [exits] at same
        exact (List.cons.inj same).1.symm
      · rintro rfl
        rfl

end Asked

/-! ## A line -/

section Line

variable {World : Type} {kernel : Kernel World} {fuel : Nat} {piece : List Char} {session : Session World}
  {stack : List AliasEntry} {e : Expansion} {first : String} {rest : List String}

private theorem length_inputCommand_le (first : String) (rest : List String) :
    (inputCommand rest).length ≤ (inputCommand (first :: rest)).length := by
  cases rest with
  | nil => exact Nat.zero_le _
  | cons next others =>
      rw [inputCommand, String.length_append, String.length_append]
      exact Nat.le_add_left _ _

/-- What is asked for is done, if the words fit into the array for an alias. -/
private theorem dispatch_eq (kernel : Kernel World) (session : Session World) (notExit : first ≠ "exit")
    (short : (inputCommand (first :: rest)).length < maxTokenLen * maxNrTokens) :
    dispatch kernel (first :: rest) session = .ok (perform kernel session (asked (first :: rest))) := by
  unfold dispatch asked
  dsimp only
  rw [if_neg notExit]
  by_cases isCd : first = "cd"
  · have second : (first :: rest)[1]? = rest.head? := List.head?_eq_getElem?.symm
    rw [if_pos isCd, if_pos isCd, second]
    cases pipeLoc (first :: rest) with
    | some loc => exact if_pos isCd
    | none => rfl
  rw [if_neg isCd, if_neg isCd]
  cases pipeLoc (first :: rest) with
  | some loc => exact if_neg isCd
  | none =>
      dsimp only
      by_cases isAlias : first = "alias"
      · rw [if_pos isAlias, if_pos isAlias]
        cases rest with
        | nil => rfl
        | cons name words =>
            have fits : (inputCommand words).length < maxTokenLen * maxNrTokens :=
              Nat.lt_of_le_of_lt ((length_inputCommand_le name words).trans (length_inputCommand_le first _)) short
            unfold alias_ addAlias
            dsimp only
            rw [if_neg (Nat.not_le_of_lt fits)]
            rfl
      · rw [if_neg isAlias, if_neg isAlias]
        rfl

/-- A loop for an alias whose name is not among the tokens walks past them. -/
private theorem rounds_unmet {pos : AliasEntry} (unmet : pos.name ∉ e.tokens) (remaining : Nat) {i : Nat}
    (place : i + remaining = e.tokens.length) :
    rounds (Expansion.round pos) (remaining + 1) { e with i := i } = some (.ok { e with i := e.tokens.length }) := by
  induction remaining generalizing i with
  | zero =>
      have behind : e.tokens[i]? = none := List.getElem?_eq_none_iff.mpr (Nat.le_of_eq place.symm)
      rw [← place]
      apply rounds_succ_of_inr
      unfold Expansion.round
      dsimp only
      rw [behind]
      rfl
  | succ remaining inductionHypothesis =>
      have inside : i < e.tokens.length := by omega
      have passes : Expansion.round pos { e with i := i } = .inl { e with i := i + 1 } := by
        unfold Expansion.round
        dsimp only
        rw [List.getElem?_eq_getElem inside]
        exact if_neg fun isName => unmet (List.mem_of_getElem isName)
      rw [rounds_succ_of_inl passes]
      exact inductionHypothesis (by omega)

/-- Without the name of an alias among the tokens, few rounds are enough. -/
private theorem expandAliases_unmet (unmet : forall pos, pos ∈ stack -> pos.name ∉ e.tokens)
    (enough : e.tokens.length < fuel) :
    Exists fun final => expandAliases fuel stack e = some (.ok final) := by
  induction stack generalizing e with
  | nil => exact ⟨e, rfl⟩
  | cons pos stack inductionHypothesis =>
      have first := rounds_mono enough (rounds_unmet (unmet pos List.mem_cons_self) e.tokens.length (Nat.zero_add _))
      rw [expandAliases_cons first]
      exact inductionHypothesis (fun other member => unmet other (List.mem_cons_of_mem _ member)) enough

/-- A command that uses no alias is carried out. -/
private theorem runCommand_unmet (enough : maxNrTokens ≤ fuel) (few : (first :: rest).length < maxNrTokens)
    (short : (inputCommand (first :: rest)).length < maxTokenLen * maxNrTokens)
    (clear : forall pos, pos ∈ session.stack -> pos.name ∈ first :: rest -> asked (first :: rest) = .exit) :
    runCommand kernel fuel (first :: rest) session = .ok (perform kernel session (asked (first :: rest))) := by
  unfold runCommand
  dsimp only
  by_cases isExit : first = "exit"
  · subst first
    rfl
  have unmet : forall pos, pos ∈ session.stack -> pos.name ∉ (Expansion.start (first :: rest)).tokens := by
    intro pos member met
    have exits := asked_eq_exit.mp (clear pos member met)
    exact isExit (Option.some.inj exits)
  rw [if_neg isExit]
  by_cases aliases : session.stack = []
  · rw [if_pos aliases]
    exact dispatch_eq kernel session isExit short
  · rcases expandAliases_unmet unmet (Nat.lt_of_lt_of_le few enough) with ⟨final, expanded⟩
    have same := expands_unmet ⟨fuel, expanded⟩ aliases unmet
    have terminated := terminate_start few
    rw [if_neg aliases, expanded, same]
    dsimp only [Expansion.start] at terminated ⊢
    rw [terminated]
    exact dispatch_eq kernel session isExit short

/-- A command that uses an alias is not carried out. -/
private theorem runCommand_met {pos : AliasEntry} (member : pos ∈ session.stack) (met : pos.name ∈ first :: rest)
    (stays : asked (first :: rest) ≠ .exit) (result : Returned × Session World) :
    runCommand kernel fuel (first :: rest) session ≠ .ok result := by
  have notExit : first ≠ "exit" := fun same => stays (asked_eq_exit.mpr (congrArg some same))
  have aliases : session.stack ≠ [] := List.ne_nil_of_mem member
  unfold runCommand
  dsimp only
  rw [if_neg notExit, if_neg aliases]
  cases expanded : expandAliases fuel session.stack (.start (first :: rest)) with
  | none => exact nofun
  | some ended =>
      cases ended with
      | error fault => exact nofun
      | ok final =>
          have expands : Expands session.stack (.start (first :: rest)) (.ok final) := ⟨fuel, expanded⟩
          have outside : final.slots ≤ final.i := by
            rw [expands_met expands member met]
            exact expands_behind expands aliases
          have overruns : final.terminate = .error .tokensOutOfBounds := if_pos outside
          dsimp only
          rw [overruns]
          exact nofun

private theorem reply_asked (kernel : Kernel World) (session : Session World) (first : String) (rest : List String) :
    reply kernel session (asked (first :: rest)) =
      Prod.map (respond first) id (perform kernel session (asked (first :: rest))) := by
  rcases tokens_asked first rest with ⟨more, same⟩
  unfold reply
  rw [same]

/-- The words of a piece that are joined again are no longer than the piece. -/
private theorem length_lineTokens_le (piece : List Char) : (inputCommand (lineTokens piece)).length ≤ piece.length := by
  have same : String.toList ∘ String.ofList = id := funext fun _ => String.toList_ofList
  have shorter := length_intercalate_words_le isDelimiter ' ' (stringAt nul piece 0)
  have string : (stringAt nul piece 0).length ≤ piece.length := (List.takeWhile_prefix _).length_le
  unfold lineTokens parseCommand
  rw [← String.length_toList, toList_inputCommand, String.toList_ofList, parseTokens_eq, List.map_map, same,
    List.map_id]
  exact shorter.trans string

private theorem Session.command_iff (enough : maxNrTokens ≤ fuel) {line : List String} (few : line.length < maxNrTokens)
    (short : (inputCommand line).length < maxTokenLen * maxNrTokens) (result : Response × Session World) :
    session.command kernel fuel line = .ok result ↔
      (forall pos, pos ∈ session.stack -> pos.name ∈ line -> asked line = .exit) ∧
        reply kernel session (asked line) = result := by
  cases line with
  | nil =>
      constructor
      · intro ran
        cases ran
        exact ⟨fun _ _ never => absurd never List.not_mem_nil, rfl⟩
      · rintro ⟨_, rfl⟩
        rfl
  | cons first rest =>
      unfold Session.command
      dsimp only
      constructor
      · intro ran
        have clear : forall pos, pos ∈ session.stack -> pos.name ∈ first :: rest -> asked (first :: rest) = .exit := by
          intro pos member met
          by_contra stays
          cases done : runCommand kernel fuel (first :: rest) session with
          | error fault =>
              rw [done] at ran
              cases ran
          | ok returned => exact runCommand_met member met stays returned done
        rw [runCommand_unmet enough few short clear] at ran
        rw [reply_asked]
        exact ⟨clear, Except.ok.inj ran⟩
      · rintro ⟨clear, rfl⟩
        rw [runCommand_unmet enough few short clear, reply_asked]
        rfl

/-- The body of the loop does what the line asks for, exactly if there are few words
and no alias is used. -/
theorem Session.round_iff (enough : maxNrTokens ≤ fuel) (delivered : piece.length < maxCommandLen)
    (result : Response × Session World) :
    session.round kernel fuel piece = .ok result ↔ (lineTokens piece).length < maxNrTokens ∧
      (forall pos, pos ∈ session.stack -> pos.name ∈ lineTokens piece -> asked (lineTokens piece) = .exit) ∧
        reply kernel session (asked (lineTokens piece)) = result := by
  have isLine : parseCommand (String.ofList (stringAt nul piece 0)) = lineTokens piece := rfl
  unfold Session.round
  rw [parseInto_eq, isLine]
  by_cases few : (lineTokens piece).length < maxNrTokens
  · have short := Nat.lt_of_le_of_lt (length_lineTokens_le piece) delivered
    rw [if_pos few, and_iff_right few]
    dsimp only
    rw [filterMap_storeAll]
    exact Session.command_iff enough few short result
  · rw [if_neg few]
    exact iff_of_false nofun fun all => few all.1

end Line

/-! ## A run -/

section Run

variable {World : Type} {kernel : Kernel World} {fuel : Nat} {piece : List Char} {pieces : List (List Char)}
  {stack : List AliasEntry} {line : List String} {lines : List (List String)}

private theorem Orderly.nil (stack : List AliasEntry) : Orderly stack [] where
  few := fun _ never => nomatch never
  known := fun _ never => nomatch never
  defined := .nil

theorem orderly_single : Orderly stack [line] ↔ line.length < maxNrTokens ∧
    forall pos, pos ∈ stack -> pos.name ∈ line -> asked line = .exit := by
  constructor
  · intro orderly
    exact ⟨orderly.few line List.mem_cons_self, orderly.known line List.mem_cons_self⟩
  · rintro ⟨few, known⟩
    exact ⟨List.forall_mem_singleton.mpr few, List.forall_mem_singleton.mpr known, List.pairwise_singleton _ _⟩

/-- The aliases of a line are known to the lines behind it. -/
theorem orderly_cons : Orderly stack (line :: lines) ↔ line.length < maxNrTokens ∧
    (forall pos, pos ∈ stack -> pos.name ∈ line -> asked line = .exit) ∧
      Orderly ((asked line).aliases ++ stack) lines := by
  constructor
  · intro orderly
    rcases List.pairwise_cons.mp orderly.defined with ⟨first, later⟩
    refine ⟨orderly.few line List.mem_cons_self, orderly.known line List.mem_cons_self,
      fun other member => orderly.few other (List.mem_cons_of_mem _ member), ?_, later⟩
    intro other member pos known
    rcases List.mem_append.mp known with new | old
    · exact first other member pos new
    · exact orderly.known other (List.mem_cons_of_mem _ member) pos old
  · rintro ⟨few, known, rest⟩
    refine ⟨List.forall_mem_cons.mpr ⟨few, rest.few⟩, List.forall_mem_cons.mpr ⟨known, ?_⟩,
      List.pairwise_cons.mpr ⟨?_, rest.defined⟩⟩
    · exact fun other member pos old => rest.known other member pos (List.mem_append_right _ old)
    · exact fun other member pos new => rest.known other member pos (List.mem_append_left _ new)

/-- Only a definition changes the stack. -/
theorem reply_stack (kernel : Kernel World) (session : Session World) (request : Request) :
    (reply kernel session request).2.stack = request.aliases ++ session.stack := by
  unfold reply
  cases request with
  | cd path =>
      have same : (changeDirectory kernel path session).2.stack = session.stack := by
        unfold changeDirectory
        dsimp only
        split <;> rfl
      exact same
  | execute words => cases words <;> rfl
  | connect left right => cases left <;> rfl
  | _ => rfl

/-- Only the request to leave is answered by 0. -/
theorem perform_result (kernel : Kernel World) (session : Session World) {request : Request} (stays : request ≠ .exit)
    (asks : request ≠ .blank) :
    (perform kernel session request).1.result = 1 ∨ (perform kernel session request).1.result = -1 := by
  cases request with
  | exit => exact absurd rfl stays
  | blank => exact absurd rfl asks
  | cd path =>
      unfold perform changeDirectory
      dsimp only
      split
      · exact Or.inr rfl
      · exact Or.inl rfl
  | execute words =>
      unfold perform
      dsimp only
      split
      · exact Or.inl rfl
      · exact Or.inr rfl
  | _ => exact Or.inl rfl

theorem reply_stops (kernel : Kernel World) (session : Session World) (request : Request) :
    (reply kernel session request).1.stops = true ↔ request = .exit := by
  by_cases stays : request = .exit
  · subst request
    exact iff_of_true rfl rfl
  · refine iff_of_false ?_ stays
    unfold reply
    cases words : request.tokens with
    | nil => exact nofun
    | cons first rest =>
        have asks : request ≠ .blank := by
          rintro rfl
          cases words
        have result := perform_result kernel session stays asks
        dsimp only
        generalize perform kernel session request = done at result
        rcases done with ⟨⟨returned, printed⟩, next⟩
        rcases result with rfl | rfl <;> exact nofun

theorem untilExit_cons (line : List String) (lines : List (List String)) :
    (asked line = .exit ∧ untilExit (line :: lines) = [line]) ∨
      (asked line ≠ .exit ∧ untilExit (line :: lines) = line :: untilExit lines) := by
  rw [untilExit]
  by_cases exits : asked line = .exit
  · exact Or.inl ⟨exits, if_pos exits⟩
  · exact Or.inr ⟨exits, if_neg exits⟩

private theorem orderly_untilExit_cons (lines : List (List String))
    (orderly : Orderly stack (untilExit (line :: lines))) :
    line.length < maxNrTokens ∧ forall pos, pos ∈ stack -> pos.name ∈ line -> asked line = .exit := by
  rcases untilExit_cons line lines with ⟨_, same⟩ | ⟨_, same⟩
  · rw [same] at orderly
    exact orderly_single.mp orderly
  · rw [same] at orderly
    rcases orderly_cons.mp orderly with ⟨few, known, _⟩
    exact ⟨few, known⟩

theorem pieces_run_iff (enough : maxNrTokens ≤ fuel)
    (delivered : forall piece, piece ∈ pieces -> piece.length < maxCommandLen) (start : Session World)
    (result : List Response × Session World) :
    (shell kernel fuel).run pieces start = .ok result ↔
      Orderly start.stack (untilExit (pieces.map lineTokens)) ∧
        (performer kernel).run ((untilExit (pieces.map lineTokens)).map asked) start = .ok result := by
  induction pieces generalizing start result with
  | nil => exact (and_iff_right (Orderly.nil start.stack)).symm
  | cons piece pieces inductionHypothesis =>
      rcases List.forall_mem_cons.mp delivered with ⟨first, later⟩
      have round : forall result, start.round kernel fuel piece = .ok result ↔ _ := start.round_iff enough first
      rw [List.map_cons]
      by_cases fine : (lineTokens piece).length < maxNrTokens ∧
        forall pos, pos ∈ start.stack -> pos.name ∈ lineTokens piece -> asked (lineTokens piece) = .exit
      · have stops := reply_stops kernel start (asked (lineTokens piece))
        have stack := reply_stack kernel start (asked (lineTokens piece))
        rcases replied : reply kernel start (asked (lineTokens piece)) with ⟨response, next⟩
        rw [replied] at stops stack
        have stepped : (shell kernel fuel).step piece start = .ok (response, next) :=
          (round _).mpr ⟨fine.1, fine.2, replied⟩
        have performs : (performer kernel).step (asked (lineTokens piece)) start = .ok (response, next) :=
          congrArg Except.ok replied
        rcases untilExit_cons (lineTokens piece) (pieces.map lineTokens) with ⟨exits, same⟩ | ⟨stays, same⟩
        · have ended : (shell kernel fuel).stops response = true := stops.mpr exits
          rw [same, orderly_single, and_iff_right fine, List.map_singleton, Machine.run_single, performs, Machine.run,
            stepped]
          dsimp only
          rw [if_pos ended]
          rfl
        · have goesOn : response.stops = false := Bool.eq_false_iff.mpr (mt stops.mp stays)
          rw [same, orderly_cons, List.map_cons, ← and_assoc, and_iff_right fine, ← stack,
            Machine.run_cons _ _ stepped goesOn, Machine.run_cons _ _ performs goesOn, map_eq_ok, map_eq_ok,
            ← exists_and_left]
          apply exists_congr
          intro made
          rw [inductionHypothesis later, and_assoc]
      · constructor
        · intro ran
          rcases Machine.run_cons_ok _ ran with ⟨output, next, stepped, _⟩
          rcases (round _).mp stepped with ⟨few, known, _⟩
          exact absurd ⟨few, known⟩ fine
        · exact fun both => absurd (orderly_untilExit_cons _ both.1) fine

theorem length_of_mem_typed {input : List Char} (member : piece ∈ typed input) : piece.length < maxCommandLen := by
  have short := length_of_mem_deliver (by decide) (by decide) member
  exact Nat.lt_succ_of_le short

end Run

end Shell
end OsPa
