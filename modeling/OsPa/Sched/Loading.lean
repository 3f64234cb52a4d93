import Mathlib.Data.List.Forall2
import OsPa.Sched.Script
import OsPa.Simulators.Writing

namespace OsPa
namespace Sched

open Library Simulators

/-!
# The language of scripts

A script is a sequence of blocks, each of which describes a process.  A block begins
with its `process` line and goes on with properties in any order, the later ones of
which override the earlier ones.  The process is part of the script if the block comes
to its `end` line.  Lines without tokens may stand everywhere.

The loader returns `true` for the files that are written in this language and for no
others, and what it has loaded then is what the blocks describe.
-/

/-- A property of a process. -/
inductive Property
  | lifespan (value : Nat)
  | prio (value : Nat)
  | start (value : Nat)
  | acquire (rs : ResourceSchedule)

namespace Property

def set : Property -> Description -> Description
  | lifespan value, p => { p with lifespan := value }
  | prio value, p => { p with prio := value }
  | start value, p => { p with startsAt := value }
  | acquire rs, p => { p with acquires := p.acquires ++ [rs] }

/-- The tokens of a line spell the property. -/
inductive Spells : Property -> List (List Char) -> Prop
  | lifespan {text : List Char} {value : Nat} (number : Loader.number text = .ok value) :
      Spells (.lifespan value) [Keyword.lifespan, text]
  | prio {text : List Char} {value : Nat} (number : Loader.number text = .ok value) :
      Spells (.prio value) [Keyword.prio, text]
  | start {text : List Char} {value : Nat} (number : Loader.number text = .ok value) :
      Spells (.start value) [Keyword.start, text]
  | acquire {resourceText atText durationText : List Char} {rs : ResourceSchedule}
      (resourceId : Loader.number resourceText = .ok rs.resourceId) (at_ : Loader.number atText = .ok rs.at_)
      (duration : Loader.number durationText = .ok rs.duration) :
      Spells (.acquire rs) [Keyword.acquire, resourceText, atText, durationText]

end Property

/-- What follows the first line of a block.  Without its end nothing comes of it. -/
structure Body where
  properties : List Property
  ended : Bool

namespace Body

def describe (body : Body) (p : Description) : List Description :=
  if body.ended then [body.properties.foldl (fun p property => property.set p) p] else []

/-- The lines spell the properties and then, perhaps, that the block ends. -/
def Spells (body : Body) (lines : List (List (List Char))) : Prop :=
  Exists fun properties => Exists fun rest => List.Forall₂ Property.Spells body.properties properties ∧
    lines = properties ++ if body.ended then [Keyword.end_ :: rest] else []

end Body

/-- The description of a process. -/
structure Block where
  pid : Nat
  body : Body

namespace Block

def describe (block : Block) : List Description := block.body.describe ⟨block.pid, 0, 0, 0, []⟩

def Spells (block : Block) (lines : List (List (List Char))) : Prop :=
  Exists fun text => Exists fun rest => Loader.number text = .ok block.pid ∧ block.body.Spells rest ∧
    lines = [Keyword.process, text] :: rest

end Block

/-- The lines spell one block after the other. -/
def SpellBlocks (blocks : List Block) (lines : List (List (List Char))) : Prop :=
  Exists fun parts => List.Forall₂ Block.Spells blocks parts ∧ lines = parts.flatten

/-! ## One line -/

section Line

variable {loader next : Loader} {tokens : List (List Char)}

/-- What a line does that the loader accepts. -/
inductive Accepted (loader : Loader) : List (List Char) -> Loader -> Prop
  | blank : Accepted loader [] loader
  | process {text : List Char} {pid : Nat} (number : Loader.number text = .ok pid) :
      Accepted loader [Keyword.process, text] (loader.beginProcess pid)
  | end_ {p : Description} (described : loader.p = some p) (rest : List (List Char)) :
      Accepted loader (Keyword.end_ :: rest) { loader with p := none, forkqueue := loader.forkqueue ++ [p] }
  | property {p : Description} (described : loader.p = some p) {property : Property} {tokens : List (List Char)}
      (spells : property.Spells tokens) : Accepted loader tokens { loader with p := some (property.set p) }

theorem describe_ok {change : Description -> Description} (described : loader.describe change = .ok (false, next)) :
    Exists fun p => loader.p = some p ∧ next = { loader with p := some (change p) } := by
  unfold Loader.describe at described
  split at described
  · cases described
  · next p isP =>
      cases described
      exact ⟨p, isP, rfl⟩

private theorem describe_of_some {p : Description} (described : loader.p = some p)
    (change : Description -> Description) :
    loader.describe change = .ok (false, { loader with p := some (change p) }) := by
  unfold Loader.describe
  rw [described]

private theorem property_ok {set : Nat -> Description -> Description}
    (interpreted : loader.property set tokens = .ok (false, next)) :
    Exists fun text => Exists fun value => Exists fun p => tokens = [text] ∧ Loader.number text = .ok value ∧
      loader.p = some p ∧ next = { loader with p := some (set value p) } := by
  unfold Loader.property at interpreted
  split at interpreted
  next text =>
    cases number : Loader.number text with
    | error fault =>
        rw [number] at interpreted
        cases interpreted
    | ok value =>
        rw [number] at interpreted
        rcases describe_ok interpreted with ⟨p, isP, described⟩
        exact ⟨text, value, p, rfl, number, isP, described⟩
  next => cases interpreted

private theorem acquire_ok (interpreted : loader.acquire tokens = .ok (false, next)) :
    Exists fun rs => Exists fun p => Property.Spells (.acquire rs) (Keyword.acquire :: tokens) ∧ loader.p = some p ∧
      next = { loader with p := some ((Property.acquire rs).set p) } := by
  unfold Loader.acquire at interpreted
  split at interpreted
  next resourceText atText durationText =>
    split at interpreted
    next resourceId at_ duration isResource isAt isDuration =>
      rcases describe_ok interpreted with ⟨p, isP, described⟩
      have spells : Property.Spells (.acquire ⟨resourceId, at_, duration⟩) _ := .acquire isResource isAt isDuration
      exact ⟨_, p, spells, isP, described⟩
    next => cases interpreted
  next => cases interpreted

private theorem process_ok (interpreted : loader.process tokens = .ok (false, next)) :
    Exists fun text => Exists fun pid => tokens = [text] ∧ Loader.number text = .ok pid ∧
      next = loader.beginProcess pid := by
  unfold Loader.process at interpreted
  split at interpreted
  next text =>
    cases number : Loader.number text with
    | error fault =>
        rw [number] at interpreted
        cases interpreted
    | ok pid =>
        rw [number] at interpreted
        cases interpreted
        exact ⟨text, pid, rfl, number, rfl⟩
  next => cases interpreted

private theorem endProcess_ok (interpreted : loader.endProcess = .ok (false, next)) :
    Exists fun p => loader.p = some p ∧
      next = { loader with p := none, forkqueue := loader.forkqueue ++ [p] } := by
  unfold Loader.endProcess at interpreted
  split at interpreted
  next => cases interpreted
  next p isP =>
    cases interpreted
    exact ⟨p, isP, rfl⟩

theorem interpret_cons (loader : Loader) (keyword : List Char) (arguments : List (List Char)) :
    loader.interpret (keyword :: arguments) =
      if strmatch keyword Keyword.process then loader.process arguments
      else if strmatch keyword Keyword.end_ then loader.endProcess
      else if strmatch keyword Keyword.lifespan then
        loader.property (fun value p => { p with lifespan := value }) arguments
      else if strmatch keyword Keyword.prio then loader.property (fun value p => { p with prio := value }) arguments
      else if strmatch keyword Keyword.start then
        loader.property (fun value p => { p with startsAt := value }) arguments
      else if strmatch keyword Keyword.acquire then loader.acquire arguments
      else .ok (true, loader) := rfl

private theorem interpret_ok (interpreted : loader.interpret tokens = .ok (false, next)) :
    Accepted loader tokens next := by
  cases tokens with
  | nil =>
      cases interpreted
      exact .blank
  | cons keyword arguments =>
      rw [interpret_cons] at interpreted
      split at interpreted
      next isProcess =>
        rcases process_ok interpreted with ⟨text, pid, rfl, number, rfl⟩
        rw [strmatch_iff.mp isProcess]
        exact .process number
      next =>
      split at interpreted
      next isEnd =>
        rcases endProcess_ok interpreted with ⟨p, isP, rfl⟩
        rw [strmatch_iff.mp isEnd]
        exact .end_ isP arguments
      next =>
      split at interpreted
      next isLifespan =>
        rcases property_ok interpreted with ⟨text, value, p, rfl, number, isP, rfl⟩
        rw [strmatch_iff.mp isLifespan]
        exact .property isP (.lifespan number)
      next =>
      split at interpreted
      next isPrio =>
        rcases property_ok interpreted with ⟨text, value, p, rfl, number, isP, rfl⟩
        rw [strmatch_iff.mp isPrio]
        exact .property isP (.prio number)
      next =>
      split at interpreted
      next isStart =>
        rcases property_ok interpreted with ⟨text, value, p, rfl, number, isP, rfl⟩
        rw [strmatch_iff.mp isStart]
        exact .property isP (.start number)
      next =>
      split at interpreted
      next isAcquire =>
        rcases acquire_ok interpreted with ⟨rs, p, spells, isP, rfl⟩
        rw [strmatch_iff.mp isAcquire]
        exact .property isP spells
      next => cases interpreted

private theorem Accepted.interpret (accepted : Accepted loader tokens next) :
    loader.interpret tokens = .ok (false, next) := by
  cases accepted with
  | blank => rfl
  | process number =>
      rw [interpret_cons, if_pos (strmatch_iff.mpr rfl), Loader.process, number]
  | end_ described rest =>
      rw [interpret_cons, if_neg (by decide), if_pos (strmatch_iff.mpr rfl), Loader.endProcess, described]
  | property described spells =>
      cases spells with
      | lifespan number =>
          rw [interpret_cons, if_neg (by decide), if_neg (by decide), if_pos (strmatch_iff.mpr rfl), Loader.property,
            number]
          exact describe_of_some described _
      | prio number =>
          rw [interpret_cons, if_neg (by decide), if_neg (by decide), if_neg (by decide),
            if_pos (strmatch_iff.mpr rfl), Loader.property, number]
          exact describe_of_some described _
      | start number =>
          rw [interpret_cons, if_neg (by decide), if_neg (by decide), if_neg (by decide), if_neg (by decide),
            if_pos (strmatch_iff.mpr rfl), Loader.property, number]
          exact describe_of_some described _
      | acquire resourceId at_ duration =>
          rw [interpret_cons, if_neg (by decide), if_neg (by decide), if_neg (by decide), if_neg (by decide),
            if_neg (by decide), if_pos (strmatch_iff.mpr rfl), Loader.acquire, resourceId, at_, duration]
          exact describe_of_some described _

/-- Processes are only added to the fork queue. -/
private theorem Accepted.grows (accepted : Accepted loader tokens next) :
    Exists fun more => next.forkqueue = loader.forkqueue ++ more := by
  cases accepted with
  | end_ described rest => exact ⟨_, rfl⟩
  | blank => exact ⟨[], (List.append_nil _).symm⟩
  | process number => exact ⟨[], (List.append_nil _).symm⟩
  | property described spells => exact ⟨[], (List.append_nil _).symm⟩

theorem interpret_iff : loader.interpret tokens = .ok (false, next) ↔ Accepted loader tokens next :=
  ⟨interpret_ok, Accepted.interpret⟩

end Line

/-! ## The lines after one another -/

/-- What is loaded from the lines, from some process under description on. -/
inductive Loads : Option Description -> List (List (List Char)) -> List Description -> Prop
  | done (p : Option Description) : Loads p [] []
  | process {p : Option Description} {text : List Char} {pid : Nat} {lines : List (List (List Char))}
      {script : List Description} (number : Loader.number text = .ok pid)
      (rest : Loads (some ⟨pid, 0, 0, 0, []⟩) lines script) : Loads p ([Keyword.process, text] :: lines) script
  | end_ {p : Description} {lines : List (List (List Char))} {script : List Description}
      (tokens : List (List Char)) (rest : Loads none lines script) :
      Loads (some p) ((Keyword.end_ :: tokens) :: lines) (p :: script)
  | property {p : Description} {property : Property} {tokens : List (List Char)} {lines : List (List (List Char))}
      {script : List Description} (spells : property.Spells tokens)
      (rest : Loads (some (property.set p)) lines script) :
      Loads (some p) (tokens :: lines) script

section Lines

variable {p : Option Description} {lines : List (List (List Char))} {script : List Description}

private theorem Property.Spells.cons {property : Property} {tokens : List (List Char)}
    (spells : property.Spells tokens) : tokens ≠ [] := by
  cases spells <;> exact List.cons_ne_nil _ _

/-- Without its end, nothing comes of a block. -/
private theorem SpellBlocks.nil : SpellBlocks [] [] := ⟨[], .nil, rfl⟩

private theorem SpellBlocks.cons {blocks : List Block} {block : Block} {first : List (List (List Char))}
    (spells : block.Spells first) (rest : SpellBlocks blocks lines) :
    SpellBlocks (block :: blocks) (first ++ lines) := by
  rcases rest with ⟨parts, spelled, rfl⟩
  exact ⟨first :: parts, .cons spells spelled, rfl⟩

/-- The lines spell blocks and the script is what these describe.  If there is a
process under description, the first lines belong to its block. -/
def Spelled (lines : List (List (List Char))) (script : List Description) : Option Description -> Prop
  | none => Exists fun blocks => SpellBlocks blocks lines ∧ script = blocks.flatMap Block.describe
  | some p => Exists fun body : Body => Exists fun blocks => Exists fun first => Exists fun rest =>
      body.Spells first ∧ SpellBlocks blocks rest ∧ lines = first ++ rest ∧
        script = body.describe p ++ blocks.flatMap Block.describe

private theorem Loads.nil (loads : Loads p [] script) : script = [] := by
  cases loads
  rfl

private theorem Loads.spelled (loads : Loads p lines script) : Spelled lines script p := by
  have ends : Body.Spells ⟨[], false⟩ [] := ⟨[], [], .nil, rfl⟩
  induction loads with
  | done p =>
      cases p with
      | none => exact ⟨[], .nil, rfl⟩
      | some p => exact ⟨⟨[], false⟩, [], [], [], ends, .nil, rfl, rfl⟩
  | @process p text pid lines script number _ inductionHypothesis =>
      rcases inductionHypothesis with ⟨body, blocks, first, rest, spells, spelled, rfl, rfl⟩
      have block : Block.Spells ⟨pid, body⟩ ([Keyword.process, text] :: first) := ⟨text, first, number, spells, rfl⟩
      have all := SpellBlocks.cons block spelled
      cases p with
      | none => exact ⟨⟨pid, body⟩ :: blocks, all, rfl⟩
      | some p => exact ⟨⟨[], false⟩, ⟨pid, body⟩ :: blocks, [], _, ends, all, rfl, rfl⟩
  | @end_ p lines script tokens _ inductionHypothesis =>
      rcases inductionHypothesis with ⟨blocks, spelled, rfl⟩
      have body : Body.Spells ⟨[], true⟩ [Keyword.end_ :: tokens] := ⟨[], tokens, .nil, rfl⟩
      exact ⟨⟨[], true⟩, blocks, _, lines, body, spelled, rfl, rfl⟩
  | @property p property tokens lines script spells _ inductionHypothesis =>
      rcases inductionHypothesis with ⟨body, blocks, first, rest, spells', spelled, rfl, rfl⟩
      rcases spells' with ⟨properties, ending, spelled', rfl⟩
      have longer : Body.Spells ⟨property :: body.properties, body.ended⟩
          (tokens :: (properties ++ if body.ended then [Keyword.end_ :: ending] else [])) :=
        ⟨tokens :: properties, ending, .cons spells spelled', rfl⟩
      exact ⟨⟨property :: body.properties, body.ended⟩, blocks, _, rest, longer, spelled, rfl, rfl⟩

/-- The lines of a block are loaded one after the other. -/
private theorem Body.Spells.loads {body : Body} {first : List (List (List Char))} {p : Description}
    (spells : body.Spells first) (rest : forall p, Loads p lines script) :
    Loads (some p) (first ++ lines) (body.describe p ++ script) := by
  rcases body with ⟨properties, ended⟩
  rcases spells with ⟨parts, ending, spelled, rfl⟩
  unfold Body.describe
  dsimp only at spelled ⊢
  induction spelled generalizing p with
  | nil =>
      cases ended with
      | false => exact rest _
      | true => exact .end_ ending (rest none)
  | cons spells _ inductionHypothesis => exact .property spells inductionHypothesis

private theorem SpellBlocks.loads {blocks : List Block} (spelled : SpellBlocks blocks lines) (p : Option Description) :
    Loads p lines (blocks.flatMap Block.describe) := by
  rcases spelled with ⟨parts, spelled, rfl⟩
  induction spelled generalizing p with
  | nil => exact .done p
  | cons spells _ inductionHypothesis =>
      rcases spells with ⟨text, first, number, body, rfl⟩
      exact .process number (body.loads inductionHypothesis)

private theorem loads_iff : Loads none lines script ↔
    Exists fun blocks => SpellBlocks blocks lines ∧ script = blocks.flatMap Block.describe := by
  constructor
  · exact Loads.spelled
  · rintro ⟨blocks, spelled, rfl⟩
    exact spelled.loads none

/-- The first line is accepted, and the others are loaded. -/
theorem loads_cons (loader : Loader) {tokens : List (List Char)} (nonempty : tokens ≠ []) :
    Loads loader.p (tokens :: lines) script ↔ Exists fun next => Accepted loader tokens next ∧
      Exists fun rest => Loads next.p lines rest ∧ next.forkqueue ++ rest = loader.forkqueue ++ script := by
  constructor
  · intro loads
    generalize isP : loader.p = p at loads
    cases loads with
    | process number rest => exact ⟨_, .process number, script, rest, rfl⟩
    | end_ tokens rest => exact ⟨_, .end_ isP tokens, _, rest, List.append_assoc ..⟩
    | property spells rest => exact ⟨_, .property isP spells, script, rest, rfl⟩
  · rintro ⟨next, accepted, rest, loads, same⟩
    cases accepted with
    | blank => exact absurd rfl nonempty
    | process number =>
        rw [List.append_cancel_left same] at loads
        exact .process number loads
    | end_ described tokens =>
        rw [List.append_assoc, List.singleton_append] at same
        rw [← List.append_cancel_left same, described]
        exact .end_ tokens loads
    | property described spells =>
        rw [List.append_cancel_left same] at loads
        rw [described]
        exact .property spells loads

end Lines

/-! ## Files -/

/-- The lines of a file that have tokens. -/
def tokenLines (pieces : List (List Char)) : List (List (List Char)) := (pieces.map pieceTokens).filter fun tokens =>
  !tokens.isEmpty

section Files

variable {loader : Loader} {piece : List Char} {pieces : List (List Char)} {script : List Description}

theorem tokenLines_cons_of_nil (blank : pieceTokens piece = []) (pieces : List (List Char)) :
    tokenLines (piece :: pieces) = tokenLines pieces := by
  unfold tokenLines
  rw [List.map_cons, blank]
  exact List.filter_cons_of_neg Bool.false_ne_true

theorem tokenLines_cons_of_ne_nil (nonempty : pieceTokens piece ≠ []) (pieces : List (List Char)) :
    tokenLines (piece :: pieces) = pieceTokens piece :: tokenLines pieces := by
  unfold tokenLines
  rw [List.map_cons]
  refine List.filter_cons_of_pos ?_
  rw [List.isEmpty_eq_false_iff.mpr nonempty]
  rfl

private theorem tokenLines_map_writeLine {lines : List (List (List Char))}
    (writable : forall tokens, tokens ∈ lines -> Writable tokens) : tokenLines (lines.map writeLine) = lines := by
  induction lines with
  | nil => rfl
  | cons tokens lines inductionHypothesis =>
      rcases List.forall_mem_cons.mp writable with ⟨first, later⟩
      have read := first.pieceTokens_writeLine
      have nonempty : pieceTokens (writeLine tokens) ≠ [] := by
        rw [read]
        exact first.nonempty
      rw [List.map_cons, tokenLines_cons_of_ne_nil nonempty, read, inductionHypothesis later]

private theorem round_of_many (loader : Loader) (many : maxNrTokens < (pieceWords piece).length) :
    loader.round piece = .error (.parser .tokensOutOfBounds) := by
  rcases parseCommand_piece piece (loader.line.drop (piece.length + 1)) with ⟨_, faults⟩ | ⟨few, _⟩
  · unfold Loader.round store
    rw [faults]
  · exact absurd many (Nat.not_lt.mpr few)

/-- What is left in the buffer does not matter. -/
theorem round_of_few (loader : Loader) (few : (pieceWords piece).length ≤ maxNrTokens) :
    Exists fun line => loader.round piece = { loader with line := line }.interpret (pieceTokens piece) := by
  rcases parseCommand_piece piece (loader.line.drop (piece.length + 1)) with ⟨many, _⟩ | ⟨_, parsed, succeeds, texts⟩
  · exact absurd many (Nat.not_lt.mpr few)
  · refine ⟨parsed.command, ?_⟩
    unfold Loader.round store
    rw [succeeds]
    dsimp only
    rw [texts]

/-- A run that the loader accepts has loaded what its lines describe. -/
private theorem run_loads {outputs : List Bool} {final : Loader}
    (ran : Loader.machine.run pieces loader = .ok (outputs, final)) (accepts : outputs.any id = false) :
    (forall piece, piece ∈ pieces -> (pieceWords piece).length ≤ maxNrTokens) ∧
      Exists fun script => Loads loader.p (tokenLines pieces) script ∧
        final.forkqueue = loader.forkqueue ++ script := by
  induction pieces generalizing loader outputs with
  | nil =>
      cases ran
      exact ⟨List.forall_mem_nil _, [], .done _, (List.append_nil _).symm⟩
  | cons piece pieces inductionHypothesis =>
      rcases Loader.machine.run_cons_ok ran with ⟨output, next, stepped, ⟨ended, rfl, _⟩ | ⟨goesOn, rest, ran', rfl⟩⟩
      · have stops : output = true := ended
        rw [stops] at accepts
        cases accepts
      have isFalse : output = false := goesOn
      rw [isFalse] at stepped accepts
      rcases inductionHypothesis ran' accepts with ⟨fewLater, later, loads, loaded⟩
      have few : (pieceWords piece).length ≤ maxNrTokens := by
        by_contra many
        have faults : loader.round piece = _ := round_of_many loader (Nat.lt_of_not_le many)
        rw [show loader.round piece = _ from stepped] at faults
        cases faults
      rcases round_of_few loader few with ⟨line, interpreted⟩
      have accepted := interpret_iff.mp (interpreted.symm.trans stepped)
      refine ⟨List.forall_mem_cons.mpr ⟨few, fewLater⟩, ?_⟩
      by_cases blank : pieceTokens piece = []
      · rw [tokenLines_cons_of_nil blank]
        rw [blank] at accepted
        cases accepted with
        | blank => exact ⟨later, loads, loaded⟩
        | property _ spells => exact absurd rfl spells.cons
      · rw [tokenLines_cons_of_ne_nil blank]
        rcases accepted.grows with ⟨more, grown⟩
        refine ⟨more ++ later, (loads_cons { loader with line := line } blank).mpr
          ⟨next, accepted, later, loads, ?_⟩, ?_⟩
        · rw [grown, List.append_assoc]
        · rw [loaded, grown, List.append_assoc]

/-- Lines that describe processes are loaded. -/
theorem Loads.run (loader : Loader) (few : forall piece, piece ∈ pieces -> (pieceWords piece).length ≤ maxNrTokens)
    (loads : Loads loader.p (tokenLines pieces) script) :
    Exists fun outputs => Exists fun final => Loader.machine.run pieces loader = .ok (outputs, final) ∧
      outputs.any id = false ∧ final.forkqueue = loader.forkqueue ++ script := by
  induction pieces generalizing loader script with
  | nil =>
      have nothing : script = [] := loads.nil
      rw [nothing]
      exact ⟨[], loader, rfl, rfl, (List.append_nil _).symm⟩
  | cons piece pieces inductionHypothesis =>
      rcases List.forall_mem_cons.mp few with ⟨fewHere, fewLater⟩
      rcases round_of_few loader fewHere with ⟨line, interpreted⟩
      have first : Exists fun next => Accepted { loader with line := line } (pieceTokens piece) next ∧
          Exists fun rest => Loads next.p (tokenLines pieces) rest ∧
            next.forkqueue ++ rest = loader.forkqueue ++ script := by
        by_cases blank : pieceTokens piece = []
        · rw [tokenLines_cons_of_nil blank] at loads
          exact ⟨{ loader with line := line }, blank ▸ .blank, script, loads, rfl⟩
        · rw [tokenLines_cons_of_ne_nil blank] at loads
          exact (loads_cons { loader with line := line } blank).mp loads
      rcases first with ⟨next, accepted, rest, later, same⟩
      have stepped : Loader.machine.step piece loader = .ok (false, next) :=
        interpreted.trans (interpret_iff.mpr accepted)
      rcases inductionHypothesis next fewLater later with ⟨outputs, final, ran, accepts, loaded⟩
      refine ⟨false :: outputs, final, ?_, accepts, loaded.trans same⟩
      rw [Loader.machine.run_cons pieces stepped rfl, ran]
      rfl

theorem load_of_loads {file : List Char} (line : List Char)
    (few : forall piece, piece ∈ fgets file -> (pieceWords piece).length ≤ maxNrTokens)
    (loads : Loads none (tokenLines (fgets file)) script) : loadScript line file = .ok (true, script) := by
  rcases Loads.run ⟨line, none, []⟩ few loads with ⟨outputs, final, ran, accepts, loaded⟩
  unfold loadScript
  rw [ran]
  dsimp only
  rw [accepts, loaded]
  rfl

/-- The loader accepts the files that are written in the language of scripts, and it
loads what they describe. -/
theorem load_script_iff (line file : List Char) (script : Script) :
    loadScript line file = .ok (true, script) ↔
      (forall piece, piece ∈ fgets file -> (pieceWords piece).length ≤ maxNrTokens) ∧
        Exists fun blocks => SpellBlocks blocks (tokenLines (fgets file)) ∧
          script = blocks.flatMap Block.describe := by
  rw [← loads_iff]
  constructor
  · intro loaded
    unfold loadScript at loaded
    split at loaded
    next => cases loaded
    next outputs final ran =>
      rw [Except.ok.injEq, Prod.mk.injEq, Bool.not_eq_true'] at loaded
      rcases run_loads ran loaded.1 with ⟨few, script', loads, isScript⟩
      rw [← loaded.2, isScript]
      exact ⟨few, loads⟩
  · rintro ⟨few, loads⟩
    exact load_of_loads line few loads

end Files

/-! ## Scripts as files -/

/-- The line of an entry of the schedule. -/
def ResourceSchedule.line (rs : ResourceSchedule) : List (List Char) :=
  [Keyword.acquire, spelling rs.resourceId, spelling rs.at_, spelling rs.duration]

/-- The lines that describe a process. -/
def Description.lines (p : Description) : List (List (List Char)) :=
  [Keyword.process, spelling p.pid] :: [Keyword.lifespan, spelling p.lifespan] :: [Keyword.prio, spelling p.prio] ::
    [Keyword.start, spelling p.startsAt] :: (p.acquires.map ResourceSchedule.line ++ [[Keyword.end_]])

/-- A file that describes the processes of a script. -/
def writeScript (script : Script) : List Char := writeLines (script.flatMap Description.lines)

/-- The numbers of a description fit into an `unsigned int`. -/
structure Description.Words (p : Description) : Prop where
  pid : p.pid < Word.size
  lifespan : p.lifespan < Word.size
  prio : p.prio < Word.size
  startsAt : p.startsAt < Word.size
  acquires : forall rs, rs ∈ p.acquires -> rs.resourceId < Word.size ∧ rs.at_ < Word.size ∧ rs.duration < Word.size

section Written

variable {value : Nat} {p : Description} {script : Script}

theorem number_spelling (isWord : value < Word.size) : Loader.number (spelling value) = .ok value := by
  rcases atoi_spelling isWord with ⟨number, read, same⟩
  unfold Loader.number
  rw [read]
  dsimp only
  rw [same]

/-- The keywords of the script. -/
def keywords : List (List Char) :=
  [Keyword.process, Keyword.end_, Keyword.lifespan, Keyword.prio, Keyword.start, Keyword.acquire]

private theorem plain_keyword {keyword : List Char} (member : keyword ∈ keywords) :
    Plain keyword ∧ keyword.length ≤ 8 := by
  have general : forall keyword, keyword ∈ keywords -> isPlain keyword = true ∧ keyword.length ≤ 8 := by decide
  exact ⟨plain_of_isPlain (general keyword member).1, (general keyword member).2⟩

/-- A keyword and at most three numbers fit into a line. -/
private theorem writable_line (keyword : List Char) (member : keyword ∈ keywords) (values : List Nat)
    (few : values.length ≤ 3) (fit : forall value, value ∈ values -> value < Word.size) :
    Writable (keyword :: values.map spelling) := by
  rcases plain_keyword member with ⟨plain, short⟩
  refine ⟨List.cons_ne_nil _ _, List.forall_mem_cons.mpr ⟨plain, fun token isToken => ?_⟩, ?_, ?_⟩
  · rcases List.mem_map.mp isToken with ⟨value, _, rfl⟩
    exact plain_spelling value
  · rw [List.length_cons, List.length_map]
    unfold maxNrTokens
    omega
  · have words : forall token, token ∈ keyword :: values.map spelling -> token.length ≤ 11 := by
      refine List.forall_mem_cons.mpr ⟨Nat.le_trans short (by decide), fun token isToken => ?_⟩
      rcases List.mem_map.mp isToken with ⟨value, isValue, rfl⟩
      exact length_spelling_le (fit value isValue)
    have length := length_intercalate_le ' ' words
    rw [List.length_cons, List.length_map] at length
    unfold maxCommandLen
    omega

private theorem Description.Words.writable (fits : p.Words) : forall tokens, tokens ∈ p.lines -> Writable tokens := by
  have number {keyword : List Char} (member : keyword ∈ keywords) {value : Nat} (fits : value < Word.size) :
      Writable [keyword, spelling value] :=
    writable_line _ member [value] (Nat.le_add_left 1 2) (List.forall_mem_singleton.mpr fits)
  have ending : Writable [Keyword.end_] :=
    writable_line _ (by decide) [] (by decide) (List.forall_mem_nil _)
  have acquire : forall rs, rs ∈ p.acquires -> Writable rs.line := by
    intro rs member
    rcases fits.acquires rs member with ⟨resourceId, at_, duration⟩
    refine writable_line Keyword.acquire (by decide) [rs.resourceId, rs.at_, rs.duration]
      (Nat.le_refl 3) ?_
    exact List.forall_mem_cons.mpr ⟨resourceId, List.forall_mem_cons.mpr ⟨at_, List.forall_mem_singleton.mpr duration⟩⟩
  refine List.forall_mem_cons.mpr ⟨number (by decide) fits.pid, ?_⟩
  refine List.forall_mem_cons.mpr ⟨number (by decide) fits.lifespan, ?_⟩
  refine List.forall_mem_cons.mpr ⟨number (by decide) fits.prio, ?_⟩
  refine List.forall_mem_cons.mpr ⟨number (by decide) fits.startsAt, ?_⟩
  refine List.forall_mem_append.mpr ⟨fun tokens member => ?_, List.forall_mem_singleton.mpr ending⟩
  rcases List.mem_map.mp member with ⟨rs, isRs, rfl⟩
  exact acquire rs isRs

/-- The acquires are added to the schedule in their order. -/
private theorem Loads.acquires {p : Description} {acquires : List ResourceSchedule} {lines : List (List (List Char))}
    (fit : forall rs, rs ∈ acquires -> rs.resourceId < Word.size ∧ rs.at_ < Word.size ∧ rs.duration < Word.size)
    (rest : Loads (some { p with acquires := p.acquires ++ acquires }) lines script) :
    Loads (some p) (acquires.map ResourceSchedule.line ++ lines) script := by
  induction acquires generalizing p with
  | nil =>
      rw [List.append_nil] at rest
      exact rest
  | cons rs acquires inductionHypothesis =>
      rcases List.forall_mem_cons.mp fit with ⟨⟨resourceId, at_, duration⟩, later⟩
      have spells : Property.Spells (.acquire rs) rs.line :=
        .acquire (number_spelling resourceId) (number_spelling at_) (number_spelling duration)
      refine .property spells (inductionHypothesis later ?_)
      have both : p.acquires ++ [rs] ++ acquires = p.acquires ++ rs :: acquires :=
        List.append_assoc p.acquires [rs] acquires
      unfold Property.set
      dsimp only
      rw [both]
      exact rest

private theorem Description.Words.loads (fits : p.Words) {lines : List (List (List Char))}
    (rest : Loads none lines script) : Loads none (p.lines ++ lines) (p :: script) := by
  refine .process (number_spelling fits.pid) ?_
  refine .property (.lifespan (number_spelling fits.lifespan)) ?_
  refine .property (.prio (number_spelling fits.prio)) ?_
  refine .property (.start (number_spelling fits.startsAt)) ?_
  change Loads _ (p.acquires.map ResourceSchedule.line ++ [[Keyword.end_]] ++ lines) _
  rw [List.append_assoc]
  exact .acquires fits.acquires (.end_ [] rest)

/-- A script that has been written to a file is loaded from it. -/
theorem written_script_loads (line : List Char) (fits : forall p, p ∈ script -> p.Words) :
    loadScript line (writeScript script) = .ok (true, script) := by
  have writable : forall tokens, tokens ∈ script.flatMap Description.lines -> Writable tokens := by
    intro tokens member
    rcases List.mem_flatMap.mp member with ⟨p, isProcess, isLine⟩
    exact (fits p isProcess).writable tokens isLine
  have pieces : fgets (writeScript script) = (script.flatMap Description.lines).map writeLine :=
    fgets_writeLines writable
  refine load_of_loads line ?_ ?_
  · rw [pieces]
    intro piece member
    rcases List.mem_map.mp member with ⟨tokens, isLine, rfl⟩
    rw [(writable tokens isLine).pieceWords_writeLine]
    exact (writable tokens isLine).few
  · rw [pieces, tokenLines_map_writeLine writable]
    clear writable pieces
    induction script with
    | nil => exact .done none
    | cons p script inductionHypothesis =>
        rcases List.forall_mem_cons.mp fits with ⟨first, later⟩
        exact first.loads (inductionHypothesis later)

/-- The first process has the largest `prio`. -/
def twoProcesses : Script := [⟨1, 4, 4294967295, 0, [⟨1, 0, 2⟩]⟩, ⟨2, 3, 0, 1, []⟩]

theorem written_script_loads_two : loadScript [] (writeScript twoProcesses) = .ok (true, twoProcesses) :=
  written_script_loads [] (List.forall_mem_cons.mpr
    ⟨⟨by decide, by decide, by decide, by decide, by decide⟩, List.forall_mem_singleton.mpr
      ⟨by decide, by decide, by decide, by decide, by decide⟩⟩)

end Written
end Sched
end OsPa
