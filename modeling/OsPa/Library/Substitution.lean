import Mathlib.Data.List.Induction
import Mathlib.Data.List.Nodup

/-!
# Substituting in place

Rules replace a name by words.  At once, each word of a text is replaced by the
words of the rule for it.  In place, one rule is applied after another by a walk
over the text as it is by then: where the walk meets the name it puts in the
words, and it goes on behind the place where the name was, among the words that
it has put in.  The walks come to the same as the substitution at once, without
replacing a word that a rule has put in, exactly if the rules are `Independent`.
-/

namespace OsPa
namespace Library

universe u

structure Rule (Word : Type u) where
  name : Word
  words : List Word
  deriving DecidableEq

/-- A word of the text, or one that a rule has put in. -/
structure Token (Word : Type u) where
  word : Word
  inserted : Bool

variable {Word : Type u}

/-- Words that are put in. -/
def insertion (words : List Word) : List (Token Word) := words.map fun word => ⟨word, true⟩

theorem inserted_of_mem_insertion {words : List Word} {token : Token Word} (put : token ∈ insertion words) :
    token.inserted = true := by
  rcases List.mem_map.mp put with ⟨word, _, rfl⟩
  rfl

theorem map_insertion (words : List Word) : (insertion words).map Token.word = words := by
  unfold insertion
  rw [List.map_map]
  exact List.map_id words

def originals (text : List Word) : List (Token Word) := text.map fun word => ⟨word, false⟩

theorem map_originals (text : List Word) : (originals text).map Token.word = text := by
  unfold originals
  rw [List.map_map]
  exact List.map_id text

/-- The walk of a rule: what is behind it, what is in front of it, what it ends
with, and whether it replaces a word that a rule has put in.  A rule puts in less
than `limit` words at a time. -/
inductive Walk (rule : Rule Word) (limit : Nat) :
    List (Token Word) -> List (Token Word) -> List (Token Word) -> Bool -> Prop
  | done (before : List (Token Word)) : Walk rule limit before [] before false
  | pass {before todo after : List (Token Word)} {token : Token Word} {again : Bool} (other : token.word ≠ rule.name)
      (rest : Walk rule limit (before ++ [token]) todo after again) : Walk rule limit before (token :: todo) after again
  | replace {before todo after : List (Token Word)} {token : Token Word} {again : Bool} (same : token.word = rule.name)
      (fits : rule.words.length < limit)
      (rest : Walk rule limit (before ++ (insertion rule.words ++ todo).take 1) ((insertion rule.words ++ todo).drop 1)
        after again) :
      Walk rule limit before (token :: todo) after (token.inserted || again)

/-- The walks of the rules one after another. -/
inductive Walks (limit : Nat) : List (Rule Word) -> List (Token Word) -> List (Token Word) -> Bool -> Prop
  | nil (tokens : List (Token Word)) : Walks limit [] tokens tokens false
  | cons {rule : Rule Word} {rules : List (Rule Word)} {tokens middle after : List (Token Word)} {again again' : Bool}
      (walk : Walk rule limit [] tokens middle again) (rest : Walks limit rules middle after again') :
      Walks limit (rule :: rules) tokens after (again || again')

section Walk

variable {rule : Rule Word} {limit : Nat} {before todo after : List (Token Word)} {token : Token Word} {again : Bool}

/-- What is behind the walk stays. -/
theorem Walk.mem_of_before (walk : Walk rule limit before todo after again) (behind : token ∈ before) :
    token ∈ after := by
  induction walk with
  | done before => exact behind
  | pass other rest inductionHypothesis => exact inductionHypothesis (List.mem_append_left _ behind)
  | replace same fits rest inductionHypothesis => exact inductionHypothesis (List.mem_append_left _ behind)

/-- Other words stay. -/
theorem Walk.mem_of_ne (walk : Walk rule limit before todo after again) (other : token.word ≠ rule.name)
    (ahead : token ∈ todo) : token ∈ after := by
  induction walk with
  | done before => exact absurd ahead List.not_mem_nil
  | pass _ rest inductionHypothesis =>
      rcases List.mem_cons.mp ahead with rfl | later
      · exact rest.mem_of_before (List.mem_append_right _ List.mem_cons_self)
      · exact inductionHypothesis later
  | @replace before todo after replaced again same fits rest inductionHypothesis =>
      have later : token ∈ todo := by
        rcases List.mem_cons.mp ahead with rfl | later
        · exact absurd same other
        · exact later
      have split : token ∈ (insertion rule.words ++ todo).take 1 ++ (insertion rule.words ++ todo).drop 1 := by
        rw [List.take_append_drop]
        exact List.mem_append_right _ later
      rcases List.mem_append.mp split with behind | further
      · exact rest.mem_of_before (List.mem_append_right _ behind)
      · exact inductionHypothesis further

/-- No words of the text are added. -/
theorem Walk.mem_of_original (walk : Walk rule limit before todo after again) (left : token ∈ after)
    (original : token.inserted = false) : token ∈ before ++ todo := by
  induction walk with
  | done before =>
      rw [List.append_nil]
      exact left
  | pass other rest inductionHypothesis =>
      have earlier := inductionHypothesis left
      rw [List.append_assoc] at earlier
      exact earlier
  | @replace before todo after replaced again same fits rest inductionHypothesis =>
      have earlier := inductionHypothesis left
      rw [List.append_assoc, List.take_append_drop, ← List.append_assoc] at earlier
      rcases List.mem_append.mp earlier with earlier | later
      · rcases List.mem_append.mp earlier with behind | put
        · exact List.mem_append_left _ behind
        · exact absurd (original.symm.trans (inserted_of_mem_insertion put)) Bool.false_ne_true
      · exact List.mem_append_right _ (List.mem_cons_of_mem _ later)

theorem Walk.unique {other : List (Token Word)} {again' : Bool} (walk : Walk rule limit before todo after again)
    (also : Walk rule limit before todo other again') : after = other ∧ again = again' := by
  induction walk generalizing again' with
  | done before =>
      cases also
      exact ⟨rfl, rfl⟩
  | pass unnamed rest inductionHypothesis =>
      cases also with
      | pass _ rest' => exact inductionHypothesis rest'
      | replace same => exact absurd same unnamed
  | replace same fits rest inductionHypothesis =>
      cases also with
      | pass unnamed => exact absurd same unnamed
      | replace _ _ rest' =>
          rcases inductionHypothesis rest' with ⟨rfl, rfl⟩
          exact ⟨rfl, rfl⟩

/-- A walk passes over words that are not the name. -/
theorem Walk.passes {segment : List (Token Word)} (others : forall token, token ∈ segment -> token.word ≠ rule.name)
    (rest : Walk rule limit (before ++ segment) todo after again) :
    Walk rule limit before (segment ++ todo) after again := by
  induction segment generalizing before with
  | nil =>
      rw [List.append_nil] at rest
      exact rest
  | cons token segment inductionHypothesis =>
      apply Walk.pass (others token List.mem_cons_self)
      apply inductionHypothesis fun token later => others token (List.mem_cons_of_mem _ later)
      rw [List.append_assoc]
      exact rest

end Walk

section Walks

variable {rules : List (Rule Word)} {limit : Nat} {tokens after : List (Token Word)} {token : Token Word} {again : Bool}

theorem Walks.of_cons {rule : Rule Word} (walks : Walks limit (rule :: rules) tokens after again) :
    Exists fun middle => Exists fun first => Exists fun others => Walk rule limit [] tokens middle first ∧
      Walks limit rules middle after others ∧ again = (first || others) := by
  cases walks with
  | cons walk rest => exact ⟨_, _, _, walk, rest, rfl⟩

theorem Walks.unique {other : List (Token Word)} {again' : Bool} (walks : Walks limit rules tokens after again)
    (also : Walks limit rules tokens other again') : after = other ∧ again = again' := by
  induction walks generalizing again' with
  | nil tokens =>
      cases also
      exact ⟨rfl, rfl⟩
  | cons walk rest inductionHypothesis =>
      rcases also.of_cons with ⟨_, _, _, walk', rest', never⟩
      rcases walk.unique walk' with ⟨rfl, rfl⟩
      rcases inductionHypothesis rest' with ⟨rfl, rfl⟩
      exact ⟨rfl, never.symm⟩

theorem Walks.mem_of_original (walks : Walks limit rules tokens after again) (left : token ∈ after)
    (original : token.inserted = false) : token ∈ tokens := by
  induction walks with
  | nil tokens => exact left
  | cons walk rest inductionHypothesis => exact walk.mem_of_original (inductionHypothesis left) original

theorem Walks.mem_of_ne (walks : Walks limit rules tokens after again)
    (others : forall rule, rule ∈ rules -> token.word ≠ rule.name) (ahead : token ∈ tokens) : token ∈ after := by
  induction walks with
  | nil tokens => exact ahead
  | cons walk rest inductionHypothesis =>
      apply inductionHypothesis fun rule member => others rule (List.mem_cons_of_mem _ member)
      exact walk.mem_of_ne (others _ List.mem_cons_self) ahead

end Walks

theorem insertion_of_nil {rule : Rule Word} (words : rule.words = []) (todo : List (Token Word)) :
    insertion rule.words ++ todo = todo := by
  rw [words]
  rfl

/-- The walk goes on behind the first word that it has put in. -/
theorem insertion_split {rule : Rule Word} {first : Word} {rest : List Word} (words : rule.words = first :: rest)
    (todo : List (Token Word)) :
    (insertion rule.words ++ todo).take 1 = [⟨first, true⟩] ∧
      (insertion rule.words ++ todo).drop 1 = insertion rest ++ todo ∧
        insertion rule.words = ⟨first, true⟩ :: insertion rest := by
  rw [words]
  exact ⟨rfl, rfl, rfl⟩

/-! ## At once -/

variable [DecidableEq Word]

/-- What stands for a word of the text. -/
def translation (rules : List (Rule Word)) (word : Word) : List (Token Word) :=
  match rules.find? fun rule => rule.name = word with
  | none => [⟨word, false⟩]
  | some rule => insertion rule.words

/-- The text with all rules applied at once. -/
def substitute (rules : List (Rule Word)) (text : List Word) : List (Token Word) := text.flatMap (translation rules)

/-- Where the name comes several times in succession, words of the text and words
that have been put in take turns. -/
def Alternates (name : Word) : Bool -> List (Token Word) -> Prop
  | _, [] => True
  | inserted, token :: rest =>
      if token.word = name then token.inserted = inserted ∧ Alternates name (!inserted) rest
      else Alternates name false rest

theorem alternates_of_ne {name : Word} {token : Token Word} (other : token.word ≠ name) (inserted : Bool)
    (rest : List (Token Word)) : Alternates name inserted (token :: rest) ↔ Alternates name false rest := by
  rw [Alternates, if_neg other]

theorem alternates_of_eq {name : Word} {token : Token Word} (same : token.word = name) (inserted : Bool)
    (rest : List (Token Word)) :
    Alternates name inserted (token :: rest) ↔ token.inserted = inserted ∧ Alternates name (!inserted) rest := by
  rw [Alternates, if_pos same]

/-- No rule puts in a name that is still to be replaced.  A rule that puts in
nothing skips the next word, which is harmless if that was put in. -/
def Independent (limit : Nat) (rules : List (Rule Word)) (text : List Word) : Prop :=
  forall earlier rule later, rules = earlier ++ rule :: later ->
    match rule.words with
    | [] => Alternates rule.name false (substitute earlier text)
    | _ :: rest => (rule.name ∈ text -> rule.name ∉ rest ∧ rule.words.length < limit) ∧
        forall other, other ∈ earlier -> other.name ∈ text -> rule.name ∉ other.words

/-- One rule applied to the words of the text at once. -/
def Rule.apply (rule : Rule Word) (tokens : List (Token Word)) : List (Token Word) :=
  tokens.flatMap fun token => if token.word = rule.name ∧ token.inserted = false then insertion rule.words else [token]

section Apply

variable {rule : Rule Word} {token : Token Word} {tokens : List (Token Word)}

theorem Rule.apply_cons_of_pos (same : token.word = rule.name) (original : token.inserted = false) :
    rule.apply (token :: tokens) = insertion rule.words ++ rule.apply tokens := by
  unfold Rule.apply
  rw [List.flatMap_cons, if_pos ⟨same, original⟩]

theorem Rule.apply_cons_of_neg (kept : token.word = rule.name -> token.inserted = true) :
    rule.apply (token :: tokens) = token :: rule.apply tokens := by
  unfold Rule.apply
  rw [List.flatMap_cons, if_neg, List.singleton_append]
  rintro ⟨same, original⟩
  exact Bool.false_ne_true (original.symm.trans (kept same))

/-- What has been put in stays. -/
theorem Rule.apply_append_of_inserted {inserted : List (Token Word)}
    (all : forall token, token ∈ inserted -> token.inserted = true) (tokens : List (Token Word)) :
    rule.apply (inserted ++ tokens) = inserted ++ rule.apply tokens := by
  induction inserted with
  | nil => rfl
  | cons token inserted inductionHypothesis =>
      have first := all token List.mem_cons_self
      have rest := inductionHypothesis fun token later => all token (List.mem_cons_of_mem _ later)
      rw [List.cons_append, Rule.apply_cons_of_neg fun _ => first, rest, List.cons_append]

/-- The name is only left where it has been put in. -/
theorem Rule.inserted_of_mem_apply (left : token ∈ rule.apply tokens) (same : token.word = rule.name) :
    token.inserted = true := by
  rcases List.mem_flatMap.mp left with ⟨origin, _, found⟩
  split at found
  case isTrue =>
    rcases List.mem_map.mp found with ⟨word, _, rfl⟩
    rfl
  case isFalse kept =>
    rw [← List.mem_singleton.mp found] at kept
    exact Bool.of_not_eq_false fun original => kept ⟨same, original⟩

end Apply

/-! ## One rule -/

section One

variable {rule : Rule Word} {limit : Nat} {before todo after : List (Token Word)} {again : Bool} {first : Word}
variable {rest : List Word}

/-- What a rule that puts in something must not meet. -/
def Rule.Harmless (rule : Rule Word) (limit : Nat) (rest : List Word) (tokens : List (Token Word)) : Prop :=
  forall token, token ∈ tokens -> token.word = rule.name ->
    token.inserted = false ∧ rule.name ∉ rest ∧ rule.words.length < limit

theorem Walk.harmless (words : rule.words = first :: rest) (walk : Walk rule limit before todo after again)
    (never : again = false) :
    rule.Harmless limit rest todo ∧ after = before ++ rule.apply todo := by
  induction walk with
  | done before => exact ⟨fun _ member => absurd member List.not_mem_nil, (List.append_nil before).symm⟩
  | @pass before todo after token again other _ inductionHypothesis =>
      rcases inductionHypothesis never with ⟨harmless, same⟩
      constructor
      · intro met member isName
        rcases List.mem_cons.mp member with rfl | later
        · exact absurd isName other
        · exact harmless met later isName
      · rw [same, Rule.apply_cons_of_neg fun isName => absurd isName other, List.append_assoc, List.singleton_append]
  | @replace before todo after token again isName fits _ inductionHypothesis =>
      rcases Bool.or_eq_false_iff.mp never with ⟨original, rfl⟩
      rcases inductionHypothesis rfl with ⟨harmless, same⟩
      rcases insertion_split words todo with ⟨taken, dropped, put⟩
      rw [taken, dropped] at same
      rw [dropped] at harmless
      have absent : rule.name ∉ rest := by
        intro member
        have inserted : ⟨rule.name, true⟩ ∈ insertion rest := List.mem_map_of_mem member
        exact Bool.false_ne_true (harmless _ (List.mem_append_left _ inserted) rfl).1.symm
      constructor
      · intro met member same
        rcases List.mem_cons.mp member with rfl | later
        · exact ⟨original, absent, fits⟩
        · exact harmless met (List.mem_append_right _ later) same
      · rw [same, Rule.apply_cons_of_pos isName original, put,
          Rule.apply_append_of_inserted fun _ => inserted_of_mem_insertion, List.append_assoc]
        rfl

private theorem Rule.Harmless.walk (words : rule.words = first :: rest) (harmless : rule.Harmless limit rest todo)
    (before : List (Token Word)) : Walk rule limit before todo (before ++ rule.apply todo) false := by
  induction todo generalizing before with
  | nil =>
      have nothing : before ++ rule.apply [] = before := List.append_nil before
      rw [nothing]
      exact .done before
  | cons token todo inductionHypothesis =>
      have later : rule.Harmless limit rest todo := fun met member => harmless met (List.mem_cons_of_mem _ member)
      by_cases isName : token.word = rule.name
      · rcases harmless token List.mem_cons_self isName with ⟨original, absent, fits⟩
        rcases insertion_split words todo with ⟨taken, dropped, put⟩
        have others : forall token, token ∈ insertion rest -> token.word ≠ rule.name := by
          intro token member same
          rcases List.mem_map.mp member with ⟨word, inRest, rfl⟩
          exact absent (same ▸ inRest)
        have goesOn := inductionHypothesis later (before ++ [⟨first, true⟩] ++ insertion rest)
        have walk : Walk rule limit before (token :: todo)
            (before ++ [⟨first, true⟩] ++ insertion rest ++ rule.apply todo) (token.inserted || false) := by
          apply Walk.replace isName fits
          rw [taken, dropped]
          exact goesOn.passes others
        rw [original] at walk
        rw [Rule.apply_cons_of_pos isName original, put]
        rw [List.append_assoc, List.append_assoc] at walk
        exact walk
      · apply Walk.pass isName
        rw [Rule.apply_cons_of_neg fun same => absurd same isName]
        have goesOn := inductionHypothesis later (before ++ [token])
        rw [List.append_assoc, List.singleton_append] at goesOn
        exact goesOn

/-- A rule that puts in nothing skips the next word, which is still there in the
end. -/
theorem Walk.alternates (words : rule.words = []) (walk : Walk rule limit before todo after again)
    (never : again = false) (cleared : forall token, token ∈ after -> token.word = rule.name -> token.inserted = true) :
    Alternates rule.name false todo ∧ after = before ++ rule.apply todo := by
  induction walk with
  | done before => exact ⟨trivial, (List.append_nil before).symm⟩
  | @pass before todo after token again other _ inductionHypothesis =>
      rcases inductionHypothesis never cleared with ⟨alternates, same⟩
      constructor
      · exact (alternates_of_ne other false todo).mpr alternates
      · rw [same, Rule.apply_cons_of_neg fun isName => absurd isName other, List.append_assoc, List.singleton_append]
  | @replace before todo after token again isName fits walk inductionHypothesis =>
      rcases Bool.or_eq_false_iff.mp never with ⟨original, rfl⟩
      rcases inductionHypothesis rfl cleared with ⟨alternates, same⟩
      rw [insertion_of_nil words] at alternates same walk
      rw [Rule.apply_cons_of_pos isName original, insertion_of_nil words, same, alternates_of_eq isName]
      cases todo with
      | nil => exact ⟨⟨original, trivial⟩, List.append_assoc before [] []⟩
      | cons next todo =>
          have skipped := walk.mem_of_before (List.mem_append_right _ List.mem_cons_self)
          have stays := cleared next skipped
          constructor
          · refine ⟨original, ?_⟩
            by_cases again : next.word = rule.name
            · exact (alternates_of_eq again true todo).mpr ⟨stays again, alternates⟩
            · exact (alternates_of_ne again true todo).mpr alternates
          · rw [Rule.apply_cons_of_neg stays, List.append_assoc]
            rfl

private theorem walk_of_alternates (words : rule.words = []) (fits : 0 < limit)
    (alternates : Alternates rule.name false todo) (before : List (Token Word)) :
    Walk rule limit before todo (before ++ rule.apply todo) false := by
  have short : rule.words.length < limit := by
    rw [words]
    exact fits
  have passes : forall (token : Token Word) (todo : List (Token Word)) (before : List (Token Word)),
      token.word ≠ rule.name ->
      Walk rule limit (before ++ [token]) todo (before ++ [token] ++ rule.apply todo) false ->
      Walk rule limit before (token :: todo) (before ++ rule.apply (token :: todo)) false := by
    intro token todo before other goesOn
    rw [List.append_assoc, List.singleton_append] at goesOn
    rw [Rule.apply_cons_of_neg fun isName => absurd isName other]
    exact Walk.pass other goesOn
  induction todo using List.twoStepInduction generalizing before with
  | nil =>
      have nothing : before ++ rule.apply [] = before := List.append_nil before
      rw [nothing]
      exact .done before
  | singleton token =>
      by_cases isName : token.word = rule.name
      · have original := ((alternates_of_eq isName false []).mp alternates).1
        have walk : Walk rule limit before [token] before (token.inserted || false) := by
          apply Walk.replace isName short
          rw [insertion_of_nil words]
          have nothing : before ++ List.take 1 [] = before := List.append_nil before
          rw [nothing]
          exact .done before
        rw [original] at walk
        have nothing : before ++ rule.apply [token] = before := by
          rw [Rule.apply_cons_of_pos isName original, insertion_of_nil words]
          exact List.append_nil before
        rw [nothing]
        exact walk
      · have goesOn : Walk rule limit (before ++ [token]) [] (before ++ [token]) false := .done _
        apply passes token [] before isName
        have nothing : before ++ [token] ++ rule.apply [] = before ++ [token] := List.append_nil _
        rw [nothing]
        exact goesOn
  | cons_cons token next todo skipping passing =>
      by_cases isName : token.word = rule.name
      · rcases (alternates_of_eq isName false _).mp alternates with ⟨original, taking⟩
        have both : (next.word = rule.name -> next.inserted = true) ∧ Alternates rule.name false todo := by
          by_cases again : next.word = rule.name
          · rcases (alternates_of_eq again true todo).mp taking with ⟨stays, later⟩
            exact ⟨fun _ => stays, later⟩
          · exact ⟨fun same => absurd same again, (alternates_of_ne again true todo).mp taking⟩
        have goesOn := skipping both.2 (before ++ [next])
        have walk : Walk rule limit before (token :: next :: todo) (before ++ [next] ++ rule.apply todo)
            (token.inserted || false) := by
          apply Walk.replace isName short
          rw [insertion_of_nil words]
          exact goesOn
        rw [original, List.append_assoc, List.singleton_append] at walk
        rw [Rule.apply_cons_of_pos isName original, insertion_of_nil words, Rule.apply_cons_of_neg both.1]
        exact walk
      · exact passes token (next :: todo) before isName
          (passing next ((alternates_of_ne isName false _).mp alternates) (before ++ [token]))

/-- What the rule meets in the text is as it has to be. -/
def Rule.Safe (rule : Rule Word) (limit : Nat) (tokens : List (Token Word)) : Prop :=
  match rule.words with
  | [] => Alternates rule.name false tokens
  | _ :: rest => rule.Harmless limit rest tokens

private theorem Rule.Safe.walk {tokens : List (Token Word)} (safe : rule.Safe limit tokens) (fits : 0 < limit) :
    Walk rule limit [] tokens (rule.apply tokens) false := by
  unfold Rule.Safe at safe
  split at safe
  case h_1 words => exact walk_of_alternates words fits safe []
  case h_2 words => exact Rule.Harmless.walk words safe []

theorem Walk.safe {tokens : List (Token Word)} (walk : Walk rule limit [] tokens after false)
    (cleared : forall token, token ∈ after -> token.word = rule.name -> token.inserted = true) :
    rule.Safe limit tokens ∧ after = rule.apply tokens := by
  unfold Rule.Safe
  split
  case h_1 words => exact walk.alternates words rfl cleared
  case h_2 words => exact walk.harmless words rfl

end One

/-! ## The rules one after another -/

/-- No list is shortened if the lists together are as long as all may be. -/
private theorem length_of_full {Item Image : Type u} {image : Item -> List Image} {items : List Item}
    (short : forall item, item ∈ items -> (image item).length ≤ 1) :
    (items.flatMap image).length ≤ items.length ∧
      (items.length ≤ (items.flatMap image).length -> forall item, item ∈ items -> (image item).length = 1) := by
  induction items with
  | nil => exact ⟨Nat.le_refl 0, fun _ item member => absurd member List.not_mem_nil⟩
  | cons item items inductionHypothesis =>
      have first := short item List.mem_cons_self
      rcases inductionHypothesis fun other later => short other (List.mem_cons_of_mem _ later) with ⟨most, each⟩
      rw [List.flatMap_cons, List.length_append, List.length_cons]
      constructor
      · omega
      · intro full other member
        rcases List.mem_cons.mp member with rfl | later
        · omega
        · exact each (by omega) other later

section Rules

variable {rules earlier later : List (Rule Word)} {rule : Rule Word} {limit : Nat} {text : List Word} {word : Word}

theorem translation_cases (rules : List (Rule Word)) (word : Word) :
    ((forall rule, rule ∈ rules -> rule.name ≠ word) ∧ translation rules word = [⟨word, false⟩]) ∨
      Exists fun rule => rule ∈ rules ∧ rule.name = word ∧ translation rules word = insertion rule.words := by
  unfold translation
  cases found : rules.find? fun rule => rule.name = word with
  | none =>
      refine .inl ⟨fun rule member same => ?_, rfl⟩
      exact List.find?_eq_none.mp found rule member (decide_eq_true same)
  | some rule =>
      have named := List.find?_some found
      exact .inr ⟨rule, List.mem_of_find?_eq_some found, of_decide_eq_true named, rfl⟩

theorem translation_of_mem (distinct : (rules.map Rule.name).Nodup) (member : rule ∈ rules) :
    translation rules rule.name = insertion rule.words := by
  rcases translation_cases rules rule.name with ⟨absent, _⟩ | ⟨other, listed, same, translated⟩
  · exact absurd rfl (absent rule member)
  · have only := List.inj_on_of_nodup_map distinct listed member same
    rw [translated, only]

theorem translation_of_not_mem (absent : forall rule, rule ∈ rules -> rule.name ≠ word) :
    translation rules word = [⟨word, false⟩] := by
  rcases translation_cases rules word with ⟨_, translated⟩ | ⟨rule, member, same, _⟩
  · exact translated
  · exact absurd same (absent rule member)

theorem translation_append (earlier : List (Rule Word)) (rule : Rule Word) (word : Word) :
    translation (earlier ++ [rule]) word = rule.apply (translation earlier word) := by
  unfold translation
  rw [List.find?_append]
  cases earlier.find? fun rule => rule.name = word with
  | some found =>
      have inserted : forall token, token ∈ insertion found.words -> token.inserted = true :=
        fun _ => inserted_of_mem_insertion
      have kept := rule.apply_append_of_inserted inserted []
      rw [List.append_nil] at kept
      exact (kept.trans (List.append_nil _)).symm
  | none =>
      by_cases same : rule.name = word
      · have found : List.find? (fun rule : Rule Word => rule.name = word) [rule] = some rule :=
          List.find?_cons_of_pos (decide_eq_true same)
        rw [found, Rule.apply_cons_of_pos same.symm rfl]
        exact (List.append_nil _).symm
      · have missed : List.find? (fun rule : Rule Word => rule.name = word) [rule] = none :=
          List.find?_cons_of_neg fun named => same (of_decide_eq_true named)
        rw [missed, Rule.apply_cons_of_neg fun isName => absurd isName.symm same]
        rfl

theorem substitute_append (earlier : List (Rule Word)) (rule : Rule Word) (text : List Word) :
    substitute (earlier ++ [rule]) text = rule.apply (substitute earlier text) := by
  have each : translation (earlier ++ [rule]) = fun word => rule.apply (translation earlier word) :=
    funext (translation_append earlier rule)
  unfold substitute
  rw [each]
  exact List.flatMap_assoc.symm

theorem substitute_nil (text : List Word) : substitute [] text = originals text := List.map_eq_flatMap.symm

/-- What stands for a word of the text, if it is still there. -/
def settle (rules : List (Rule Word)) (token : Token Word) : List (Token Word) :=
  if token.inserted = true then [token] else translation rules token.word

private theorem settle_inserted {inserted : List (Token Word)}
    (all : forall token, token ∈ inserted -> token.inserted = true) (rules : List (Rule Word)) :
    inserted.flatMap (settle rules) = inserted := by
  induction inserted with
  | nil => rfl
  | cons token inserted inductionHypothesis =>
      have rest := inductionHypothesis fun token later => all token (List.mem_cons_of_mem _ later)
      rw [List.flatMap_cons, rest, settle, if_pos (all token List.mem_cons_self), List.singleton_append]

private theorem settle_originals (rules : List (Rule Word)) (text : List Word) :
    (originals text).flatMap (settle rules) = substitute rules text := List.flatMap_map _ _ text

section Settle

variable {before todo after tokens : List (Token Word)} {again : Bool}

/-- Replacing a word of the text does not change what all comes to. -/
theorem Walk.settled (distinct : (rules.map Rule.name).Nodup) (member : rule ∈ rules)
    (walk : Walk rule limit before todo after again) (never : again = false) :
    after.flatMap (settle rules) = (before ++ todo).flatMap (settle rules) := by
  induction walk with
  | done before => rw [List.append_nil]
  | pass other rest inductionHypothesis =>
      have later := inductionHypothesis never
      rw [List.append_assoc] at later
      exact later
  | @replace before todo after token again isName fits rest inductionHypothesis =>
      rcases Bool.or_eq_false_iff.mp never with ⟨original, later⟩
      have translated : settle rules token = insertion rule.words := by
        unfold settle
        rw [original, isName, translation_of_mem distinct member]
        exact if_neg Bool.false_ne_true
      have inserted : forall token, token ∈ insertion rule.words -> token.inserted = true :=
        fun _ => inserted_of_mem_insertion
      have kept := settle_inserted inserted rules
      calc
        after.flatMap (settle rules) = (before ++ (insertion rule.words ++ todo)).flatMap (settle rules) := by
          rw [inductionHypothesis later, List.append_assoc, List.take_append_drop]
        _ = (before ++ token :: todo).flatMap (settle rules) := by
          rw [List.flatMap_append, List.flatMap_append, kept, List.flatMap_append, List.flatMap_cons, translated]

end Settle

section Walks

variable {tokens after : List (Token Word)} {token : Token Word} {again : Bool}

theorem Walks.settled (distinct : (rules.map Rule.name).Nodup) (among : forall rule, rule ∈ later -> rule ∈ rules)
    (walks : Walks limit later tokens after again) (never : again = false) :
    after.flatMap (settle rules) = tokens.flatMap (settle rules) := by
  induction walks with
  | nil tokens => rfl
  | cons walk rest inductionHypothesis =>
      rcases Bool.or_eq_false_iff.mp never with ⟨first, others⟩
      have continued := inductionHypothesis (fun rule member => among rule (List.mem_cons_of_mem _ member)) others
      exact continued.trans (walk.settled distinct (among _ List.mem_cons_self) first)

/-- A rule that puts in something has replaced all words of the text with its
name. -/
private theorem Walks.cleared (walks : Walks limit later tokens after again) (never : again = false)
    (member : rule ∈ later)
    (something : rule.words ≠ []) (left : token ∈ after) (same : token.word = rule.name) : token.inserted = true := by
  induction walks with
  | nil tokens => exact absurd member List.not_mem_nil
  | cons walk rest inductionHypothesis =>
      rcases Bool.or_eq_false_iff.mp never with ⟨first, others⟩
      rcases List.mem_cons.mp member with rfl | further
      · rcases List.exists_cons_of_ne_nil something with ⟨word, words, put⟩
        have applied := (walk.harmless put first).2
        apply Bool.of_not_eq_false
        intro original
        have middle := rest.mem_of_original left original
        rw [applied] at middle
        exact Bool.false_ne_true (original.symm.trans (Rule.inserted_of_mem_apply middle same))
      · exact inductionHypothesis others further left

/-- If the words are as many as they should be, then rules that put in nothing
have replaced all words of the text with their names, too. -/
theorem Walks.complete (distinct : (rules.map Rule.name).Nodup)
    (walks : Walks limit rules (originals text) after false)
    (equal : after.map Token.word = (substitute rules text).map Token.word) (member : rule ∈ rules)
    (left : token ∈ after) (same : token.word = rule.name) : token.inserted = true := by
  have settled := walks.settled distinct (fun _ member => member) rfl
  rw [settle_originals] at settled
  have full : after.length = (after.flatMap (settle rules)).length := by
    have lengths := congrArg List.length equal
    rw [List.length_map, List.length_map] at lengths
    rw [settled, lengths]
  have short : forall token, token ∈ after -> (settle rules token).length ≤ 1 := by
    intro token left
    unfold settle
    split
    case isTrue => exact Nat.le_refl 1
    case isFalse original =>
      rcases translation_cases rules token.word with ⟨_, translated⟩ | ⟨rule, listed, same, translated⟩
      · rw [translated]
        exact Nat.le_refl 1
      · by_cases nothing : rule.words = []
        · rw [translated, nothing]
          exact Nat.zero_le 1
        · exact absurd (walks.cleared rfl listed nothing left same.symm) original
  by_cases nothing : rule.words = []
  · have one := (length_of_full short).2 (Nat.le_of_eq full) token left
    apply Bool.of_not_eq_false
    intro original
    rw [settle, original, if_neg Bool.false_ne_true, same, translation_of_mem distinct member, nothing] at one
    exact Nat.zero_ne_one one
  · exact walks.cleared rfl member nothing left same

end Walks

theorem mem_substitute {token : Token Word} :
    token ∈ substitute rules text ↔ Exists fun word => word ∈ text ∧ token ∈ translation rules word :=
  List.mem_flatMap

/-- What has been put in comes from a rule whose name is in the text. -/
theorem mem_substitute_cases {token : Token Word} (put : token ∈ substitute rules text) :
    (token.inserted = false ∧ token.word ∈ text) ∨
      Exists fun rule => rule ∈ rules ∧ rule.name ∈ text ∧ token.word ∈ rule.words := by
  rcases mem_substitute.mp put with ⟨word, inText, translated⟩
  rcases translation_cases rules word with ⟨_, same⟩ | ⟨rule, member, named, same⟩
  · rw [same, List.mem_singleton] at translated
    subst translated
    exact .inl ⟨rfl, inText⟩
  · rw [same] at translated
    rcases List.mem_map.mp translated with ⟨inserted, inWords, rfl⟩
    subst named
    exact .inr ⟨rule, member, inText, inWords⟩

/-- The condition on a rule after the rules before it, in terms of the text. -/
theorem harmless_iff {rest : List Word} (distinct : ((earlier ++ rule :: later).map Rule.name).Nodup) :
    rule.Harmless limit rest (substitute earlier text) ↔
      (rule.name ∈ text -> rule.name ∉ rest ∧ rule.words.length < limit) ∧
        forall other, other ∈ earlier -> other.name ∈ text -> rule.name ∉ other.words := by
  rw [List.map_append, List.map_cons] at distinct
  have parts := List.nodup_append.mp distinct
  have new : forall other, other ∈ earlier -> other.name ≠ rule.name := by
    intro other member
    exact parts.2.2 _ (List.mem_map_of_mem member) _ List.mem_cons_self
  constructor
  · intro harmless
    constructor
    · intro inText
      have kept : (⟨rule.name, false⟩ : Token Word) ∈ substitute earlier text := by
        refine mem_substitute.mpr ⟨rule.name, inText, ?_⟩
        rw [translation_of_not_mem new]
        exact List.mem_singleton_self _
      exact (harmless _ kept rfl).2
    · intro other member inText inWords
      have put : (⟨rule.name, true⟩ : Token Word) ∈ substitute earlier text := by
        refine mem_substitute.mpr ⟨other.name, inText, ?_⟩
        rw [translation_of_mem parts.1 member]
        exact List.mem_map_of_mem inWords
      exact Bool.false_ne_true (harmless _ put rfl).1.symm
  · rintro ⟨own, others⟩ token put same
    rcases mem_substitute_cases put with ⟨original, inText⟩ | ⟨other, member, inText, inWords⟩
    · rw [same] at inText
      exact ⟨original, own inText⟩
    · rw [same] at inWords
      exact absurd inWords (others other member inText)

theorem independent_iff (distinct : (rules.map Rule.name).Nodup) :
    Independent limit rules text ↔ forall earlier rule later, rules = earlier ++ rule :: later ->
      rule.Safe limit (substitute earlier text) := by
  unfold Independent
  refine forall_congr' fun earlier => forall_congr' fun rule => forall_congr' fun later => forall_congr' fun split => ?_
  subst split
  unfold Rule.Safe
  split
  case h_1 => exact Iff.rfl
  case h_2 => exact (harmless_iff distinct).symm

/-- The walks of independent rules. -/
theorem Walks.of_safe (fits : 0 < limit)
    (safe : forall between rule rest, later = between ++ rule :: rest ->
      rule.Safe limit (substitute (earlier ++ between) text)) :
    Walks limit later (substitute earlier text) (substitute (earlier ++ later) text) false := by
  induction later generalizing earlier with
  | nil =>
      rw [List.append_nil]
      exact .nil _
  | cons rule later inductionHypothesis =>
      have first := safe [] rule later rfl
      rw [List.append_nil] at first
      have walk := first.walk fits
      rw [← substitute_append] at walk
      have others : forall between other rest, later = between ++ other :: rest ->
          other.Safe limit (substitute (earlier ++ [rule] ++ between) text) := by
        intro between other rest split
        rw [List.append_assoc]
        exact safe (rule :: between) other rest (congrArg (rule :: ·) split)
      have rest := inductionHypothesis others
      rw [List.append_assoc] at rest
      exact Walks.cons walk rest

/-- The first rule is safe if in the end no word of the text with its name is left,
for the other rules do not replace it. -/
theorem Walks.first {after : List (Token Word)} (distinct : ((rule :: later).map Rule.name).Nodup)
    (walks : Walks limit (rule :: later) (substitute earlier text) after false)
    (complete : forall token, token ∈ after -> token.word = rule.name -> token.inserted = true) :
    rule.Safe limit (substitute earlier text) ∧
      Walks limit later (substitute (earlier ++ [rule]) text) after false := by
  rw [List.map_cons] at distinct
  have new := (List.nodup_cons.mp distinct).1
  rcases walks.of_cons with ⟨middle, again, again', walk, rest, never⟩
  rcases Bool.or_eq_false_iff.mp never.symm with ⟨rfl, rfl⟩
  have cleared : forall token, token ∈ middle -> token.word = rule.name -> token.inserted = true := by
    intro token left same
    apply complete token _ same
    apply rest.mem_of_ne _ left
    intro other member isName
    exact new (same ▸ isName ▸ List.mem_map_of_mem member)
  rcases walk.safe cleared with ⟨safe, applied⟩
  rw [applied, ← substitute_append] at rest
  exact ⟨safe, rest⟩

theorem Walks.safe {after : List (Token Word)} {between rest : List (Rule Word)}
    (distinct : ((between ++ rule :: rest).map Rule.name).Nodup)
    (walks : Walks limit (between ++ rule :: rest) (substitute earlier text) after false)
    (complete : forall other, other ∈ between ++ rule :: rest -> forall token, token ∈ after ->
      token.word = other.name -> token.inserted = true) :
    rule.Safe limit (substitute (earlier ++ between) text) := by
  induction between generalizing earlier with
  | nil =>
      rw [List.append_nil]
      exact (walks.first distinct (complete rule List.mem_cons_self)).1
  | cons first between inductionHypothesis =>
      rw [List.cons_append] at walks distinct complete
      have continued := (walks.first distinct (complete first List.mem_cons_self)).2
      rw [List.map_cons] at distinct
      have later := inductionHypothesis (List.nodup_cons.mp distinct).2 continued
        fun other member => complete other (List.mem_cons_of_mem _ member)
      rw [List.append_assoc] at later
      exact later

/-- The walks replace no word twice and come to the text with all rules applied at
once, exactly if the rules are independent. -/
theorem walks_iff_independent (distinct : (rules.map Rule.name).Nodup) (fits : 0 < limit) :
    (Exists fun after => Walks limit rules (originals text) after false ∧
      after.map Token.word = (substitute rules text).map Token.word) ↔ Independent limit rules text := by
  rw [independent_iff distinct]
  constructor
  · rintro ⟨after, walks, equal⟩ earlier rule later split
    subst split
    have complete : forall other, other ∈ earlier ++ rule :: later -> forall token, token ∈ after ->
        token.word = other.name -> token.inserted = true :=
      fun other member token left same => walks.complete distinct equal member left same
    rw [← substitute_nil] at walks
    have safe := walks.safe distinct complete
    rw [List.nil_append] at safe
    exact safe
  · intro safe
    have walks : Walks limit rules (substitute [] text) (substitute ([] ++ rules) text) false := .of_safe fits safe
    rw [substitute_nil] at walks
    exact ⟨_, walks, rfl⟩

end Rules

end Library
end OsPa
