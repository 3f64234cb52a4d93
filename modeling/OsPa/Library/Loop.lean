import Mathlib.Data.Finset.Card

/-!
# Loops whose body can fault

A `for` loop over a list of indices is `List.foldlM` in the error monad.  Its
invariant speaks of the set of indices already visited.

A loop that need not end is run with fuel.  `Ends` says that some fuel is enough,
and can be followed round by round.
-/

namespace OsPa
namespace Library

universe u v

private theorem bind_eq_ok {Fault Result : Type u} {Given : Type u} {given : Except Fault Given}
    {next : Given -> Except Fault Result} {result : Result} (ran : given >>= next = .ok result) :
    Exists fun value => given = .ok value ∧ next value = .ok result := by
  cases given with
  | error fault => cases ran
  | ok value => exact ⟨value, rfl, ran⟩

theorem map_eq_ok {Fault Given Result : Type u} {given : Except Fault Given} {change : Given -> Result}
    {result : Result} :
    given.map change = .ok result ↔ Exists fun value => given = .ok value ∧ change value = result := by
  cases given with
  | error fault => exact iff_of_false nofun nofun
  | ok value =>
      constructor
      · intro same
        exact ⟨value, rfl, Except.ok.inj same⟩
      · rintro ⟨other, same, rfl⟩
        cases same
        rfl

/-- The invariant rule for a loop over distinct indices. -/
theorem foldlM_invariant {Index : Type v} [DecidableEq Index] {State Fault : Type u}
    {body : State -> Index -> Except Fault State} (invariant : Finset Index -> State -> Prop)
    (step : forall visited index state after, index ∉ visited -> invariant visited state ->
      body state index = .ok after -> invariant (insert index visited) after)
    {indices : List Index} (distinct : indices.Nodup) {start final : State}
    (initially : invariant ∅ start) (ran : indices.foldlM body start = .ok final) :
    invariant indices.toFinset final := by
  have general : forall (rest : List Index) (visited : Finset Index) (state : State), rest.Nodup ->
      (forall index, index ∈ rest -> index ∉ visited) -> invariant visited state ->
      rest.foldlM body state = .ok final -> invariant (visited ∪ rest.toFinset) final := by
    intro rest
    induction rest with
    | nil =>
        intro visited state _ _ holds finished
        simp only [List.foldlM_nil] at finished
        cases finished
        simpa using holds
    | cons index rest inductionHypothesis =>
        intro visited state nodup fresh holds continued
        rw [List.foldlM_cons] at continued
        rcases bind_eq_ok continued with ⟨next, first, later⟩
        have parts := List.nodup_cons.mp nodup
        have kept := step visited index state next (fresh index List.mem_cons_self) holds first
        have final := inductionHypothesis (insert index visited) next parts.2 (by
          intro other member
          rw [Finset.mem_insert]
          rintro (same | seen)
          · exact parts.1 (same ▸ member)
          · exact fresh other (List.mem_cons_of_mem _ member) seen) kept later
        rwa [Finset.insert_union, ← Finset.union_insert, ← List.toFinset_cons] at final
  simpa using general indices ∅ start distinct (fun _ _ => Finset.notMem_empty _) initially ran

/-- A loop is not left by a fault when its body succeeds wherever the invariant
holds. -/
theorem foldlM_total {Index : Type v} [DecidableEq Index] {State Fault : Type u}
    {body : State -> Index -> Except Fault State} (invariant : Finset Index -> State -> Prop)
    (step : forall visited index state after, index ∉ visited -> invariant visited state ->
      body state index = .ok after -> invariant (insert index visited) after)
    (succeeds : forall visited index state, index ∉ visited -> invariant visited state ->
      Exists fun after => body state index = .ok after)
    {indices : List Index} (distinct : indices.Nodup) {start : State} (initially : invariant ∅ start) :
    Exists fun final => indices.foldlM body start = .ok final := by
  have general : forall (rest : List Index) (visited : Finset Index) (state : State), rest.Nodup ->
      (forall index, index ∈ rest -> index ∉ visited) -> invariant visited state ->
      Exists fun final => rest.foldlM body state = .ok final := by
    intro rest
    induction rest with
    | nil => exact fun _ state _ _ _ => ⟨state, rfl⟩
    | cons index rest inductionHypothesis =>
        intro visited state nodup fresh holds
        have parts := List.nodup_cons.mp nodup
        have unseen := fresh index List.mem_cons_self
        rcases succeeds visited index state unseen holds with ⟨next, first⟩
        have kept := step visited index state next unseen holds first
        have later := inductionHypothesis (insert index visited) next parts.2 (by
          intro other member
          rw [Finset.mem_insert]
          rintro (same | seen)
          · exact parts.1 (same ▸ member)
          · exact fresh other (List.mem_cons_of_mem _ member) seen) kept
        rcases later with ⟨final, ran⟩
        refine ⟨final, ?_⟩
        rw [List.foldlM_cons, first]
        exact ran
  exact general indices ∅ start distinct (fun _ _ => Finset.notMem_empty _) initially

/-- A loop whose body does not look at what a map forgets does not look at it
either. -/
theorem foldlM_map {Index : Type v} {State Fault : Type u} {body : State -> Index -> Except Fault State}
    {forget : State -> State} (commutes : forall state index, body (forget state) index = (body state index).map forget)
    (indices : List Index) (state : State) :
    indices.foldlM body (forget state) = (indices.foldlM body state).map forget := by
  induction indices generalizing state with
  | nil => rfl
  | cons index indices inductionHypothesis =>
      rw [List.foldlM_cons, List.foldlM_cons, commutes]
      cases body state index with
      | error fault => rfl
      | ok next => exact inductionHypothesis next

/-- Two results agree when both fault alike, or their values are related. -/
def Agrees {Fault : Type u} {Left Right : Type v} (related : Left -> Right -> Prop) :
    Except Fault Left -> Except Fault Right -> Prop
  | .ok left, .ok right => related left right
  | .error fault, .error fault' => fault = fault'
  | _, _ => False

theorem Agrees.cases {Fault : Type u} {Left Right : Type v} {related : Left -> Right -> Prop}
    {left : Except Fault Left} {right : Except Fault Right} (agrees : Agrees related left right) :
    (Exists fun fault => left = .error fault ∧ right = .error fault) ∨
      Exists fun value => Exists fun value' => left = .ok value ∧ right = .ok value' ∧ related value value' := by
  cases left with
  | error fault =>
      cases right with
      | error fault' => exact .inl ⟨fault, rfl, congrArg _ (Eq.symm agrees)⟩
      | ok value' => exact False.elim agrees
  | ok value =>
      cases right with
      | error fault' => exact False.elim agrees
      | ok value' => exact .inr ⟨value, value', rfl, rfl, agrees⟩

/-- Two loops whose bodies agree from related states do. -/
theorem foldlM_agrees {Index : Type v} {State State' Fault : Type u} {body : State -> Index -> Except Fault State}
    {body' : State' -> Index -> Except Fault State'} (related : State -> State' -> Prop)
    (step : forall index state state', related state state' -> Agrees related (body state index) (body' state' index))
    (indices : List Index) {start : State} {start' : State'} (initially : related start start') :
    Agrees related (indices.foldlM body start) (indices.foldlM body' start') := by
  induction indices generalizing start start' with
  | nil => exact initially
  | cons index indices inductionHypothesis =>
      rw [List.foldlM_cons, List.foldlM_cons]
      rcases (step index start start' initially).cases with
        ⟨fault, first, first'⟩ | ⟨next, next', first, first', kept⟩
      · rw [first, first']
        exact rfl
      · rw [first, first']
        exact inductionHypothesis kept

/-- A loop does not end well where its body always faults at one of the indices. -/
theorem foldlM_fails {Index : Type v} [DecidableEq Index] {State Fault : Type u}
    {body : State -> Index -> Except Fault State} (invariant : State -> Prop)
    (step : forall index state after, invariant state -> body state index = .ok after -> invariant after)
    {indices : List Index} (distinct : indices.Nodup) {index : Index} (member : index ∈ indices)
    (fails : forall state after, invariant state -> body state index ≠ .ok after) {start final : State}
    (initially : invariant start) : indices.foldlM body start ≠ .ok final := by
  intro ran
  have unvisited := foldlM_invariant (fun visited state => invariant state ∧ index ∉ visited)
    (fun visited other state after _ holds body => ⟨step other state after holds.1 body, fun visitedNow => by
      rcases Finset.mem_insert.mp visitedNow with rfl | before
      · exact fails state after holds.1 body
      · exact holds.2 before⟩)
    distinct ⟨initially, Finset.notMem_empty _⟩ ran
  exact unvisited.2 (List.mem_toFinset.mpr member)

/-! ## Loops that need not end -/

section Rounds

variable {State : Type u} {Result : Type v} {round : State -> State ⊕ Result} {state next : State} {result : Result}

/-- Rounds of a loop as long as there is fuel.  A round goes on or leaves the loop
with a result. -/
def rounds (round : State -> State ⊕ Result) : Nat -> State -> Option Result
  | 0, _ => none
  | fuel + 1, state =>
      match round state with
      | .inl next => rounds round fuel next
      | .inr result => some result

/-- The loop is left at some time. -/
def Ends (round : State -> State ⊕ Result) (state : State) (result : Result) : Prop :=
  Exists fun fuel => rounds round fuel state = some result

theorem rounds_succ_of_inl (goesOn : round state = .inl next) (fuel : Nat) :
    rounds round (fuel + 1) state = rounds round fuel next := by
  rw [rounds, goesOn]

theorem rounds_succ_of_inr (leaves : round state = .inr result) (fuel : Nat) :
    rounds round (fuel + 1) state = some result := by
  rw [rounds, leaves]

/-- More fuel does not change the result. -/
theorem rounds_mono {fuel more : Nat} (enough : fuel ≤ more) (ended : rounds round fuel state = some result) :
    rounds round more state = some result := by
  induction fuel generalizing state more with
  | zero => cases ended
  | succ fuel inductionHypothesis =>
      cases more with
      | zero => exact absurd enough (Nat.not_succ_le_zero fuel)
      | succ more =>
          cases following : round state with
          | inl next =>
              rw [rounds_succ_of_inl following] at ended ⊢
              exact inductionHypothesis (Nat.le_of_succ_le_succ enough) ended
          | inr final =>
              rw [rounds_succ_of_inr following] at ended ⊢
              exact ended

theorem ends_of_inl (goesOn : round state = .inl next) : Ends round state result ↔ Ends round next result := by
  constructor
  · rintro ⟨fuel, ended⟩
    cases fuel with
    | zero => cases ended
    | succ fuel =>
        rw [rounds_succ_of_inl goesOn] at ended
        exact ⟨fuel, ended⟩
  · rintro ⟨fuel, ended⟩
    exact ⟨fuel + 1, (rounds_succ_of_inl goesOn fuel).trans ended⟩

theorem ends_of_inr {final : Result} (leaves : round state = .inr final) :
    Ends round state result ↔ final = result := by
  constructor
  · rintro ⟨fuel, ended⟩
    cases fuel with
    | zero => cases ended
    | succ fuel =>
        rw [rounds_succ_of_inr leaves] at ended
        exact Option.some.inj ended
  · rintro rfl
    exact ⟨1, rounds_succ_of_inr leaves 0⟩

/-- The invariant rule: the invariant still holds where the loop is left. -/
theorem Ends.last (invariant : State -> Prop)
    (step : forall state next, invariant state -> round state = .inl next -> invariant next)
    (ended : Ends round state result) (initially : invariant state) :
    Exists fun last => invariant last ∧ round last = .inr result := by
  rcases ended with ⟨fuel, ended⟩
  induction fuel generalizing state with
  | zero => cases ended
  | succ fuel inductionHypothesis =>
      cases following : round state with
      | inl next =>
          rw [rounds_succ_of_inl following] at ended
          exact inductionHypothesis (step state next initially following) ended
      | inr final =>
          rw [rounds_succ_of_inr following] at ended
          cases ended
          exact ⟨state, initially, following⟩

end Rounds

end Library
end OsPa
