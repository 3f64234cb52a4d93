import Mathlib.Data.Fintype.Basic
import OsPa.Library.Machine
import OsPa.LinkedLists.Queues

namespace OsPa
namespace LinkedLists

open Library

/-!
# Runs of list operations

The three programs call the functions of `list_head.h` one after the other.  They add
only what is in no list, delete and move only what is in one, and free only what they
have allocated and is in none.  However such calls follow each other, the list heads
stand for the lists that the calls are about.
-/

/-- A call that changes the list heads. -/
inductive Call (Place Item : Type)
  /-- `malloc` and `INIT_LIST_HEAD` -/
  | create (item : Item)
  /-- `free` -/
  | destroy (item : Item)
  | add (item : Item) (place : Place)
  | addTail (item : Item) (place : Place)
  | delInit (item : Item)
  | moveTail (item : Item) (place : Place)

/-- The lists, and what is allocated. -/
structure Contents (Place Item : Type) where
  lists : Place -> List Item
  live : Item -> Bool

section Calls

variable {Place Item : Type} [DecidableEq Place] [DecidableEq Item]

/-- What a call does to the list heads. -/
def Call.perform (memory : Memory Place Item) : Call Place Item -> Except Fault (Memory Place Item)
  | .create item => initListHead (.item item) (memory.allocate item)
  | .destroy item => memory.free item
  | .add item place => listAdd (.item item) (.head place) memory
  | .addTail item place => listAddTail (.item item) (.head place) memory
  | .delInit item => listDelInit (.item item) memory
  | .moveTail item place => listMoveTail (.item item) (.head place) memory

/-- The program may make the call. -/
def Call.Allowed (state : Contents Place Item) : Call Place Item -> Prop
  | .create item => state.live item = false
  | .destroy item | .add item _ | .addTail item _ => state.live item = true ∧ forall place, item ∉ state.lists place
  | .delInit item | .moveTail item _ => Exists fun place => item ∈ state.lists place

instance [Fintype Place] (state : Contents Place Item) :
    (call : Call Place Item) -> Decidable (call.Allowed state)
  | .create item => inferInstanceAs (Decidable (state.live item = false))
  | .destroy item | .add item _ | .addTail item _ =>
      inferInstanceAs (Decidable (state.live item = true ∧ forall place, item ∉ state.lists place))
  | .delInit item | .moveTail item _ => inferInstanceAs (Decidable (Exists fun place => item ∈ state.lists place))

/-- The lists without an item. -/
def Contents.without (state : Contents Place Item) (item : Item) (place : Place) : List Item :=
  (state.lists place).erase item

/-- What a call does to the lists. -/
def Call.effect (state : Contents Place Item) : Call Place Item -> Contents Place Item
  | .create item => { state with live := Function.update state.live item true }
  | .destroy item => { state with live := Function.update state.live item false }
  | .add item place => { state with lists := Function.update state.lists place (item :: state.lists place) }
  | .addTail item place => { state with lists := Function.update state.lists place (state.lists place ++ [item]) }
  | .delInit item => { state with lists := state.without item }
  | .moveTail item place =>
      { state with lists := Function.update (state.without item) place (state.without item place ++ [item]) }

/-- The list heads stand for the lists. -/
structure Contents.Shown (state : Contents Place Item) (memory : Memory Place Item) : Prop where
  keeps : memory.Keeps state.lists
  live : memory.live = state.live

/-- The calls one after the other, on the list heads. -/
def onHeads : Machine (Call Place Item) (Memory Place Item) Unit Fault where
  step := fun call memory => (call.perform memory).map fun after => ((), after)
  stops := fun _ => false

/-- The calls one after the other, on the lists. -/
def onLists : Machine (Call Place Item) (Contents Place Item) Unit Fault where
  step := fun call state => .ok ((), call.effect state)
  stops := fun _ => false

variable {state : Contents Place Item} {memory : Memory Place Item} {item : Item} {place : Place}

/-- Deleting an item changes the list that it is in, and no other one. -/
private theorem Contents.Shown.without (shown : state.Shown memory) (member : item ∈ state.lists place) :
    state.without item = Function.update state.lists place ((state.lists place).erase item) := by
  funext other
  unfold Contents.without
  by_cases here : other = place
  · subst here
    rw [Function.update_self]
  · rw [Function.update_of_ne here]
    apply List.erase_of_not_mem
    exact fun inside => here (shown.keeps.represents.eq_of_mem inside member)

/-- One call. -/
private theorem Call.Allowed.perform {call : Call Place Item} (allowed : call.Allowed state)
    (shown : state.Shown memory) :
    Exists fun memory' => call.perform memory = .ok memory' ∧ (call.effect state).Shown memory' := by
  have live := shown.live
  cases call with
  | create item =>
      have fresh : memory.live item = false := live ▸ allowed
      rcases shown.keeps.create fresh with ⟨links, created, keeps⟩
      exact ⟨_, created, keeps, congrArg (fun live : Item -> Bool => Function.update live item true) live⟩
  | destroy item =>
      rcases shown.keeps.free (live ▸ allowed.1) allowed.2 with ⟨memory', freed, keeps, gone⟩
      exact ⟨memory', freed, keeps, gone.trans (congrArg (fun live => Function.update live item false) live)⟩
  | add item place =>
      rcases listAdd_keeps shown.keeps (live ▸ allowed.1) allowed.2 place with ⟨links, added, keeps⟩
      exact ⟨_, added, keeps, live⟩
  | addTail item place =>
      rcases listAddTail_keeps shown.keeps (live ▸ allowed.1) allowed.2 place with ⟨links, added, keeps⟩
      exact ⟨_, added, keeps, live⟩
  | delInit item =>
      rcases allowed with ⟨place, member⟩
      rcases listDelInit_keeps shown.keeps member with ⟨links, deleted, keeps⟩
      rw [← shown.without member] at keeps
      exact ⟨_, deleted, keeps, live⟩
  | moveTail item other =>
      rcases allowed with ⟨place, member⟩
      rcases listMoveTail_keeps shown.keeps member other with ⟨links, moved, keeps⟩
      rw [← shown.without member] at keeps
      exact ⟨_, moved, keeps, live⟩

/-- What a loop over a list comes past. -/
def visited (fuel : Nat) (place : Place) (memory : Memory Place Item) : Except Fault (List Item) := do
  let first ← memory.next (.head place)
  listForEachEntry id (fun item seen => .ok (false, seen ++ [item])) (.head place) memory fuel first []

private theorem Contents.Shown.visited (shown : state.Shown memory) {fuel : Nat}
    (enough : (state.lists place).length < fuel) : LinkedLists.visited fuel place memory = .ok (state.lists place) := by
  have collected : forall items seen : List Item,
      items.foldl (fun seen item => seen ++ [item]) seen = seen ++ items := by
    intro items
    induction items with
    | nil => exact fun seen => (List.append_nil seen).symm
    | cons item items inductionHypothesis =>
        intro seen
        rw [List.foldl_cons, inductionHypothesis, List.append_assoc, List.singleton_append]
  unfold LinkedLists.visited
  rw [shown.keeps.next_head place]
  have walk : forall item, item ∈ state.lists place -> forall seen : List Item, True ->
      (.ok (false, seen ++ [item]) : Except Fault (Bool × List Item)) = .ok (false, id (seen ++ [item])) ∧ True :=
    fun _ _ _ _ => ⟨rfl, trivial⟩
  refine (listForEachEntry_foldl _ id (fun seen item => seen ++ [item]) (fun _ => True) [] shown.keeps place enough
    walk trivial).trans ?_
  exact congrArg Except.ok (collected _ [])

end Calls

/-- The list heads go on to stand for the lists under all calls that the programs make.
No call fails, and a loop over a list comes past its entries in their order and then
back to the head. -/
theorem list_heads_represent {Place Item : Type} [DecidableEq Place] [DecidableEq Item]
    {calls : List (Call Place Item)} {state : Contents Place Item} {memory : Memory Place Item}
    (shown : state.Shown memory) (allowed : onLists.Within (fun call state => call.Allowed state) calls state) :
    Exists fun outputs => Exists fun after => Exists fun memory' =>
      onLists.run calls state = .ok (outputs, after) ∧ onHeads.run calls memory = .ok (outputs, memory') ∧
        after.Shown memory' ∧ forall place fuel, (after.lists place).length < fuel ->
          visited fuel place memory' = .ok (after.lists place) := by
  induction calls generalizing state memory with
  | nil => exact ⟨[], state, memory, rfl, rfl, shown, fun _ _ enough => shown.visited enough⟩
  | cons call calls inductionHypothesis =>
      rcases allowed.1.perform shown with ⟨memory₁, performed, shown₁⟩
      rcases inductionHypothesis shown₁ (allowed.tail onLists rfl rfl) with ⟨outputs, after, memory', ran, ran', final⟩
      refine ⟨() :: outputs, after, memory', ?_, ?_, final⟩
      · rw [onLists.run_cons calls rfl rfl, ran]
        rfl
      · have stepped : onHeads.step call memory = .ok ((), memory₁) := by
          unfold onHeads
          dsimp only
          rw [performed]
          rfl
        rw [onHeads.run_cons calls stepped rfl, ran']
        rfl

/-- Five entries on two heads. -/
def trial : List (Call Bool Nat) :=
  [.create 5, .create 6, .create 7, .create 8, .create 9, .addTail 5 true, .addTail 6 true, .add 7 true,
    .addTail 8 false, .moveTail 5 false, .add 9 false, .delInit 8, .destroy 8, .moveTail 7 true]

/-- In the end four entries are linked, and one has been freed. -/
theorem list_heads_represent_trial : Exists fun outputs => Exists fun after : Contents Bool Nat =>
    Exists fun memory' => onHeads.run trial ⟨⟨id, id⟩, fun _ => false⟩ = .ok (outputs, memory') ∧
      after.Shown memory' ∧ after.lists true = [6, 7] ∧ after.lists false = [9, 5] ∧
        visited 3 true memory' = .ok [6, 7] ∧ visited 3 false memory' = .ok [9, 5] := by
  have shown : (⟨fun _ => [], fun _ => false⟩ : Contents Bool Nat).Shown ⟨⟨id, id⟩, fun _ => false⟩ :=
    ⟨Memory.keeps_nil (fun _ => ⟨rfl, rfl⟩) (fun _ => rfl), rfl⟩
  have allowed : onLists.Within (fun call state => call.Allowed state) trial ⟨fun _ => [], fun _ => false⟩ :=
    ⟨by decide, fun _ => ⟨by decide, fun _ => ⟨by decide, fun _ => ⟨by decide, fun _ => ⟨by decide, fun _ =>
      ⟨by decide, fun _ => ⟨by decide, fun _ => ⟨by decide, fun _ => ⟨by decide, fun _ => ⟨by decide, fun _ =>
        ⟨by decide, fun _ => ⟨by decide, fun _ => ⟨by decide, fun _ => ⟨by decide, fun _ => trivial⟩⟩⟩⟩⟩⟩⟩⟩⟩⟩⟩⟩⟩⟩
  rcases list_heads_represent shown allowed with ⟨outputs, after, memory', ran, ran', shows, visits⟩
  have final : after.lists true = [6, 7] ∧ after.lists false = [9, 5] := by
    cases ran
    exact ⟨rfl, rfl⟩
  have first := visits true 3 (by rw [final.1]; decide)
  have second := visits false 3 (by rw [final.2]; decide)
  rw [final.1] at first
  rw [final.2] at second
  exact ⟨outputs, after, memory', ran', shows, final.1, final.2, first, second⟩

end LinkedLists
end OsPa
