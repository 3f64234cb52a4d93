import OsPa.LinkedLists.ListHead

namespace OsPa
namespace LinkedLists

open Library

/-!
# List heads as queues

A memory that keeps some lists goes on to keep them under the operations of
`list_head.h`, provided that only what is in no list is added and only what is in a
list is deleted.  None of the operations then uses a block that is not allocated,
and the loops end.
-/

section Keeps

variable {Place Item : Type}

/-- The links stand for the lists, and what is in them is allocated. -/
structure Memory.Keeps (memory : Memory Place Item) (lists : Place -> List Item) : Prop where
  represents : memory.links.Represents {item | memory.live item = true} lists
  live : forall place item, item ∈ lists place -> memory.live item = true

variable {memory : Memory Place Item} {lists : Place -> List Item} {place : Place} {item : Item}
  {cell : Cell Place Item}

theorem Memory.Keeps.holds (keeps : memory.Keeps lists) (member : cell ∈ Links.ring place (lists place)) :
    memory.holds cell = true := by
  rcases Links.mem_ring.mp member with rfl | ⟨item, inside, rfl⟩
  · rfl
  · exact keeps.live place item inside

theorem Memory.next_eq (holds : memory.holds cell = true) : memory.next cell = .ok (memory.links.next cell) :=
  if_pos holds

theorem Memory.prev_eq (holds : memory.holds cell = true) : memory.prev cell = .ok (memory.links.prev cell) :=
  if_pos holds

theorem listFirstEntry_eq (keeps : memory.Keeps lists) {rest : List Item} (first : lists place = item :: rest) :
    listFirstEntry (.head place) memory = .ok item := by
  unfold listFirstEntry
  rw [Memory.next_eq rfl, keeps.represents.next_head, first]
  rfl

/-- The cell at which a list goes on. -/
def frontier (place : Place) (rest : List Item) : Cell Place Item := (rest.head?.map Cell.item).getD (.head place)

theorem Memory.Keeps.next_head (keeps : memory.Keeps lists) (place : Place) :
    memory.next (.head place) = .ok (frontier place (lists place)) := by
  rw [Memory.next_eq rfl, keeps.represents.next_head]
  rfl

theorem next_of_mem (keeps : memory.Keeps lists) {before rest : List Item}
    (split : lists place = before ++ item :: rest) : memory.next (.item item) = .ok (frontier place rest) := by
  have member : item ∈ lists place := split ▸ List.mem_append_right _ List.mem_cons_self
  have holds : memory.holds (.item item) = true := keeps.live place item member
  rcases Links.exists_seam place before rest with ⟨front, left, right, back, seam⟩
  rw [Memory.next_eq holds, (keeps.represents.neighbours split seam).2]
  have isRight := seam.back
  cases rest with
  | nil => rw [(List.cons.inj isRight).1.symm]; rfl
  | cons first rest => rw [(List.cons.inj isRight).1.symm]; rfl

/-- The memory with other links. -/
def Memory.relink (memory : Memory Place Item) (links : Links (Cell Place Item)) : Memory Place Item :=
  { memory with links := links }

variable [DecidableEq Place]

/-- The lists after an item has been added or deleted keep their items allocated. -/
theorem Memory.Keeps.update (keeps : memory.Keeps lists) {links : Links (Cell Place Item)} {items : List Item}
    (represents : links.Represents {item | memory.live item = true} (Function.update lists place items))
    (live : forall item, item ∈ items -> memory.live item = true) :
    (memory.relink links).Keeps (Function.update lists place items) := by
  refine ⟨represents, ?_⟩
  intro other item member
  by_cases here : other = place
  · subst here
    rw [Function.update_self] at member
    exact live item member
  · rw [Function.update_of_ne here] at member
    exact keeps.live other item member

variable [DecidableEq Item]

theorem listAddBetween_eq {new prev next : Cell Place Item} (holdsNew : memory.holds new = true)
    (holdsPrev : memory.holds prev = true) (holdsNext : memory.holds next = true) (notPrev : new ≠ prev)
    (notNext : new ≠ next) :
    listAddBetween new prev next memory = .ok (memory.relink ((memory.links.join prev new).join new next)) := by
  unfold listAddBetween Memory.setPrev
  rw [if_pos holdsNext]
  dsimp only [bind, Except.bind]
  unfold Memory.setNext
  rw [if_pos (by exact holdsNew)]
  dsimp only
  rw [if_pos (by exact holdsNew)]
  dsimp only
  rw [if_pos (by exact holdsPrev), Function.update_comm notPrev, Function.update_comm (Ne.symm notNext)]
  rfl

private theorem listDelBetween_eq {prev next : Cell Place Item} (holdsPrev : memory.holds prev = true)
    (holdsNext : memory.holds next = true) :
    listDelBetween prev next memory = .ok (memory.relink (memory.links.join prev next)) := by
  unfold listDelBetween Memory.setPrev
  rw [if_pos holdsNext]
  exact if_pos holdsPrev

theorem initListHead_eq (holds : memory.holds cell = true) :
    initListHead cell memory = .ok (memory.relink (memory.links.join cell cell)) := by
  unfold initListHead Memory.setNext
  rw [if_pos holds]
  exact if_pos holds

/-- An item that is in no list is put between two cells of one. -/
theorem Memory.Keeps.insert (keeps : memory.Keeps lists) (live : memory.live item = true)
    (detached : forall place, item ∉ lists place) {before after : List Item} (split : lists place = before ++ after)
    {front back : List (Cell Place Item)} {left right : Cell Place Item}
    (seam : Links.Seam place before after front left right back) :
    listAddBetween (.item item) left right memory =
        .ok (memory.relink ((memory.links.join left (.item item)).join (.item item) right)) ∧
      (memory.relink ((memory.links.join left (.item item)).join (.item item) right)).Keeps
        (Function.update lists place (before ++ item :: after)) := by
  have isLeft : left ∈ Links.ring place (lists place) := split ▸ seam.left_mem
  have isRight : right ∈ Links.ring place (lists place) := split ▸ seam.right_mem
  have nowhere : .item item ∉ Links.ring place (lists place) := Links.not_mem_ring (detached place)
  constructor
  · exact listAddBetween_eq live (keeps.holds isLeft) (keeps.holds isRight)
      (fun same => nowhere (same ▸ isLeft)) (fun same => nowhere (same ▸ isRight))
  · apply keeps.update (keeps.represents.insert split seam detached)
    intro other member
    rw [List.mem_append, List.mem_cons] at member
    rcases member with early | rfl | late
    · exact keeps.live place other (split ▸ List.mem_append_left _ early)
    · exact live
    · exact keeps.live place other (split ▸ List.mem_append_right _ late)

theorem listAddTail_keeps (keeps : memory.Keeps lists) (live : memory.live item = true)
    (detached : forall place, item ∉ lists place) (place : Place) :
    Exists fun links => listAddTail (.item item) (.head place) memory = .ok (memory.relink links) ∧
      (memory.relink links).Keeps (Function.update lists place (lists place ++ [item])) := by
  rcases Links.exists_seam place (lists place) [] with ⟨front, left, right, back, seam⟩
  have isRight := (List.cons.inj seam.back).1
  subst isRight
  have split : lists place = lists place ++ [] := (List.append_nil _).symm
  rcases keeps.insert live detached split seam with ⟨added, kept⟩
  refine ⟨_, ?_, kept⟩
  have last : memory.prev (.head place) = .ok left := by
    rw [Memory.prev_eq rfl, (keeps.represents.joined split seam).2]
  unfold listAddTail
  rw [last]
  exact added

theorem listAdd_keeps (keeps : memory.Keeps lists) (live : memory.live item = true)
    (detached : forall place, item ∉ lists place) (place : Place) :
    Exists fun links => listAdd (.item item) (.head place) memory = .ok (memory.relink links) ∧
      (memory.relink links).Keeps (Function.update lists place (item :: lists place)) := by
  rcases Links.exists_seam place [] (lists place) with ⟨front, left, right, back, seam⟩
  have ends := congrArg List.getLast? seam.front
  rw [List.getLast?_concat] at ends
  have isLeft : .head place = left := Option.some.inj ends
  subst isLeft
  have split : lists place = [] ++ lists place := rfl
  rcases keeps.insert live detached split seam with ⟨added, kept⟩
  refine ⟨_, ?_, kept⟩
  have first : memory.next (.head place) = .ok right := by
    rw [Memory.next_eq rfl, (keeps.represents.joined split seam).1]
  unfold listAdd
  rw [first]
  exact added

/-- The cells around an item of a list, and what becomes of them when it is deleted. -/
theorem listDelEntry_eq (keeps : memory.Keeps lists) (member : item ∈ lists place) :
    Exists fun left => Exists fun right =>
      listDelEntry (.item item) memory = .ok (memory.relink (memory.links.join left right)) ∧
        (memory.relink ((memory.links.join left right).join (.item item) (.item item))).Keeps
          (Function.update lists place ((lists place).erase item)) := by
  rcases List.mem_iff_append.mp member with ⟨before, after, split⟩
  rcases Links.exists_seam place before after with ⟨front, left, right, back, seam⟩
  have whole : Links.ring place (before ++ item :: after) = front ++ left :: .item item :: right :: back :=
    Links.ring_cons_of_seam seam
  have isLeft : left ∈ Links.ring place (lists place) := by
    rw [split, whole]
    exact List.mem_append_right _ List.mem_cons_self
  have isRight : right ∈ Links.ring place (lists place) := by
    rw [split, whole]
    exact List.mem_append_right _ (List.mem_cons_of_mem _ (List.mem_cons_of_mem _ List.mem_cons_self))
  have holds : memory.holds (.item item) = true := keeps.live place item member
  have neighbours := keeps.represents.neighbours split seam
  have nodup := keeps.represents.nodup place
  have erased : (lists place).erase item = before ++ after := by
    rw [split] at nodup ⊢
    rw [List.erase_append_right _ (fun early => (List.nodup_append'.mp nodup).2.2 early List.mem_cons_self),
      List.erase_cons_head]
  refine ⟨left, right, ?_, ?_⟩
  · unfold listDelEntry
    rw [Memory.prev_eq holds, neighbours.1]
    dsimp only [bind, Except.bind]
    rw [Memory.next_eq holds, neighbours.2]
    exact listDelBetween_eq (keeps.holds isLeft) (keeps.holds isRight)
  · rw [erased]
    apply keeps.update (keeps.represents.remove split seam)
    intro other inside
    apply keeps.live place other
    rw [split, List.mem_append, List.mem_cons]
    rcases List.mem_append.mp inside with early | late
    · exact Or.inl early
    · exact Or.inr (Or.inr late)

theorem listDelInit_keeps (keeps : memory.Keeps lists) (member : item ∈ lists place) :
    Exists fun links => listDelInit (.item item) memory = .ok (memory.relink links) ∧
      (memory.relink links).Keeps (Function.update lists place ((lists place).erase item)) := by
  rcases listDelEntry_eq keeps member with ⟨left, right, deleted, kept⟩
  refine ⟨_, ?_, kept⟩
  have holds : (memory.relink (memory.links.join left right)).holds (.item item) = true :=
    keeps.live place item member
  unfold listDelInit
  rw [deleted]
  exact initListHead_eq holds

/-- What is deleted from its list is in none. -/
theorem Memory.Keeps.detached_of_erase (keeps : memory.Keeps lists) (member : item ∈ lists place) (other : Place) :
    item ∉ Function.update lists place ((lists place).erase item) other := by
  intro inside
  by_cases here : other = place
  · subst here
    rw [Function.update_self] at inside
    exact (keeps.represents.nodup other).not_mem_erase inside
  · rw [Function.update_of_ne here] at inside
    exact here (keeps.represents.eq_of_mem inside member)

omit [DecidableEq Place] in
/-- A structure in no list can be freed. -/
theorem Memory.Keeps.free (keeps : memory.Keeps lists) (live : memory.live item = true)
    (detached : forall place, item ∉ lists place) :
    Exists fun memory' => memory.free item = .ok memory' ∧ memory'.Keeps lists ∧
      memory'.live = Function.update memory.live item false := by
  refine ⟨_, if_pos live, ⟨⟨keeps.represents.rings, ?_⟩, ?_⟩, rfl⟩
  · intro other live nowhere
    apply keeps.represents.alone other _ nowhere
    by_cases same : other = item
    · rw [Set.mem_ofPred_eq, same] at live
      exact absurd ((Function.update_self ..).symm.trans live) Bool.false_ne_true
    · exact (Function.update_of_ne same ..).symm.trans live
  · intro place other member
    have different : other ≠ item := fun same => detached place (same ▸ member)
    exact (Function.update_of_ne different ..).trans (keeps.live place other member)

/-- A head on which `INIT_LIST_HEAD` has been called has an empty list. -/
theorem initListHead_head (memory : Memory Place Item) (place : Place) :
    Exists fun links => initListHead (.head place) memory = .ok (memory.relink links) ∧
      links.Joined (.head place) (.head place) ∧ forall other : Place,
        memory.links.Joined (.head other) (.head other) -> links.Joined (.head other) (.head other) := by
  refine ⟨_, initListHead_eq rfl, Links.joined_join .., ?_⟩
  intro other empty
  by_cases same : other = place
  · subst same
    exact Links.joined_join ..
  · have different : (.head place : Cell Place Item) ≠ .head other := fun equal => same (Cell.head.inj equal).symm
    exact Links.joined_join_elsewhere empty different different

omit [DecidableEq Place] [DecidableEq Item] in
/-- Empty lists, before anything has been allocated. -/
theorem Memory.keeps_nil (heads : forall place, memory.links.Joined (.head place) (.head place))
    (dead : forall item, memory.live item = false) : memory.Keeps fun _ => [] := by
  refine ⟨⟨?_, ?_⟩, fun _ _ never => absurd never List.not_mem_nil⟩
  · intro place
    exact List.isChain_pair.mpr (heads place)
  · intro item live
    exact absurd ((dead item).symm.trans live) Bool.false_ne_true

/-- A structure is allocated, and its own cell is made an empty list. -/
theorem Memory.Keeps.create (keeps : memory.Keeps lists) (fresh : memory.live item = false) :
    Exists fun links => initListHead (.item item) (memory.allocate item) = .ok ((memory.allocate item).relink links) ∧
      ((memory.allocate item).relink links).Keeps lists := by
  have live : (memory.allocate item).live item = true := Function.update_self ..
  have detached : forall place, item ∉ lists place := by
    intro place member
    exact absurd (fresh.symm.trans (keeps.live place item member)) Bool.false_ne_true
  have nowhere : forall place, .item item ∉ Links.ring place (lists place) :=
    fun place => Links.not_mem_ring (detached place)
  refine ⟨_, initListHead_eq live, ⟨?_, ?_⟩, ?_⟩
  · exact fun place => Links.isChain_join_elsewhere (keeps.represents.rings place) (nowhere place) (nowhere place)
  · intro other inside absent
    by_cases same : other = item
    · subst same
      exact Links.joined_join ..
    · have different : (.item item : Cell Place Item) ≠ .item other := fun equal => same (Cell.item.inj equal).symm
      have before : memory.live other = true := (Function.update_of_ne same ..).symm.trans inside
      exact Links.joined_join_elsewhere (keeps.represents.alone other before absent) different different
  · intro place other member
    have different : other ≠ item := fun same => detached place (same ▸ member)
    exact (Function.update_of_ne different ..).trans (keeps.live place other member)

/-- A member of one list becomes the last one of another, without being alone in
between. -/
theorem listMoveTail_keeps (keeps : memory.Keeps lists) (member : item ∈ lists place) (other : Place) :
    Exists fun links => listMoveTail (.item item) (.head other) memory = .ok (memory.relink links) ∧
      (memory.relink links).Keeps (Function.update (Function.update lists place ((lists place).erase item)) other
        (Function.update lists place ((lists place).erase item) other ++ [item])) := by
  rcases listDelEntry_eq keeps member with ⟨left, right, deleted, kept⟩
  have live := keeps.live place item member
  have detached := keeps.detached_of_erase member
  rcases Links.exists_seam other (Function.update lists place ((lists place).erase item) other) [] with
    ⟨front, last, head, back, seam⟩
  have isHead := (List.cons.inj seam.back).1
  subst isHead
  have split := (List.append_nil (Function.update lists place ((lists place).erase item) other)).symm
  have isLast : last ∈ Links.ring other (Function.update lists place ((lists place).erase item) other) :=
    split ▸ seam.left_mem
  have notLast : last ≠ .item item := by
    rintro rfl
    exact Links.not_mem_ring (detached other) isLast
  have apart : (.head other : Cell Place Item) ≠ .item item := nofun
  have moved := (kept.insert live detached split seam).2
  have links : (((memory.links.join left right).join (.item item) (.item item)).join last (.item item)).join
      (.item item) (.head other) =
        ((memory.links.join left right).join last (.item item)).join (.item item) (.head other) :=
    Links.join_join_of_ne notLast
  refine ⟨_, ?_, links ▸ moved⟩
  have found : (memory.relink (memory.links.join left right)).prev (.head other) = .ok last := by
    have joined := (kept.represents.joined split seam).2
    rw [Memory.prev_eq rfl, ← joined]
    exact congrArg Except.ok (Function.update_of_ne apart (.item item) _).symm
  unfold listMoveTail listAddTail
  rw [deleted]
  dsimp only [bind, Except.bind]
  rw [found]
  have holds : (memory.relink (memory.links.join left right)).holds (.item item) = true := live
  exact listAddBetween_eq holds (kept.holds isLast) rfl (Ne.symm notLast) nofun

/-- A head says whether its list is empty. -/
theorem listEmpty_head (keeps : memory.Keeps lists) (place : Place) :
    listEmpty (.head place) memory = .ok (decide (lists place = [])) := by
  unfold listEmpty
  rw [Memory.next_eq rfl, keeps.represents.next_head]
  cases lists place with
  | nil => exact congrArg Except.ok ((decide_eq_true rfl).trans (decide_eq_true rfl).symm)
  | cons first rest => exact congrArg Except.ok ((decide_eq_false nofun).trans (decide_eq_false nofun).symm)

/-- An item that is in no list has an empty list itself. -/
theorem listEmpty_of_detached (keeps : memory.Keeps lists) (live : memory.live item = true)
    (detached : forall place, item ∉ lists place) : listEmpty (.item item) memory = .ok true := by
  have alone := keeps.represents.alone item live detached
  have holds : memory.holds (.item item) = true := live
  unfold listEmpty
  rw [Memory.next_eq holds, alone.1]
  exact congrArg Except.ok (decide_eq_true rfl)

/-- The loop over a list with a body that may break it. -/
def foldBreak {Fault' Result : Type} (body : Item -> Result -> Except Fault' (Bool × Result)) :
    List Item -> Result -> Except Fault' Result
  | [], result => .ok result
  | item :: rest, result =>
      match body item result with
      | .error fault => .error fault
      | .ok (true, result) => .ok result
      | .ok (false, result) => foldBreak body rest result

/-- The loop visits the entries of the list in their order, and ends. -/
theorem listForEachEntry_eq {Fault' Result : Type} {raise : Fault -> Fault'}
    {body : Item -> Result -> Except Fault' (Bool × Result)} (keeps : memory.Keeps lists) {before rest : List Item}
    (split : lists place = before ++ rest) {fuel : Nat} (enough : rest.length < fuel) (result : Result) :
    listForEachEntry raise body (.head place) memory fuel (frontier place rest) result =
      foldBreak body rest result := by
  induction rest generalizing before fuel result with
  | nil =>
      cases fuel with
      | zero => exact absurd enough (Nat.not_lt_zero _)
      | succ fuel => exact if_pos rfl
  | cons item rest inductionHypothesis =>
      cases fuel with
      | zero => exact absurd enough (Nat.not_lt_zero _)
      | succ fuel =>
          have further : lists place = (before ++ [item]) ++ rest := by
            rw [split, List.append_assoc, List.singleton_append]
          have goesOn := next_of_mem keeps split
          have notHead : (frontier place (item :: rest) : Cell Place Item) ≠ .head place := nofun
          rw [listForEachEntry, if_neg notHead, foldBreak]
          dsimp only [frontier, List.head?_cons, Option.map_some, Option.getD_some, listEntry]
          cases body item result with
          | error fault => rfl
          | ok answer =>
              rcases answer with ⟨breaks, result⟩
              cases breaks with
              | true => rfl
              | false =>
                  dsimp only
                  rw [goesOn]
                  exact inductionHypothesis further (Nat.lt_of_succ_lt_succ enough) result

/-- A loop whose body never breaks it is a fold. -/
theorem listForEachEntry_foldl {Fault' Result View : Type} {raise : Fault -> Fault'}
    (body : Item -> Result -> Except Fault' (Bool × Result)) (view : View -> Result) (round : View -> Item -> View)
    (invariant : View -> Prop) (start : View) (keeps : memory.Keeps lists) (place : Place) {fuel : Nat}
    (enough : (lists place).length < fuel)
    (goesOn : forall item, item ∈ lists place -> forall walked, invariant walked ->
      body item (view walked) = .ok (false, view (round walked item)) ∧ invariant (round walked item))
    (initially : invariant start) :
    listForEachEntry raise body (.head place) memory fuel (frontier place (lists place)) (view start) =
      .ok (view ((lists place).foldl round start)) := by
  have fold : forall items, (forall item, item ∈ items -> item ∈ lists place) -> forall walked, invariant walked ->
      foldBreak body items (view walked) = .ok (view (items.foldl round walked)) := by
    intro items
    induction items with
    | nil => exact fun _ _ _ => rfl
    | cons item items inductionHypothesis =>
        intro members walked holds
        rcases goesOn item (members item List.mem_cons_self) walked holds with ⟨went, kept⟩
        rw [foldBreak, went]
        exact inductionHypothesis (fun later member => members later (List.mem_cons_of_mem _ member)) _ kept
  have split : lists place = [] ++ lists place := rfl
  rw [listForEachEntry_eq keeps split enough]
  exact fold _ (fun _ member => member) start initially

end Keeps
end LinkedLists
end OsPa
