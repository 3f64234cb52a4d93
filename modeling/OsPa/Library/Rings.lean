import Mathlib.Data.List.Chain
import Mathlib.Data.List.Nodup
import Mathlib.Data.Set.Basic
import Mathlib.Logic.Function.Basic

/-!
# Rings of linked cells

A list is kept as a ring of cells that know the next and the previous one, which
begins and ends with the head of the list.  A cell that is in no list is a ring of
its own.  All rings live in one memory, so that a store to the wrong cell can
damage any of them.

`Represents` says which lists the links stand for.  The rings are followed from
cell to cell, which is why they determine the lists: an item is never twice in a
list or in two lists.  Linking a cell in and out changes one list and leaves the
others alone.
-/

namespace OsPa
namespace Library

universe u v w

/-- The head of the list of a place, or an item to be linked into it. -/
inductive Cell (Place : Type u) (Item : Type v)
  | head (place : Place)
  | item (item : Item)
  deriving DecidableEq

structure Links (Node : Type u) where
  next : Node -> Node
  prev : Node -> Node

namespace Links

section Joined

variable {Node : Type u} {links links' : Links Node}

/-- The right node follows the left one, and both say so. -/
def Joined (links : Links Node) (left right : Node) : Prop := links.next left = right ∧ links.prev right = left

/-- Of a chain, the last node is not asked for the next one, and the first node not
for the previous one. -/
theorem isChain_congr {nodes : List Node} (chain : nodes.IsChain links.Joined)
    (next : forall node, node ∈ nodes.dropLast -> links'.next node = links.next node)
    (prev : forall node, node ∈ nodes.tail -> links'.prev node = links.prev node) :
    nodes.IsChain links'.Joined := by
  induction nodes with
  | nil => exact List.isChain_nil
  | cons first rest inductionHypothesis =>
      cases rest with
      | nil => exact List.isChain_singleton first
      | cons second rest =>
          rw [List.isChain_cons_cons] at chain ⊢
          rw [List.dropLast_cons_cons] at next
          rw [List.tail_cons] at prev
          refine ⟨⟨(next first List.mem_cons_self).trans chain.1.1,
            (prev second List.mem_cons_self).trans chain.1.2⟩, ?_⟩
          apply inductionHypothesis chain.2
          · exact fun node member => next node (List.mem_cons_of_mem _ member)
          · exact fun node member => prev node (List.mem_cons_of_mem _ member)

variable [DecidableEq Node]

/-- Let the right node follow the left one. -/
def join (links : Links Node) (left right : Node) : Links Node where
  next := Function.update links.next left right
  prev := Function.update links.prev right left

theorem joined_join (links : Links Node) (left right : Node) : (links.join left right).Joined left right :=
  ⟨Function.update_self .., Function.update_self ..⟩

/-- A chain is kept when other nodes are joined. -/
theorem isChain_join {nodes : List Node} (chain : nodes.IsChain links.Joined) {left right : Node}
    (notLeft : left ∉ nodes.dropLast) (notRight : right ∉ nodes.tail) :
    nodes.IsChain (links.join left right).Joined := by
  apply isChain_congr chain
  · intro node member
    exact Function.update_of_ne (ne_of_mem_of_not_mem member notLeft) ..
  · intro node member
    exact Function.update_of_ne (ne_of_mem_of_not_mem member notRight) ..

/-- Two chains are put together by joining the end of one to the beginning of the
other. -/
theorem isChain_append_join {before after : List Node} {left right : Node}
    (first : (before ++ [left]).IsChain links.Joined) (second : (right :: after).IsChain links.Joined)
    (leftOnce : left ∉ before) (rightOnce : right ∉ after) (notLeft : left ∉ (right :: after).dropLast)
    (notRight : right ∉ (before ++ [left]).tail) :
    (before ++ left :: right :: after).IsChain (links.join left right).Joined := by
  rw [List.isChain_append_cons_cons]
  refine ⟨isChain_join first ?_ notRight, links.joined_join left right, isChain_join second notLeft rightOnce⟩
  rw [List.dropLast_concat]
  exact leftOnce

end Joined

/-! ## The rings of several lists -/

section Rings

variable {Place : Type u} {Item : Type v}

/-- The cells of a list in their order, with the head at both ends. -/
def ring (place : Place) (items : List Item) : List (Cell Place Item) :=
  .head place :: (items.map .item ++ [.head place])

/-- The links stand for these lists, and the other items of the memory are alone. -/
structure Represents (links : Links (Cell Place Item)) (memory : Set Item) (lists : Place -> List Item) : Prop where
  rings : forall place, (ring place (lists place)).IsChain links.Joined
  alone : forall item, item ∈ memory -> (forall place, item ∉ lists place) -> links.Joined (.item item) (.item item)

variable {links : Links (Cell Place Item)} {memory : Set Item} {lists : Place -> List Item} {place : Place}

/-- Whoever follows the links from a cell comes through the same items to the same
head. -/
theorem follow_unique {start : Cell Place Item} {items items' : List Item} {place place' : Place}
    (chain : (start :: (items.map .item ++ [.head place])).IsChain links.Joined)
    (chain' : (start :: (items'.map .item ++ [.head place'])).IsChain links.Joined) :
    items = items' ∧ place = place' := by
  induction items generalizing start items' with
  | nil =>
      have ends := chain.rel_head? rfl
      cases items' with
      | nil => exact ⟨rfl, Cell.head.inj (ends.1.symm.trans (chain'.rel_head? rfl).1)⟩
      | cons first' rest' => cases ends.1.symm.trans (chain'.rel_head? rfl).1
  | cons first rest inductionHypothesis =>
      have goesOn := chain.rel_head? rfl
      cases items' with
      | nil => cases goesOn.1.symm.trans (chain'.rel_head? rfl).1
      | cons first' rest' =>
          cases goesOn.1.symm.trans (chain'.rel_head? rfl).1
          rcases inductionHypothesis chain.tail chain'.tail with ⟨rfl, same⟩
          exact ⟨rfl, same⟩

/-- The chain that begins at an item of a list. -/
theorem Represents.isChain_from (represents : links.Represents memory lists) {place : Place} {item : Item}
    {before after : List Item} (split : lists place = before ++ item :: after) :
    ((.item item : Cell Place Item) :: (after.map .item ++ [.head place])).IsChain links.Joined := by
  have chain := represents.rings place
  unfold Links.ring at chain
  rw [split, List.map_append, List.append_assoc, List.map_cons] at chain
  exact chain.suffix ⟨.head place :: before.map .item, rfl⟩

/-- An item is in one list at most. -/
theorem Represents.eq_of_mem (represents : links.Represents memory lists) {place place' : Place} {item : Item}
    (member : item ∈ lists place) (member' : item ∈ lists place') : place = place' := by
  rcases List.mem_iff_append.mp member with ⟨before, after, split⟩
  rcases List.mem_iff_append.mp member' with ⟨before', after', split'⟩
  exact (follow_unique (represents.isChain_from split) (represents.isChain_from split')).2

/-- No list has an item twice. -/
theorem Represents.nodup (represents : links.Represents memory lists) (place : Place) : (lists place).Nodup := by
  have suffixes : forall before after : List Item, lists place = before ++ after -> after.Nodup := by
    intro before after
    induction after generalizing before with
    | nil => exact fun _ => List.nodup_nil
    | cons item after inductionHypothesis =>
        intro split
        have further : lists place = (before ++ [item]) ++ after := by
          rw [split, List.append_assoc, List.singleton_append]
        refine List.nodup_cons.mpr ⟨?_, inductionHypothesis (before ++ [item]) further⟩
        -- What follows the second occurrence would be what follows the first one.
        intro again
        rcases List.mem_iff_append.mp again with ⟨between, rest, rfl⟩
        have split' : lists place = (before ++ item :: between) ++ item :: rest := by
          rw [split, List.append_assoc, List.cons_append]
        have same := (follow_unique (represents.isChain_from split) (represents.isChain_from split')).1
        have lengths := congrArg List.length same
        rw [List.length_append, List.length_cons] at lengths
        omega
  exact suffixes [] (lists place) rfl

theorem mem_ring {place : Place} {items : List Item} {cell : Cell Place Item} :
    cell ∈ ring place items ↔ cell = .head place ∨ Exists fun item => item ∈ items ∧ cell = .item item := by
  unfold ring
  rw [List.mem_cons, List.mem_append, List.mem_singleton, List.mem_map]
  constructor
  · rintro (same | ⟨item, member, rfl⟩ | same)
    · exact Or.inl same
    · exact Or.inr ⟨item, member, rfl⟩
    · exact Or.inl same
  · rintro (same | ⟨item, member, rfl⟩)
    · exact Or.inl same
    · exact Or.inr (Or.inl ⟨item, member, rfl⟩)

/-- Rings have no cell in common. -/
theorem Represents.disjoint (represents : links.Represents memory lists) {place place' : Place}
    {cell : Cell Place Item} (member : cell ∈ ring place (lists place)) (member' : cell ∈ ring place' (lists place')) :
    place = place' := by
  rcases mem_ring.mp member with rfl | ⟨item, inside, rfl⟩
  · rcases mem_ring.mp member' with same | ⟨item, _, impossible⟩
    · exact Cell.head.inj same
    · cases impossible
  · rcases mem_ring.mp member' with impossible | ⟨item', inside', same⟩
    · cases impossible
    · cases same
      exact represents.eq_of_mem inside inside'

section Seams

variable {item : Item} {before after : List Item} {left right : Cell Place Item}
  {front back : List (Cell Place Item)}

/-- The cells on the two sides of a place in a list. -/
structure Seam (place : Place) (before after : List Item) (front : List (Cell Place Item))
    (left right : Cell Place Item) (back : List (Cell Place Item)) : Prop where
  front : .head place :: before.map .item = front ++ [left]
  back : after.map .item ++ [.head place] = right :: back

/-- When no item is twice in the list, the cells at a seam are nowhere else on their
side, and not on the other side. -/
theorem Seam.once (seam : Seam place before after front left right back) (nodup : (before ++ after).Nodup) :
    left ∉ front ∧ right ∉ back ∧ left ∉ (right :: back).dropLast ∧ right ∉ (front ++ [left]).tail := by
  have parts := List.nodup_append'.mp nodup
  have injective : Function.Injective (Cell.item : Item -> Cell Place Item) := fun _ _ => Cell.item.inj
  have notHead : forall items : List Item, (.head place : Cell Place Item) ∉ items.map .item := by
    intro items member
    rcases List.mem_map.mp member with ⟨_, _, impossible⟩
    cases impossible
  have disjoint : List.Disjoint (before.map (Cell.item : Item -> Cell Place Item)) (after.map .item) := by
    intro cell early late
    rcases List.mem_map.mp early with ⟨item, member, rfl⟩
    exact parts.2.2 member ((List.mem_map_of_injective injective).mp late)
  have nodupFront : ((.head place : Cell Place Item) :: before.map .item).Nodup :=
    List.nodup_cons.mpr ⟨notHead before, parts.1.map injective⟩
  have nodupBack : (after.map Cell.item ++ [(.head place : Cell Place Item)]).Nodup :=
    (parts.2.1.map injective).append (List.nodup_singleton _) (List.disjoint_singleton.mpr (notHead after))
  have isLeft : left ∈ (.head place : Cell Place Item) :: before.map .item := by
    rw [seam.front]
    exact List.mem_append_right _ List.mem_cons_self
  have isRight : right ∈ after.map Cell.item ++ [.head place] := by
    rw [seam.back]
    exact List.mem_cons_self
  refine ⟨?_, ?_, ?_, ?_⟩
  · rw [seam.front] at nodupFront
    exact fun member => (List.nodup_append'.mp nodupFront).2.2 member List.mem_cons_self
  · rw [seam.back] at nodupBack
    exact (List.nodup_cons.mp nodupBack).1
  · rw [← seam.back, List.dropLast_concat]
    intro late
    rcases List.mem_cons.mp isLeft with rfl | early
    · exact notHead after late
    · exact disjoint early late
  · rw [← seam.front, List.tail_cons]
    intro early
    rcases List.mem_append.mp isRight with late | same
    · exact disjoint early late
    · rw [List.mem_singleton.mp same] at early
      exact notHead before early

theorem Seam.ring_eq (seam : Seam place before after front left right back) :
    ring place (before ++ after) = front ++ left :: right :: back := by
  unfold ring
  rw [List.map_append, List.append_assoc, seam.back, ← List.cons_append, seam.front, List.append_assoc,
    List.singleton_append]

/-- The cells at a seam are in no other ring, and not alone. -/
theorem Represents.not_elsewhere (represents : links.Represents memory lists) {cell : Cell Place Item}
    (member : cell ∈ ring place (lists place)) :
    (forall other, other ≠ place -> cell ∉ ring other (lists other)) ∧
      forall other, (forall place, other ∉ lists place) -> cell ≠ .item other := by
  refine ⟨fun other different found => different (represents.disjoint found member), ?_⟩
  rintro other nowhere rfl
  rcases mem_ring.mp member with impossible | ⟨item, inside, same⟩
  · cases impossible
  · exact nowhere place (Cell.item.inj same ▸ inside)

theorem ring_cons_of_seam (seam : Seam place before after front left right back) :
    ring place (before ++ item :: after) = front ++ left :: .item item :: right :: back := by
  unfold ring
  rw [List.map_append, List.append_assoc, List.map_cons, List.cons_append, seam.back, ← List.cons_append, seam.front,
    List.append_assoc, List.singleton_append]

theorem Seam.left_mem (seam : Seam place before after front left right back) :
    left ∈ ring place (before ++ after) := by
  rw [seam.ring_eq]
  exact List.mem_append_right _ List.mem_cons_self

theorem Seam.right_mem (seam : Seam place before after front left right back) :
    right ∈ ring place (before ++ after) := by
  rw [seam.ring_eq]
  exact List.mem_append_right _ (List.mem_cons_of_mem _ List.mem_cons_self)

theorem not_mem_ring {items : List Item} (absent : item ∉ items) : .item item ∉ ring place items := by
  intro member
  rcases mem_ring.mp member with impossible | ⟨other, inside, same⟩
  · cases impossible
  · exact absent (Cell.item.inj same ▸ inside)

theorem exists_seam (place : Place) (before after : List Item) : Exists fun front => Exists fun left =>
    Exists fun right => Exists fun back => Seam place before after front left right back := by
  rcases List.eq_nil_or_concat ((.head place : Cell Place Item) :: before.map .item) with never | ⟨front, left, isFront⟩
  · cases never
  · rcases List.exists_cons_of_ne_nil (List.append_ne_nil_of_right_ne_nil (after.map .item)
      (List.cons_ne_nil (.head place : Cell Place Item) [])) with ⟨right, back, isBack⟩
    exact ⟨front, left, right, back, isFront.trans List.concat_eq_append, isBack⟩

/-- The cells on the two sides of an item that is in the list are its neighbours. -/
theorem Represents.neighbours (represents : links.Represents memory lists)
    (split : lists place = before ++ item :: after) (seam : Seam place before after front left right back) :
    links.prev (.item item) = left ∧ links.next (.item item) = right := by
  have chain := represents.rings place
  rw [split, ring_cons_of_seam seam, List.isChain_append_cons_cons, List.isChain_cons_cons] at chain
  exact ⟨chain.2.1.2, chain.2.2.1.1⟩

/-- The cells at a seam of a list are neighbours. -/
theorem Represents.joined (represents : links.Represents memory lists) (split : lists place = before ++ after)
    (seam : Seam place before after front left right back) : links.Joined left right := by
  have chain := represents.rings place
  rw [split, seam.ring_eq, List.isChain_append_cons_cons] at chain
  exact chain.2.1

/-- The next cell of the head is the first of the list, or the head itself. -/
theorem Represents.next_head (represents : links.Represents memory lists) :
    links.next (.head place) = ((lists place).head?.map Cell.item).getD (.head place) := by
  have chain := represents.rings place
  unfold Links.ring at chain
  cases first : lists place with
  | nil =>
      rw [first] at chain
      exact (chain.rel_head? rfl).1
  | cons item rest =>
      rw [first] at chain
      exact (chain.rel_head? rfl).1

end Seams

section Edits

variable [DecidableEq Place] [DecidableEq Item] {item : Item} {before after : List Item}
  {left right : Cell Place Item} {front back : List (Cell Place Item)}

theorem isChain_join_elsewhere {nodes : List (Cell Place Item)} (chain : nodes.IsChain links.Joined)
    (notLeft : left ∉ nodes) (notRight : right ∉ nodes) : nodes.IsChain (links.join left right).Joined :=
  isChain_join chain (fun member => notLeft (List.dropLast_subset _ member))
    (fun member => notRight (List.mem_of_mem_tail member))

theorem joined_join_elsewhere {node : Cell Place Item} (alone : links.Joined node node) (notLeft : left ≠ node)
    (notRight : right ≠ node) : (links.join left right).Joined node node :=
  ⟨(Function.update_of_ne (Ne.symm notLeft) ..).trans alone.1,
    (Function.update_of_ne (Ne.symm notRight) ..).trans alone.2⟩

/-- Linking an item in between two cells of a ring puts it into the list. -/
theorem Represents.insert (represents : links.Represents memory lists) (split : lists place = before ++ after)
    (seam : Seam place before after front left right back) (detached : forall place, item ∉ lists place) :
    ((links.join left (.item item)).join (.item item) right).Represents memory
      (Function.update lists place (before ++ item :: after)) := by
  rcases seam.once (split ▸ represents.nodup place) with ⟨leftOnce, rightOnce, notLeft, notRight⟩
  have isLeft : left ∈ ring place (lists place) := split ▸ seam.left_mem
  have isRight : right ∈ ring place (lists place) := split ▸ seam.right_mem
  have nowhere : forall place, .item item ∉ ring place (lists place) := fun place => not_mem_ring (detached place)
  have leftNot := represents.not_elsewhere isLeft
  have rightNot := represents.not_elsewhere isRight
  constructor
  case rings =>
    intro other
    by_cases here : other = place
    · subst here
      rw [Function.update_self, ring_cons_of_seam seam]
      have chain := represents.rings other
      have notItem := nowhere other
      rw [split, seam.ring_eq] at chain notItem
      rw [List.isChain_append_cons_cons] at chain
      have itemFront : .item item ∉ front ++ [left] := by
        intro member
        apply notItem
        rcases List.mem_append.mp member with early | same
        · exact List.mem_append_left _ early
        · rw [List.mem_singleton.mp same]
          exact List.mem_append_right _ List.mem_cons_self
      have itemBack : .item item ∉ right :: back :=
        fun member => notItem (List.mem_append_right _ (List.mem_cons_of_mem _ member))
      have first := isChain_append_join chain.1 (List.isChain_singleton (.item item)) leftOnce List.not_mem_nil
        List.not_mem_nil (fun member => itemFront (List.mem_of_mem_tail member))
      have second := isChain_join chain.2.2 notLeft (fun member => itemBack (List.mem_of_mem_tail member))
      rw [← List.singleton_append, ← List.append_assoc] at first ⊢
      apply isChain_append_join first second itemFront rightOnce
        (fun member => itemBack (List.dropLast_subset _ member))
      rw [List.tail_append_of_ne_nil (by simp), List.mem_append, List.mem_singleton, not_or]
      exact ⟨notRight, fun same => itemBack (same ▸ List.mem_cons_self)⟩
    · rw [Function.update_of_ne here]
      have chain := isChain_join_elsewhere (represents.rings other) (leftNot.1 other here) (nowhere other)
      exact isChain_join_elsewhere chain (nowhere other) (rightNot.1 other here)
  case alone =>
    intro other inside absent
    have different : (.item item : Cell Place Item) ≠ .item other := by
      intro same
      apply absent place
      rw [Function.update_self, Cell.item.inj same]
      exact List.mem_append_right _ List.mem_cons_self
    have before : forall place, other ∉ lists place := by
      intro place' member
      have stays := absent place'
      by_cases here : place' = place
      · subst here
        rw [Function.update_self] at stays
        rw [split] at member
        apply stays
        rcases List.mem_append.mp member with early | late
        · exact List.mem_append_left _ early
        · exact List.mem_append_right _ (List.mem_cons_of_mem _ late)
      · rw [Function.update_of_ne here] at stays
        exact stays member
    have alone := joined_join_elsewhere (represents.alone other inside before) (leftNot.2 other before) different
    exact joined_join_elsewhere alone different (rightNot.2 other before)

/-- Joining the neighbours of an item takes it out of its list, and closing its own
links leaves it alone. -/
theorem Represents.remove (represents : links.Represents memory lists)
    (split : lists place = before ++ item :: after) (seam : Seam place before after front left right back) :
    ((links.join left right).join (.item item) (.item item)).Represents memory
      (Function.update lists place (before ++ after)) := by
  have nodup := represents.nodup place
  rw [split, List.nodup_middle, List.nodup_cons] at nodup
  rcases seam.once nodup.2 with ⟨leftOnce, rightOnce, notLeft, notRight⟩
  have whole : ring place (lists place) = front ++ left :: .item item :: right :: back :=
    split ▸ ring_cons_of_seam seam
  have isLeft : left ∈ ring place (lists place) := by
    rw [whole]
    exact List.mem_append_right _ List.mem_cons_self
  have isItem : .item item ∈ ring place (lists place) := by
    rw [whole]
    exact List.mem_append_right _ (List.mem_cons_of_mem _ List.mem_cons_self)
  have isRight : right ∈ ring place (lists place) := by
    rw [whole]
    exact List.mem_append_right _ (List.mem_cons_of_mem _ (List.mem_cons_of_mem _ List.mem_cons_self))
  have leftNot := represents.not_elsewhere isLeft
  have itemNot := represents.not_elsewhere isItem
  have rightNot := represents.not_elsewhere isRight
  constructor
  case rings =>
    intro other
    by_cases here : other = place
    · subst here
      rw [Function.update_self]
      have notItem : .item item ∉ ring other (before ++ after) := not_mem_ring nodup.1
      have chain := represents.rings other
      rw [whole, List.isChain_append_cons_cons, List.isChain_cons_cons] at chain
      rw [seam.ring_eq] at notItem ⊢
      exact isChain_join_elsewhere
        (isChain_append_join chain.1 chain.2.2.2 leftOnce rightOnce notLeft notRight) notItem notItem
    · rw [Function.update_of_ne here]
      have chain := isChain_join_elsewhere (represents.rings other) (leftNot.1 other here) (rightNot.1 other here)
      exact isChain_join_elsewhere chain (itemNot.1 other here) (itemNot.1 other here)
  case alone =>
    intro other inside absent
    by_cases same : other = item
    · rw [same]
      exact joined_join ..
    · have before : forall place, other ∉ lists place := by
        intro place' member
        have stays := absent place'
        by_cases here : place' = place
        · subst here
          rw [Function.update_self, List.mem_append, not_or] at stays
          rw [split, List.mem_append, List.mem_cons] at member
          rcases member with early | now | late
          · exact stays.1 early
          · exact same now
          · exact stays.2 late
        · rw [Function.update_of_ne here] at stays
          exact stays member
      have alone := joined_join_elsewhere (represents.alone other inside before) (leftNot.2 other before)
        (rightNot.2 other before)
      have different : (.item item : Cell Place Item) ≠ .item other := fun equal => same (Cell.item.inj equal).symm
      exact joined_join_elsewhere alone different different

/-- An item that is linked in need not have been alone. -/
theorem join_join_of_ne {node : Cell Place Item} (different : left ≠ node) :
    ((links.join node node).join left node).join node right = (links.join left node).join node right := by
  have next : Function.update (Function.update (Function.update links.next node node) left node) node right =
      Function.update (Function.update links.next left node) node right := by
    rw [Function.update_comm (Ne.symm different), Function.update_idem]
  have prev : Function.update (Function.update (Function.update links.prev node node) node left) right node =
      Function.update (Function.update links.prev node left) right node := by
    rw [Function.update_idem]
  exact congrArg₂ Links.mk next prev

end Edits

end Rings
end Links
end Library
end OsPa
