import Mathlib.Data.Finset.Card
import Mathlib.Logic.Function.Basic

/-!
# Slots that share frames

A table assigns to each slot at most one frame, and says whether the frame may
be written through the slot.  Several slots may name one frame.  Copy-on-write
rests on two facts about such a table: how many slots name a frame, and that
a frame that may be written through some slot is named by no other slot.

Every operation of a copy-on-write store sets one slot at a time, so the
library has one lemma about each fact for `Table.set`.  Which slots exist is a
parameter; a slot outside the family counts for nothing.
-/

namespace OsPa
namespace Library

universe u v w

structure Table (Slot : Type u) (Frame : Type v) where
  target : Slot -> Option Frame
  writable : Slot -> Bool

namespace Table

variable {Slot : Type u} {Frame : Type v} [DecidableEq Slot] [DecidableEq Frame]

/-- Let one slot name a frame, or nothing. -/
def set (table : Table Slot Frame) (slot : Slot) (frame : Option Frame) (write : Bool) :
    Table Slot Frame where
  target := Function.update table.target slot frame
  writable := Function.update table.writable slot write

/-- The number of slots of the family that name the frame. -/
def references (table : Table Slot Frame) (slots : Finset Slot) (frame : Frame) : Nat :=
  (slots.filter fun slot => table.target slot = some frame).card

/-- No frame is shared by two slots of which one may write it. -/
def Isolated (table : Table Slot Frame) (slots : Finset Slot) : Prop :=
  forall left, left ∈ slots -> forall right, right ∈ slots -> left ≠ right -> forall frame,
    table.target left = some frame -> table.target right = some frame ->
      table.writable left = false ∧ table.writable right = false

variable {table : Table Slot Frame} {slots : Finset Slot}

omit [DecidableEq Slot] in
theorem references_pos {slot : Slot} {frame : Frame} (member : slot ∈ slots)
    (named : table.target slot = some frame) : 0 < table.references slots frame :=
  Finset.card_pos.mpr ⟨slot, Finset.mem_filter.mpr ⟨member, named⟩⟩

omit [DecidableEq Slot] in
/-- A frame without references is named by no slot. -/
theorem target_ne_of_references_eq_zero (table : Table Slot Frame) {slot : Slot} {frame : Frame} (member : slot ∈ slots)
    (unreferenced : table.references slots frame = 0) : table.target slot ≠ some frame :=
  fun named => Nat.ne_of_gt (references_pos member named) unreferenced

omit [DecidableEq Slot] in
/-- Two slots that name a frame with at most one reference are the same. -/
theorem eq_of_references_le_one (table : Table Slot Frame) {left right : Slot} {frame : Frame}
    (single : table.references slots frame ≤ 1)
    (leftMember : left ∈ slots) (leftNamed : table.target left = some frame)
    (rightMember : right ∈ slots) (rightNamed : table.target right = some frame) : left = right :=
  Finset.card_le_one.mp single left (Finset.mem_filter.mpr ⟨leftMember, leftNamed⟩)
    right (Finset.mem_filter.mpr ⟨rightMember, rightNamed⟩)

/-- Adding a copy of some slots, each at its own new place, adds the copies'
references to those there were. -/
theorem references_copy {Original : Type w} (table other : Table Slot Frame) (copies : Finset Original)
    (place : Original ↪ Slot)
    (fresh : forall original, original ∈ copies -> place original ∉ slots)
    (sameTargets : forall slot, slot ∈ slots -> other.target slot = table.target slot) (frame : Frame) :
    other.references (slots ∪ copies.map place) frame = table.references slots frame +
      (copies.filter fun original => other.target (place original) = some frame).card := by
  have apart : Disjoint slots (copies.map place) := by
    apply Finset.disjoint_right.mpr
    intro slot copied
    rcases Finset.mem_map.mp copied with ⟨original, member, rfl⟩
    exact fresh original member
  have old : (slots.filter fun slot => other.target slot = some frame) =
      slots.filter fun slot => table.target slot = some frame :=
    Finset.filter_congr fun slot member => by rw [sameTargets slot member]
  rw [references, Finset.filter_union, Finset.card_union_of_disjoint
    (Finset.disjoint_filter_filter apart), old, Finset.filter_map, Finset.card_map]
  rfl

/-- Setting one slot moves one reference from the frame it named to the frame
it names now. -/
theorem references_set {slot : Slot} (member : slot ∈ slots) (named : Option Frame) (write : Bool)
    (frame : Frame) :
    (table.set slot named write).references slots frame + (if table.target slot = some frame then 1 else 0) =
      table.references slots frame + (if named = some frame then 1 else 0) := by
  have others : ((slots.erase slot).filter fun other => (table.set slot named write).target other = some frame) =
      (slots.erase slot).filter fun other => table.target other = some frame := by
    apply Finset.filter_congr
    intro other listed
    simp only [set, Function.update_of_ne (Finset.ne_of_mem_erase listed)]
  have split : forall any : Table Slot Frame, any.references slots frame =
      ((slots.erase slot).filter fun other => any.target other = some frame).card +
        (if any.target slot = some frame then 1 else 0) := by
    intro any
    have whole : insert slot (slots.erase slot) = slots := Finset.insert_erase member
    rw [references, ← whole, Finset.filter_insert, Finset.erase_insert (Finset.notMem_erase slot slots)]
    split
    · rw [Finset.card_insert_of_notMem (fun listed =>
        Finset.notMem_erase slot slots (Finset.mem_filter.mp listed).1)]
    · rfl
  have now : (table.set slot named write).target slot = named := Function.update_self ..
  rw [split (table.set slot named write), split table, others, now]
  omega

omit [DecidableEq Frame] in
/-- Setting one slot keeps isolation when no other slot that names its new
frame can write, and the slot cannot write either unless it is alone. -/
theorem Isolated.set {slot : Slot} {named : Option Frame} {write : Bool}
    (isolated : table.Isolated slots)
    (alone : forall other, other ∈ slots -> other ≠ slot -> forall frame, named = some frame ->
      table.target other = some frame -> write = false ∧ table.writable other = false) :
    (table.set slot named write).Isolated slots := by
  intro left leftMember right rightMember different frame leftNamed rightNamed
  by_cases leftSame : left = slot
  · subst left
    have rightOther : right ≠ slot := different.symm
    simp only [Table.set, Function.update_self, Function.update_of_ne rightOther] at leftNamed rightNamed ⊢
    exact alone right rightMember rightOther frame leftNamed rightNamed
  · by_cases rightSame : right = slot
    · subst right
      simp only [Table.set, Function.update_self, Function.update_of_ne leftSame] at leftNamed rightNamed ⊢
      exact (alone left leftMember leftSame frame rightNamed leftNamed).symm
    · simp only [Table.set, Function.update_of_ne leftSame, Function.update_of_ne rightSame]
        at leftNamed rightNamed ⊢
      exact isolated left leftMember right rightMember different frame leftNamed rightNamed

end Table
end Library
end OsPa
