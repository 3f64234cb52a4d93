import Mathlib.Data.Fintype.Prod
import OsPa.Library.Sharing
import OsPa.Vm.Framework

namespace OsPa
namespace Vm

open Library

/-!
# Page tables as total maps

Most of the memory manager does not care whether an entry is invalid or its
directory absent: neither can be translated.  `State.entry` reads every slot,
with the all-zero entry where the directory is absent, and on blocks that
`malloc` clears every store to a page table is then an update of that one
function.  `entryTable` forgets the rest and keeps what sharing is about: the
frame that a slot maps and whether it may be written through it.
-/

/-- The frame a valid entry maps. -/
def Pte.frame (entry : Pte) : Option Nat := if entry.valid then some entry.pfn else none

/-- The entry carries `ACCESS_WRITE`. -/
def Pte.canWrite (entry : Pte) : Bool := decide (entry.rw &&& accessWrite ≠ 0)

theorem Pte.frame_of_valid {entry : Pte} (valid : entry.valid = true) : entry.frame = some entry.pfn :=
  if_pos valid

theorem Pte.frame_eq_some {entry : Pte} {frame : Nat} :
    entry.frame = some frame ↔ entry.valid = true ∧ entry.pfn = frame := by
  cases valid : entry.valid <;> simp [Pte.frame, valid]

@[simp] theorem Pte.frame_zero : Pte.zero.frame = none := rfl

/-- What a valid entry can look like: it maps a frame that exists, and it was
allocated either for reading, and is read-only, or for both, and may have been
write-protected since. -/
def Pte.Permitted (entry : Pte) : Prop :=
  entry.pfn < nrPageframes ∧
    ((entry.priv = 1 ∧ entry.rw = 1) ∨ (entry.priv = 3 ∧ (entry.rw = 1 ∨ entry.rw = 3)))

theorem Pte.canWrite_of_rw {entry : Pte} (readOnly : entry.rw = 1) : entry.canWrite = false := by
  simp [Pte.canWrite, readOnly, accessWrite]

theorem Pte.Permitted.rw_cases {entry : Pte} (permitted : entry.Permitted) :
    entry.rw = 1 ∨ entry.rw = 3 := by
  rcases permitted.2 with ⟨_, readOnly⟩ | ⟨_, flags⟩
  · exact Or.inl readOnly
  · exact flags

namespace State

/-- The entry of a slot, all zero where the directory is absent. -/
def entry (state : State) (slot : Slot) : Pte := (state.pte slot).getD Pte.zero

theorem entry_of_pte {state : State} {slot : Slot} {pte : Pte} (stored : state.pte slot = some pte) :
    state.entry slot = pte := by
  rw [entry, stored, Option.getD_some]

theorem entry_of_absent {state : State} {slot : Slot} (absent : state.pte slot = none) :
    state.entry slot = Pte.zero := by
  rw [entry, absent, Option.getD_none]

/-- A valid entry is really stored. -/
theorem pte_of_valid {state : State} {slot : Slot} (valid : (state.entry slot).valid = true) :
    state.pte slot = some (state.entry slot) := by
  cases stored : state.pte slot with
  | none =>
      rw [entry_of_absent stored] at valid
      cases valid
  | some pte => rw [entry_of_pte stored]

/-- The entry for a page of a process, all zero for a page outside the outer
table. -/
def page (state : State) (process vpn : Nat) : Pte :=
  match pdeIndex vpn with
  | none => Pte.zero
  | some directory => state.entry (process, directory, pteIndex vpn)

theorem page_of_indexed {vpn : Nat} {directory : Fin nrPdesPerPage} (indexed : pdeIndex vpn = some directory)
    (state : State) (process : Nat) : state.page process vpn = state.entry (process, directory, pteIndex vpn) := by
  rw [page, indexed]

/-- A property of two entries for each slot holds of the entries for each page. -/
theorem page_forall (property : Pte -> Pte -> Prop) {before after : State} {process source : Nat}
    (zero : property Pte.zero Pte.zero)
    (entries : forall place, property (after.entry (process, place)) (before.entry (source, place))) (vpn : Nat) :
    property (after.page process vpn) (before.page source vpn) := by
  cases indexed : pdeIndex vpn with
  | none =>
      simp only [page, indexed]
      exact zero
  | some directory =>
      rw [page_of_indexed indexed, page_of_indexed indexed]
      exact entries (directory, pteIndex vpn)

/-- A store to the entry for a page changes the entry for no other page. -/
theorem page_update {before after : State} {owner vpn : Nat} {directory : Fin nrPdesPerPage} {stored : Pte}
    (indexed : pdeIndex vpn = some directory)
    (entry : after.entry = Function.update before.entry (owner, directory, pteIndex vpn) stored)
    (process other : Nat) :
    after.page process other = if process = owner ∧ other = vpn then stored else before.page process other := by
  by_cases here : process = owner ∧ other = vpn
  · rcases here with ⟨rfl, rfl⟩
    rw [page_of_indexed indexed, entry, Function.update_self, if_pos ⟨rfl, rfl⟩]
  · rw [if_neg here]
    cases otherIndexed : pdeIndex other with
    | none => simp only [page, otherIndexed]
    | some otherDirectory =>
        have apart : (process, otherDirectory, pteIndex other) ≠ (owner, directory, pteIndex vpn) := by
          intro equal
          have sameDirectory : otherDirectory = directory := congrArg (·.2.1) equal
          have sameEntry : pteIndex other = pteIndex vpn := congrArg (·.2.2) equal
          rw [sameDirectory] at otherIndexed
          exact here ⟨congrArg Prod.fst equal, index_injective otherIndexed indexed sameEntry⟩
        rw [page_of_indexed otherIndexed, page_of_indexed otherIndexed, entry, Function.update_of_ne apart]

/-! ## Stores to page tables -/

theorem pte_setDirectory (state : State) (owner : Nat) (index : Fin nrPdesPerPage)
    (directory : PteDirectory) (slot : Slot) :
    (state.setDirectory owner index directory).pte slot =
      if slot.1 = owner ∧ slot.2.1 = index then some (directory.ptes slot.2.2) else state.pte slot := by
  by_cases sameOwner : slot.1 = owner
  · by_cases sameIndex : slot.2.1 = index
    · simp [pte, setDirectory, sameOwner, sameIndex]
    · simp [pte, setDirectory, sameOwner, sameIndex]
  · simp [pte, setDirectory, sameOwner]

theorem setPte_of_absent {state : State} {slot : Slot} (absent : state.pte slot = none) (stored : Pte) :
    state.setPte slot stored = state := by
  unfold setPte
  split
  · rfl
  · rename_i directory found
    simp [pte, found] at absent

/-- A store into a present directory changes that entry and no other. -/
theorem pte_setPte {state : State} {slot : Slot} (present : state.pte slot ≠ none) (stored : Pte)
    (other : Slot) :
    (state.setPte slot stored).pte other = if other = slot then some stored else state.pte other := by
  rcases slot with ⟨owner, index, offset⟩
  rcases other with ⟨otherOwner, otherIndex, otherOffset⟩
  cases found : (state.process owner).pagetable.pdes index with
  | none => simp [pte, found] at present
  | some directory =>
      simp only [setPte, found, pte_setDirectory, Prod.mk.injEq]
      by_cases sameOwner : otherOwner = owner
      · by_cases sameIndex : otherIndex = index
        · subst otherOwner otherIndex
          by_cases sameOffset : otherOffset = offset
          · simp [sameOffset]
          · simp [sameOffset, pte, found]
        · simp [sameIndex]
      · simp [sameOwner]

theorem pte_setPte_of_ne {slot other : Slot} (different : other ≠ slot) (state : State) (stored : Pte) :
    (state.setPte slot stored).pte other = state.pte other := by
  by_cases absent : state.pte slot = none
  · rw [setPte_of_absent absent]
  · rw [pte_setPte absent, if_neg different]

theorem entry_setPte {state : State} {slot : Slot} (present : state.pte slot ≠ none) (stored : Pte) :
    (state.setPte slot stored).entry = Function.update state.entry slot stored := by
  funext other
  simp only [entry, pte_setPte present]
  by_cases same : other = slot
  · simp [same]
  · simp [same, entry]

/-- Bringing in a directory of zero entries where none was is not visible. -/
theorem entry_setDirectory_zero {state : State} {owner : Nat} {index : Fin nrPdesPerPage}
    (absent : (state.process owner).pagetable.pdes index = none) :
    (state.setDirectory owner index ⟨fun _ => Pte.zero⟩).entry = state.entry := by
  funext slot
  simp only [entry, pte_setDirectory]
  split
  · rename_i same
    simp only [Option.getD_some, pte, same.1, same.2, absent, Option.map_none, Option.getD_none]
  · rfl

@[simp] theorem entry_decrMapcount (state : State) (pfn : Nat) :
    (state.decrMapcount pfn).entry = state.entry := rfl

/-- The slots of all processes ever created. -/
def slots (state : State) : Finset Slot := Finset.range state.nrProcesses ×ˢ Finset.univ

theorem mem_slots {state : State} {slot : Slot} : slot ∈ state.slots ↔ slot.1 < state.nrProcesses := by
  simp [slots]

end State

/-! ## The sharing table of a page table -/

/-- Frames and write permission, slot by slot. -/
def entryTable (entries : Slot -> Pte) : Table Slot Nat where
  target := fun slot => (entries slot).frame
  writable := fun slot => (entries slot).canWrite

theorem entryTable_update (entries : Slot -> Pte) (slot : Slot) (stored : Pte) :
    entryTable (Function.update entries slot stored) =
      (entryTable entries).set slot stored.frame stored.canWrite := by
  simp only [entryTable, Table.set, Table.mk.injEq]
  constructor <;> funext other <;> by_cases same : other = slot
  all_goals first
    | subst other; simp only [Function.update_self]
    | simp only [Function.update_of_ne same]

/-- The number of valid entries that map a frame, over all processes ever
created. -/
def State.mappings (state : State) (frame : Nat) : Nat :=
  (entryTable state.entry).references state.slots frame

end Vm
end OsPa
