import Mathlib.Logic.Function.Basic
import OsPa.Library.Word

namespace OsPa
namespace Vm

open Library

/-!
# The data of the virtual memory simulator

These are the structures and globals of `vm.h` and `vm.c`.  A process block
is named by the order in which processes were created, so that a pointer to a
process is a number and the block of a process outlives every list it is in.
Arrays are functions of their index.  Wherever the source indexes an array
with a value it computed, the step that models it checks the index first and
ends in a `Fault` when the C program would leave the array.

`malloc` does not clear what it returns.  The contents of its blocks are
therefore a parameter of the model, `Heap`, and `Heap.zeroed` is the choice
under which they are all zero.
-/

/-- The number of physical page frames of the system. -/
abbrev nrPageframes : Nat := 128

abbrev nrPtesPerPage : Nat := 16

abbrev nrPdesPerPage : Nat := 4

abbrev nrTlbEntries : Nat := 256

def accessRead : Nat := 1

def accessWrite : Nat := 2

/-- One page table entry.  `priv` is the field `private`, which the memory
manager uses to remember the permission a page was allocated with. -/
structure Pte where
  valid : Bool
  rw : Nat
  pfn : Nat
  priv : Nat
  deriving DecidableEq

/-- The entry all of whose fields are zero, as `free_page` leaves it. -/
def Pte.zero : Pte := ⟨false, 0, 0, 0⟩

structure PteDirectory where
  ptes : Fin nrPtesPerPage -> Pte

/-- The outer table.  An absent directory is a NULL pointer. -/
structure Pagetable where
  pdes : Fin nrPdesPerPage -> Option PteDirectory

structure Process where
  pid : Nat
  pagetable : Pagetable

structure TlbEntry where
  valid : Bool
  rw : Nat
  vpn : Nat
  pfn : Nat
  priv : Nat
  deriving DecidableEq

def TlbEntry.zero : TlbEntry := ⟨false, 0, 0, 0, 0⟩

/-- What the blocks returned by `malloc` hold, by the number of calls made
before. -/
structure Heap where
  directory : Nat -> PteDirectory
  process : Nat -> Process

/-- The heap whose blocks are all zero. -/
def Heap.zeroed : Heap where
  directory := fun _ => ⟨fun _ => Pte.zero⟩
  process := fun _ => ⟨0, ⟨fun _ => none⟩⟩

/-- How a step leaves the defined behaviour of the program. -/
inductive Fault
  /-- `pdes[]` is indexed at or past `NR_PDES_PER_PAGE`. -/
  | pdesOutOfBounds
  /-- An entry is read through a NULL page directory. -/
  | nullDirectory
  /-- `mapcounts[]` is indexed at or past `NR_PAGEFRAMES`. -/
  | mapcountsOutOfBounds
  /-- An `assert` fails. -/
  | assertion
  deriving DecidableEq

/-- The globals.  `process` holds the process blocks, of which the first
`nrProcesses` exist; `current`, `ptbr` and the members of the list `processes`
are pointers to such blocks, where `ptbr` stands for the block whose page table
it points at. -/
structure State where
  process : Nat -> Process
  nrProcesses : Nat
  current : Nat
  processes : List Nat
  ptbr : Option Nat
  mapcounts : Nat -> Nat
  tlb : Nat -> TlbEntry
  nrMallocs : Nat

/-- The system after `__init_system`: the single process `init` with pid 0 and
no page directory. -/
def initSystem : State where
  process := fun _ => ⟨0, ⟨fun _ => none⟩⟩
  nrProcesses := 1
  current := 0
  processes := []
  ptbr := some 0
  mapcounts := fun _ => 0
  tlb := fun _ => TlbEntry.zero
  nrMallocs := 0

/-- The page directory index of a page, if the outer table has it. -/
def pdeIndex (vpn : Nat) : Option (Fin nrPdesPerPage) :=
  if inside : vpn / nrPtesPerPage < nrPdesPerPage then some ⟨vpn / nrPtesPerPage, inside⟩ else none

/-- The index of a page within its page directory. -/
def pteIndex (vpn : Nat) : Fin nrPtesPerPage :=
  ⟨vpn % nrPtesPerPage, Nat.mod_lt _ (by decide)⟩

theorem pdeIndex_of_lt {vpn : Nat} (inside : vpn < 64) :
    pdeIndex vpn = some ⟨vpn / nrPtesPerPage, by simp only [nrPtesPerPage, nrPdesPerPage]; omega⟩ :=
  dif_pos _

theorem inRange_of_indexed {vpn : Nat} {directory : Fin nrPdesPerPage} (indexed : pdeIndex vpn = some directory) :
    vpn < nrPdesPerPage * nrPtesPerPage := by
  unfold pdeIndex at indexed
  split at indexed
  · rename_i inside
    change vpn / 16 < 4 at inside
    change vpn < 64
    omega
  · cases indexed

/-- Two pages inside the table with the same indices are the same page. -/
theorem index_injective {left right : Nat} {directory : Fin nrPdesPerPage}
    (leftIndex : pdeIndex left = some directory) (rightIndex : pdeIndex right = some directory)
    (sameEntry : pteIndex left = pteIndex right) : left = right := by
  unfold pdeIndex at leftIndex rightIndex
  split at leftIndex
  · split at rightIndex
    · have sameDirectory := congrArg Fin.val ((Option.some.inj leftIndex).trans
        (Option.some.inj rightIndex).symm)
      have sameRest : left % 16 = right % 16 := congrArg Fin.val sameEntry
      change left / 16 = right / 16 at sameDirectory
      omega
    · cases rightIndex
  · cases leftIndex

/-! ## Page table entries in a state -/

/-- A place for a page table entry: a process block, a directory of its outer
table and an entry of that directory. -/
abbrev Slot := Nat × Fin nrPdesPerPage × Fin nrPtesPerPage

namespace State

/-- The entry stored in a slot, or `none` when the directory is absent. -/
def pte (state : State) (slot : Slot) : Option Pte :=
  ((state.process slot.1).pagetable.pdes slot.2.1).map fun directory => directory.ptes slot.2.2

/-- Write an outer table slot of one process. -/
def setDirectory (state : State) (owner : Nat) (index : Fin nrPdesPerPage)
    (directory : PteDirectory) : State :=
  { state with
    process := Function.update state.process owner
      { state.process owner with
        pagetable := ⟨Function.update (state.process owner).pagetable.pdes index (some directory)⟩ } }

/-- Write one entry of a page directory.  The directory must be present;
nothing is written through a NULL pointer. -/
def setPte (state : State) (slot : Slot) (entry : Pte) : State :=
  match (state.process slot.1).pagetable.pdes slot.2.1 with
  | none => state
  | some directory =>
      state.setDirectory slot.1 slot.2.1 ⟨Function.update directory.ptes slot.2.2 entry⟩

/-- `mapcounts[pfn]++`. -/
def incrMapcount (state : State) (pfn : Nat) : State :=
  { state with mapcounts := Function.update state.mapcounts pfn (Word.succ (state.mapcounts pfn)) }

/-- `mapcounts[pfn]--`. -/
def decrMapcount (state : State) (pfn : Nat) : State :=
  { state with mapcounts := Function.update state.mapcounts pfn (Word.pred (state.mapcounts pfn)) }

end State
end Vm
end OsPa
