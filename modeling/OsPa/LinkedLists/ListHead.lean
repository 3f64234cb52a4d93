import OsPa.Library.Rings

namespace OsPa
namespace LinkedLists

open Library

/-!
# The lists of `list_head.h`

The header is the same in the three programs.  A `struct list_head` is a cell: it
stands alone as the head of a list, or is a member of the structure that is to be
linked into lists, from which `container_of` gets back to that structure.  The
heads are global variables.  The structures are on the heap, and once such a
block has been freed nothing may be read from it or stored to it, and it may not be
freed again.

A loop over a list goes on until it comes back to the head.  It is run with fuel,
and ends in a `Fault` of its own when that is used up.
-/

/-- How a list operation leaves the defined behaviour of the program. -/
inductive Fault
  /-- A block is used that is not allocated. -/
  | dangling
  /-- The head of a list is taken for an entry. -/
  | notAnEntry
  /-- A loop does not come back to the head of its list. -/
  | endless
  deriving DecidableEq

/-- The links of all cells, and which of the structures are allocated. -/
structure Memory (Place Item : Type) where
  links : Links (Cell Place Item)
  live : Item -> Bool

namespace Memory

variable {Place Item : Type}

/-- The cell can be used. -/
def holds (memory : Memory Place Item) : Cell Place Item -> Bool
  | .head _ => true
  | .item item => memory.live item

def next (memory : Memory Place Item) (cell : Cell Place Item) : Except Fault (Cell Place Item) :=
  if memory.holds cell then .ok (memory.links.next cell) else .error .dangling

def prev (memory : Memory Place Item) (cell : Cell Place Item) : Except Fault (Cell Place Item) :=
  if memory.holds cell then .ok (memory.links.prev cell) else .error .dangling

variable [DecidableEq Place] [DecidableEq Item]

def setNext (memory : Memory Place Item) (cell value : Cell Place Item) : Except Fault (Memory Place Item) :=
  if memory.holds cell then
    .ok { memory with links := { memory.links with next := Function.update memory.links.next cell value } }
  else .error .dangling

def setPrev (memory : Memory Place Item) (cell value : Cell Place Item) : Except Fault (Memory Place Item) :=
  if memory.holds cell then
    .ok { memory with links := { memory.links with prev := Function.update memory.links.prev cell value } }
  else .error .dangling

/-- `malloc` of a structure. -/
def allocate (memory : Memory Place Item) (item : Item) : Memory Place Item :=
  { memory with live := Function.update memory.live item true }

/-- `free` of a structure. -/
def free (memory : Memory Place Item) (item : Item) : Except Fault (Memory Place Item) :=
  if memory.live item then .ok { memory with live := Function.update memory.live item false }
  else .error .dangling

end Memory

section ListHead

variable {Place Item : Type} [DecidableEq Place] [DecidableEq Item]

/-- `INIT_LIST_HEAD` -/
def initListHead (list : Cell Place Item) (memory : Memory Place Item) : Except Fault (Memory Place Item) := do
  let memory ← memory.setNext list list
  memory.setPrev list list

/-- `__list_add` -/
def listAddBetween (new prev next : Cell Place Item) (memory : Memory Place Item) :
    Except Fault (Memory Place Item) := do
  let memory ← memory.setPrev next new
  let memory ← memory.setNext new next
  let memory ← memory.setPrev new prev
  memory.setNext prev new

def listAdd (new head : Cell Place Item) (memory : Memory Place Item) : Except Fault (Memory Place Item) := do
  let next ← memory.next head
  listAddBetween new head next memory

def listAddTail (new head : Cell Place Item) (memory : Memory Place Item) : Except Fault (Memory Place Item) := do
  let prev ← memory.prev head
  listAddBetween new prev head memory

/-- `__list_del` -/
def listDelBetween (prev next : Cell Place Item) (memory : Memory Place Item) : Except Fault (Memory Place Item) := do
  let memory ← memory.setPrev next prev
  memory.setNext prev next

/-- `__list_del_entry` -/
def listDelEntry (entry : Cell Place Item) (memory : Memory Place Item) : Except Fault (Memory Place Item) := do
  let prev ← memory.prev entry
  let next ← memory.next entry
  listDelBetween prev next memory

def listDelInit (entry : Cell Place Item) (memory : Memory Place Item) : Except Fault (Memory Place Item) := do
  let memory ← listDelEntry entry memory
  initListHead entry memory

def listMoveTail (list head : Cell Place Item) (memory : Memory Place Item) : Except Fault (Memory Place Item) := do
  let memory ← listDelEntry list memory
  listAddTail list head memory

def listEmpty (head : Cell Place Item) (memory : Memory Place Item) : Except Fault Bool := do
  let next ← memory.next head
  return next = head

/-- `list_entry` -/
def listEntry : Cell Place Item -> Except Fault Item
  | .head _ => .error .notAnEntry
  | .item item => .ok item

def listFirstEntry (head : Cell Place Item) (memory : Memory Place Item) : Except Fault Item := do
  let next ← memory.next head
  listEntry next

/-- `list_for_each_entry` from some cell on, with a body that leaves the links alone
and says whether it breaks the loop. -/
def listForEachEntry {Fault' Result : Type} (raise : Fault -> Fault')
    (body : Item -> Result -> Except Fault' (Bool × Result)) (head : Cell Place Item) (memory : Memory Place Item) :
    Nat -> Cell Place Item -> Result -> Except Fault' Result
  | 0, _, _ => .error (raise .endless)
  | fuel + 1, pos, result =>
      if pos = head then .ok result
      else
        match listEntry pos with
        | .error fault => .error (raise fault)
        | .ok item =>
            match body item result with
            | .error fault => .error fault
            | .ok (true, result) => .ok result
            | .ok (false, result) =>
                match memory.next pos with
                | .error fault => .error (raise fault)
                | .ok next => listForEachEntry raise body head memory fuel next result

end ListHead
end LinkedLists
end OsPa
