import OsPa.Library.Machine
import OsPa.Vm.Pa3

namespace OsPa
namespace Vm

open Library

/-!
# The framework around the memory manager

The functions of `vm.c` in its order, down to the command loop, which is a
`Machine`: each command yields an `Event`, that is, what the simulator reports
for it.  `printTlbResult` is the flag set by `-t`; the TLB is consulted and
filled only when it is set.

The commands that only print (`show`, `frames`, `tlb`, `help`) and lines that
the loop does not understand change nothing and are left out.
-/

/-- What an access comes to. -/
inductive Access
  /-- The translation is printed and `true` returned. -/
  | translated (pfn : Nat) (fromTlb : Bool)
  /-- `true` is returned after two handled faults, and nothing is printed. -/
  | handled
  /-- `Unable to access` is printed and `false` returned. -/
  | denied
  deriving DecidableEq

/-- The value that `__access_memory` returns. -/
def Access.ret : Access -> Bool
  | .translated _ _ => true
  | .handled => true
  | .denied => false

/-- What the simulator reports for a command. -/
inductive Event
  | switched
  | freed (pfn : Nat)
  | notAllocated
  | alreadyAllocated (pfn : Nat)
  | allocated (pfn : Nat)
  | memoryFull
  | accessed (access : Access)
  deriving DecidableEq

/-- The command loop is left after an allocation that fails. -/
def Event.stops : Event -> Bool
  | .alreadyAllocated _ => true
  | .memoryFull => true
  | _ => false

namespace Framework

/-- The memory management unit.  A success carries the frame and whether the
TLB supplied it. -/
def translate (printTlbResult : Bool) (rw vpn : Nat) (state : State) :
    Except Fault (Option (Nat × Bool) × State) :=
  match if printTlbResult then lookupTlb vpn rw state else none with
  | some pfn => .ok (some (pfn, true), state)
  | none =>
      match state.ptbr with
      | none => .ok (none, state)
      | some pt =>
          match pdeIndex vpn with
          | none => .error .pdesOutOfBounds
          | some pdIndex =>
              match state.pte (pt, pdIndex, pteIndex vpn) with
              | none => .ok (none, state)
              | some pte =>
                  if pte.valid = false then .ok (none, state)
                  else if rw &&& accessWrite ≠ 0 ∧ pte.rw &&& accessWrite = 0 then .ok (none, state)
                  else .ok (some (pte.pfn, false),
                    if printTlbResult then insertTlb vpn pte.rw pte.pfn state else state)

/-- The retry loop.  The number counts the faults that may still be taken. -/
def accessLoop (heap : Heap) (printTlbResult : Bool) (vpn rw : Nat) :
    Nat -> State -> Except Fault (Access × State)
  | 0, state => .ok (.handled, state)
  | retries + 1, state =>
      match translate printTlbResult rw vpn state with
      | .error fault => .error fault
      | .ok (some (pfn, fromTlb), translated) => .ok (.translated pfn fromTlb, translated)
      | .ok (none, missed) =>
          match handlePageFault heap vpn rw missed with
          | .error fault => .error fault
          | .ok (true, handled) => accessLoop heap printTlbResult vpn rw retries handled
          | .ok (false, refused) => .ok (.denied, refused)

def accessMemory (heap : Heap) (printTlbResult : Bool) (vpn rw : Nat) (state : State) :
    Except Fault (Access × State) :=
  if (rw &&& accessRead) ^^^ (rw &&& accessWrite) = 0 then .error .assertion
  else if vpn < nrPdesPerPage * nrPtesPerPage then accessLoop heap printTlbResult vpn rw 2 state
  else .error .assertion

/-- The flags for a permission string.  Reading is always included. -/
def makeRwflag (rw : List Char) : Nat :=
  rw.foldl (fun rwflag character =>
    let readable :=
      if character = 'r' ∨ character = 'R' then rwflag ||| accessRead else rwflag
    if character = 'w' ∨ character = 'W' then readable ||| accessWrite else readable) accessRead

/-- `__alloc_page`, which first asks the MMU whether the page can be read. -/
def allocPage (heap : Heap) (printTlbResult : Bool) (vpn rw : Nat) (state : State) :
    Except Fault (Event × State) :=
  if rw = 0 ∨ rw &&& accessRead = 0 then .error .assertion
  else
    match translate printTlbResult accessRead vpn state with
    | .error fault => .error fault
    | .ok (some (pfn, _), translated) => .ok (.alreadyAllocated pfn, translated)
    | .ok (none, missed) =>
        match Vm.allocPage heap vpn rw missed with
        | .error fault => .error fault
        | .ok (none, full) => .ok (.memoryFull, full)
        | .ok (some pfn, allocated) => .ok (.allocated pfn, allocated)

/-- `__free_page`. -/
def freePage (printTlbResult : Bool) (vpn : Nat) (state : State) : Except Fault (Event × State) :=
  match translate printTlbResult accessRead vpn state with
  | .error fault => .error fault
  | .ok (none, missed) => .ok (.notAllocated, missed)
  | .ok (some (pfn, _), translated) =>
      match Vm.freePage vpn translated with
      | .error fault => .error fault
      | .ok freed => .ok (.freed pfn, freed)

end Framework

/-- The commands that do something, with their arguments as parsed. -/
inductive Command
  | switch (pid : Nat)
  | free (vpn : Nat)
  | read (vpn : Nat)
  | write (vpn : Nat)
  | alloc (vpn : Nat) (rw : List Char)
  | access (vpn : Nat) (rw : List Char)
  deriving DecidableEq

/-- The page a command names is below 64. -/
def Command.InRange : Command -> Prop
  | .switch _ => True
  | .free vpn | .read vpn | .write vpn | .alloc vpn _ | .access vpn _ => vpn < 64

instance (command : Command) : Decidable command.InRange :=
  match command with
  | .switch _ => .isTrue trivial
  | .free vpn | .read vpn | .write vpn | .alloc vpn _ | .access vpn _ => inferInstanceAs (Decidable (vpn < 64))

open Framework

/-- Report the result of an access as an event. -/
def reportAccess : Except Fault (Access × State) -> Except Fault (Event × State)
  | .error fault => .error fault
  | .ok (access, state) => .ok (.accessed access, state)

/-- The body of the command loop. -/
def command (heap : Heap) (printTlbResult : Bool) : Command -> State -> Except Fault (Event × State)
  | .switch pid, state =>
      match switchProcess heap pid state with
      | .error fault => .error fault
      | .ok switched => .ok (.switched, switched)
  | .free vpn, state => Framework.freePage printTlbResult vpn state
  | .read vpn, state => reportAccess (accessMemory heap printTlbResult vpn accessRead state)
  | .write vpn, state => reportAccess (accessMemory heap printTlbResult vpn accessWrite state)
  | .alloc vpn rw, state => Framework.allocPage heap printTlbResult vpn (makeRwflag rw) state
  | .access vpn rw, state => reportAccess (accessMemory heap printTlbResult vpn (makeRwflag rw) state)

/-- The simulator, with or without `-t`. -/
def simulator (heap : Heap) (printTlbResult : Bool) : Machine Command State Event Fault where
  step := command heap printTlbResult
  stops := Event.stops

/-- A state in which the simulator can read its next command, or in which it
has left its loop, after commands that name pages below 64. -/
def Reached (printTlbResult : Bool) (state : State) : Prop :=
  Exists fun commands => (forall command, command ∈ commands -> Command.InRange command) ∧
    Exists fun events =>
      (simulator Heap.zeroed printTlbResult).run commands initSystem = .ok (events, state)

end Vm
end OsPa
