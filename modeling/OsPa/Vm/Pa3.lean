import OsPa.Vm.Types

namespace OsPa
namespace Vm

/-!
# The memory manager

The functions of `pa3.c`, in its order.  A `for` loop that returns or breaks
at the first index with some property is `List.find?` on the range of the
index; the inner and the outer loop of fork are folds over their indices.
The index checks stand where the source indexes the array.
-/

/-- Translate a page through the TLB: the first entry for the page whose
permission is no smaller than the requested one. -/
def lookupTlb (vpn rw : Nat) (state : State) : Option Nat :=
  ((List.range nrTlbEntries).find? fun i =>
    (state.tlb i).valid && (state.tlb i).vpn == vpn && decide (rw ≤ (state.tlb i).rw)).map
      fun i => (state.tlb i).pfn

/-- Cache a translation: update the first entry for the page or fill the first
invalid entry, whichever comes first among the first `nrPageframes` entries. -/
def insertTlb (vpn rw pfn : Nat) (state : State) : State :=
  match (List.range nrPageframes).find? fun i =>
      ((state.tlb i).valid && (state.tlb i).vpn == vpn) || !(state.tlb i).valid with
  | none => state
  | some i =>
      if (state.tlb i).valid then
        { state with tlb := Function.update state.tlb i { state.tlb i with pfn := pfn, rw := rw } }
      else
        { state with tlb := Function.update state.tlb i ⟨true, rw, vpn, pfn, rw⟩ }

/-- The part of `alloc_page` that provides the page directory: one is
requested when the current process does not have it. -/
def ensureDirectory (heap : Heap) (pdIdx : Fin nrPdesPerPage) (state : State) : State :=
  match (state.process state.current).pagetable.pdes pdIdx with
  | some _ => state
  | none =>
      { state.setDirectory state.current pdIdx (heap.directory state.nrMallocs) with
        nrMallocs := state.nrMallocs + 1 }

/-- Map a page of the current process to the smallest free frame.  `none`
stands for the result `-1`. -/
def allocPage (heap : Heap) (vpn rw : Nat) (state : State) : Except Fault (Option Nat × State) :=
  match (List.range nrPageframes).find? fun i => state.mapcounts i == 0 with
  | none => .ok (none, state)
  | some pfn =>
      let counted := state.incrMapcount pfn
      match pdeIndex vpn with
      | none => .error .pdesOutOfBounds
      | some pdIdx =>
          let present := ensureDirectory heap pdIdx counted
          .ok (some pfn, present.setPte (present.current, pdIdx, pteIndex vpn) ⟨true, rw, pfn, rw⟩)

/-- The TLB loop of `free_page`: clear the first entry for the page. -/
def invalidateTlb (vpn : Nat) (state : State) : State :=
  match (List.range nrTlbEntries).find? fun i => (state.tlb i).valid && (state.tlb i).vpn == vpn with
  | none => state
  | some i => { state with tlb := Function.update state.tlb i TlbEntry.zero }

/-- Unmap a page of the current process.  An absent directory or an invalid
entry is left alone. -/
def freePage (vpn : Nat) (state : State) : Except Fault State :=
  match pdeIndex vpn with
  | none => .error .pdesOutOfBounds
  | some pdIdx =>
      match state.pte (state.current, pdIdx, pteIndex vpn) with
      | none => .ok state
      | some pte =>
          if pte.valid then
            let cleared := state.setPte (state.current, pdIdx, pteIndex vpn) Pte.zero
            if pte.pfn < nrPageframes then
              .ok (invalidateTlb vpn (cleared.decrMapcount pte.pfn))
            else .error .mapcountsOutOfBounds
          else .ok state

/-- The page fault handler.  Its first action reads the entry, through
whatever directory pointer the outer table holds. -/
def handlePageFault (heap : Heap) (vpn rw : Nat) (state : State) : Except Fault (Bool × State) :=
  match pdeIndex vpn with
  | none => .error .pdesOutOfBounds
  | some pdIdx =>
      match state.pte (state.current, pdIdx, pteIndex vpn) with
      | none => .error .nullDirectory
      | some pte =>
          if pte.valid = false then .ok (false, state)
          else if pte.priv ≠ accessRead ∧ pte.rw = accessRead ∧ rw > accessRead then
            if pte.pfn < nrPageframes then
              if state.mapcounts pte.pfn > 1 then
                -- The frame that `alloc_page` returns, or its failure, is not looked at.
                match allocPage heap vpn 3 (state.decrMapcount pte.pfn) with
                | .error fault => .error fault
                | .ok (_, allocated) => .ok (true, allocated)
              else
                .ok (true, state.setPte (state.current, pdIdx, pteIndex vpn) { pte with rw := 3 })
            else .error .mapcountsOutOfBounds
          else .ok (false, state)

/-- The body of fork's inner loop: share one entry of the parent, which is
the current process, with the child. -/
def forkPte (change : Nat) (i : Fin nrPdesPerPage) (state : State) (j : Fin nrPtesPerPage) :
    Except Fault State :=
  match state.pte (state.current, i, j) with
  | none => .error .nullDirectory
  | some currentPte =>
      if currentPte.valid then
        if currentPte.pfn < nrPageframes then
          let copied := (state.setPte (change, i, j) currentPte).incrMapcount currentPte.pfn
          if currentPte.rw = 3 then
            .ok ((copied.setPte (change, i, j) { currentPte with rw := 1 }).setPte
              (copied.current, i, j) { currentPte with rw := 1 })
          else .ok (copied.setPte (change, i, j) currentPte)
        else .error .mapcountsOutOfBounds
      else .ok state

/-- The body of fork's outer loop.  A block is requested for every directory,
also for those that the parent does not have. -/
def forkDirectory (heap : Heap) (change : Nat) (state : State) (i : Fin nrPdesPerPage) :
    Except Fault State :=
  let temp := heap.directory state.nrMallocs
  let requested := { state with nrMallocs := state.nrMallocs + 1 }
  match (requested.process requested.current).pagetable.pdes i with
  | none => .ok requested
  | some _ =>
      (List.finRange nrPtesPerPage).foldlM (forkPte change i) (requested.setDirectory change i temp)

/-- Fork a process with the given pid from the current one and switch to it. -/
def forkProcess (heap : Heap) (pid : Nat) (state : State) : Except Fault State :=
  let change := state.nrProcesses
  let created :=
    { state with
      process := Function.update state.process change { heap.process state.nrMallocs with pid := pid }
      nrProcesses := state.nrProcesses + 1
      nrMallocs := state.nrMallocs + 1 }
  match (List.finRange nrPdesPerPage).foldlM (forkDirectory heap change) created with
  | .error fault => .error fault
  | .ok copied =>
      .ok { copied with
            processes := copied.processes ++ [copied.current]
            current := change
            ptbr := some change }

/-- The loop at the end of `switch_process`.  It visits as many entries as
there are page frames. -/
def flushTlb (state : State) : State :=
  { state with
    tlb := fun i => if i < nrPageframes then { state.tlb i with valid := false } else state.tlb i }

/-- Switch to the first listed process with the given pid, or fork it. -/
def switchProcess (heap : Heap) (pid : Nat) (state : State) : Except Fault State :=
  match state.processes.find? fun change => (state.process change).pid == pid with
  | some change =>
      .ok (flushTlb { state with
                      current := change
                      ptbr := some change
                      processes := state.processes.erase change })
  | none =>
      match forkProcess heap pid state with
      | .error fault => .error fault
      | .ok forked => .ok (flushTlb forked)

end Vm
end OsPa
