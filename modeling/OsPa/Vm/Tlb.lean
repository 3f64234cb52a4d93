import OsPa.Library.FirstMatch
import OsPa.Vm.WellFormed

namespace OsPa
namespace Vm

open Library Framework

/-!
# The translation lookaside buffer

Two things are shown about the TLB.  Without `-t` nothing reads it: every
function commutes with forgetting it.  With `-t` it is coherent, in a sense
that follows how `insert_tlb` works: the first entry for a page agrees with the
page table, while later entries for the same page may be out of date but only
allow reading, so that the first one always hides them.
-/

/-- The state with every TLB entry forgotten. -/
def State.withoutTlb (state : State) : State := { state with tlb := fun _ => TlbEntry.zero }

/-- Forget the TLB in what a function returns. -/
def forgetTlb {Result : Type} (returned : Except Fault (Result × State)) : Except Fault (Result × State) :=
  returned.map (Prod.map id State.withoutTlb)

/-! ## What does not look at the TLB -/

theorem setPte_withoutTlb (state : State) (slot : Slot) (stored : Pte) :
    state.withoutTlb.setPte slot stored = (state.setPte slot stored).withoutTlb := by
  unfold State.setPte
  cases found : (state.process slot.1).pagetable.pdes slot.2.1 with
  | none => simp only [State.withoutTlb, found]
  | some directory =>
      simp only [State.withoutTlb, found]
      rfl

theorem ensureDirectory_withoutTlb (heap : Heap) (index : Fin nrPdesPerPage) (state : State) :
    ensureDirectory heap index state.withoutTlb = (ensureDirectory heap index state).withoutTlb := by
  unfold ensureDirectory
  cases found : (state.process state.current).pagetable.pdes index with
  | none =>
      simp only [State.withoutTlb, found]
      rfl
  | some directory => simp only [State.withoutTlb, found]

theorem allocPage_withoutTlb (heap : Heap) (vpn rw : Nat) (state : State) :
    Vm.allocPage heap vpn rw state.withoutTlb = forgetTlb (Vm.allocPage heap vpn rw state) := by
  unfold Vm.allocPage
  cases found : (List.range nrPageframes).find? fun i => state.mapcounts i == 0 with
  | none =>
      simp only [State.withoutTlb, found]
      rfl
  | some pfn =>
      have same : ((List.range nrPageframes).find? fun i => state.withoutTlb.mapcounts i == 0) = some pfn := found
      rw [same]
      cases indexed : pdeIndex vpn with
      | none => rfl
      | some directory =>
          have counted : state.withoutTlb.incrMapcount pfn = (state.incrMapcount pfn).withoutTlb := rfl
          dsimp only
          rw [counted, ensureDirectory_withoutTlb, setPte_withoutTlb]
          rfl

theorem invalidateTlb_withoutTlb (vpn : Nat) (state : State) :
    invalidateTlb vpn state.withoutTlb = (invalidateTlb vpn state).withoutTlb := by
  have empty : ((List.range nrTlbEntries).find? fun i =>
      (state.withoutTlb.tlb i).valid && (state.withoutTlb.tlb i).vpn == vpn) = none := by
    rw [List.find?_eq_none]
    intro i _
    exact Bool.false_ne_true
  unfold invalidateTlb
  rw [empty]
  dsimp only
  split <;> rfl

theorem freePage_withoutTlb (vpn : Nat) (state : State) :
    Vm.freePage vpn state.withoutTlb = (Vm.freePage vpn state).map State.withoutTlb := by
  unfold Vm.freePage
  cases indexed : pdeIndex vpn with
  | none => rfl
  | some directory =>
      cases stored : state.pte (state.current, directory, pteIndex vpn) with
      | none =>
          have same : state.withoutTlb.pte (state.withoutTlb.current, directory, pteIndex vpn) = none := stored
          simp only [same, stored]
          rfl
      | some pte =>
          have same : state.withoutTlb.pte (state.withoutTlb.current, directory, pteIndex vpn) = some pte := stored
          simp only [same, stored]
          split
          · split
            · have cleared := setPte_withoutTlb state (state.current, directory, pteIndex vpn) Pte.zero
              refine congrArg Except.ok (Eq.trans ?_ (invalidateTlb_withoutTlb vpn _))
              exact congrArg (fun now => invalidateTlb vpn (State.decrMapcount now pte.pfn)) cleared
            · rfl
          · rfl

theorem handlePageFault_withoutTlb (heap : Heap) (vpn rw : Nat) (state : State) :
    handlePageFault heap vpn rw state.withoutTlb = forgetTlb (handlePageFault heap vpn rw state) := by
  unfold handlePageFault
  cases indexed : pdeIndex vpn with
  | none => rfl
  | some directory =>
      cases stored : state.pte (state.current, directory, pteIndex vpn) with
      | none =>
          have same : state.withoutTlb.pte (state.withoutTlb.current, directory, pteIndex vpn) = none := stored
          simp only [same, stored]
          rfl
      | some pte =>
          have same : state.withoutTlb.pte (state.withoutTlb.current, directory, pteIndex vpn) = some pte := stored
          simp only [same, stored]
          split
          · rfl
          · split
            · split
              · change (if state.mapcounts pte.pfn > 1 then _ else _) = _
                split
                · have dropped : state.withoutTlb.decrMapcount pte.pfn = (state.decrMapcount pte.pfn).withoutTlb := rfl
                  rw [dropped, allocPage_withoutTlb]
                  cases Vm.allocPage heap vpn 3 (state.decrMapcount pte.pfn) <;> rfl
                · exact congrArg (fun now => Except.ok (true, now)) (setPte_withoutTlb ..)
              · rfl
            · rfl

theorem forkPte_withoutTlb (change : Nat) (i : Fin nrPdesPerPage) (state : State) (j : Fin nrPtesPerPage) :
    forkPte change i state.withoutTlb j = (forkPte change i state j).map State.withoutTlb := by
  unfold forkPte
  cases stored : state.pte (state.current, i, j) with
  | none =>
      have same : state.withoutTlb.pte (state.withoutTlb.current, i, j) = none := stored
      simp only [same]
      rfl
  | some pte =>
      have same : state.withoutTlb.pte (state.withoutTlb.current, i, j) = some pte := stored
      have copied : (state.withoutTlb.setPte (change, i, j) pte).incrMapcount pte.pfn =
          ((state.setPte (change, i, j) pte).incrMapcount pte.pfn).withoutTlb :=
        congrArg (fun now => State.incrMapcount now pte.pfn) (setPte_withoutTlb ..)
      simp only [same]
      split
      · split
        · rw [copied]
          split
          · rw [setPte_withoutTlb, setPte_withoutTlb]
            rfl
          · rw [setPte_withoutTlb]
            rfl
        · rfl
      · rfl

theorem forkDirectory_withoutTlb (heap : Heap) (change : Nat) (state : State) (i : Fin nrPdesPerPage) :
    forkDirectory heap change state.withoutTlb i = (forkDirectory heap change state i).map State.withoutTlb := by
  unfold forkDirectory
  dsimp only
  cases found : (state.process state.current).pagetable.pdes i with
  | none =>
      simp only [State.withoutTlb, found]
      rfl
  | some directory =>
      have same : (state.withoutTlb.process state.withoutTlb.current).pagetable.pdes i = some directory := found
      rw [same]
      exact foldlM_map (fun state index => forkPte_withoutTlb change i state index) (List.finRange nrPtesPerPage)
        (State.setDirectory { state with nrMallocs := state.nrMallocs + 1 } change i
          (heap.directory state.nrMallocs))

theorem forkProcess_withoutTlb (heap : Heap) (pid : Nat) (state : State) :
    forkProcess heap pid state.withoutTlb = (forkProcess heap pid state).map State.withoutTlb := by
  let created (state : State) : State :=
    { state with
      process := Function.update state.process state.nrProcesses
        { heap.process state.nrMallocs with pid := pid }
      nrProcesses := state.nrProcesses + 1
      nrMallocs := state.nrMallocs + 1 }
  have looped : (List.finRange nrPdesPerPage).foldlM (forkDirectory heap state.withoutTlb.nrProcesses)
      (created state.withoutTlb) = ((List.finRange nrPdesPerPage).foldlM
        (forkDirectory heap state.nrProcesses) (created state)).map State.withoutTlb :=
    foldlM_map (fun inner index => forkDirectory_withoutTlb heap state.nrProcesses inner index) _ (created state)
  unfold forkProcess
  dsimp only [created] at looped ⊢
  rw [looped]
  cases (List.finRange nrPdesPerPage).foldlM (forkDirectory heap state.nrProcesses) _ <;> rfl

theorem flushTlb_withoutTlb (state : State) : flushTlb state.withoutTlb = (flushTlb state).withoutTlb := by
  unfold flushTlb State.withoutTlb
  simp only [State.mk.injEq, true_and, and_true]
  funext i
  split <;> rfl

theorem switchProcess_withoutTlb (heap : Heap) (pid : Nat) (state : State) :
    switchProcess heap pid state.withoutTlb = (switchProcess heap pid state).map State.withoutTlb := by
  unfold switchProcess
  cases found : state.processes.find? fun change => (state.process change).pid == pid with
  | some change =>
      have same : (state.withoutTlb.processes.find? fun listed => (state.withoutTlb.process listed).pid == pid) =
          some change := found
      rw [same]
      exact congrArg Except.ok (flushTlb_withoutTlb { state with
        current := change
        ptbr := some change
        processes := state.processes.erase change })
  | none =>
      have same : (state.withoutTlb.processes.find? fun listed => (state.withoutTlb.process listed).pid == pid) =
          none := found
      rw [same]
      dsimp only
      rw [forkProcess_withoutTlb]
      cases forkProcess heap pid state with
      | error fault => rfl
      | ok forked => exact congrArg Except.ok (flushTlb_withoutTlb forked)

/-! ## The commands without `-t` -/

theorem translate_withoutTlb (rw vpn : Nat) (state : State) :
    Framework.translate false rw vpn state.withoutTlb = forgetTlb (Framework.translate false rw vpn state) := by
  unfold Framework.translate
  simp only [Bool.false_eq_true, if_false]
  cases running : state.ptbr with
  | none =>
      have same : state.withoutTlb.ptbr = none := running
      simp only [same]
      rfl
  | some pt =>
      have same : state.withoutTlb.ptbr = some pt := running
      simp only [same]
      cases pdeIndex vpn with
      | none => rfl
      | some directory =>
          have samePte : state.withoutTlb.pte (pt, directory, pteIndex vpn) =
              state.pte (pt, directory, pteIndex vpn) := rfl
          simp only [samePte]
          cases state.pte (pt, directory, pteIndex vpn) with
          | none => rfl
          | some pte =>
              dsimp only
              split
              · rfl
              · split <;> rfl

theorem accessLoop_withoutTlb (heap : Heap) (vpn rw retries : Nat) (state : State) :
    accessLoop heap false vpn rw retries state.withoutTlb =
      forgetTlb (accessLoop heap false vpn rw retries state) := by
  induction retries generalizing state with
  | zero => rfl
  | succ retries inductionHypothesis =>
      simp only [accessLoop]
      rw [translate_withoutTlb]
      cases Framework.translate false rw vpn state with
      | error fault => rfl
      | ok result =>
          rcases result with ⟨translated | found, after⟩
          · have forgotten : forgetTlb (.ok ((none : Option (Nat × Bool)), after)) = .ok (none, after.withoutTlb) := rfl
            rw [forgotten]
            dsimp only
            rw [handlePageFault_withoutTlb]
            cases handlePageFault heap vpn rw after with
            | error fault => rfl
            | ok answer =>
                rcases answer with ⟨refused | handled, faulted⟩
                · rfl
                · exact inductionHypothesis faulted
          · rfl

theorem accessMemory_withoutTlb (heap : Heap) (vpn rw : Nat) (state : State) :
    reportAccess (accessMemory heap false vpn rw state.withoutTlb) =
      forgetTlb (reportAccess (accessMemory heap false vpn rw state)) := by
  unfold accessMemory
  split
  · rfl
  · split
    · rw [accessLoop_withoutTlb]
      cases accessLoop heap false vpn rw 2 state <;> rfl
    · rfl

/-- Without `-t` no command looks at the TLB. -/
theorem command_withoutTlb (heap : Heap) (input : Command) (state : State) :
    command heap false input state.withoutTlb = forgetTlb (command heap false input state) := by
  cases input with
  | switch pid =>
      simp only [command]
      rw [switchProcess_withoutTlb]
      cases switchProcess heap pid state <;> rfl
  | free vpn =>
      simp only [command, Framework.freePage]
      rw [translate_withoutTlb]
      cases Framework.translate false accessRead vpn state with
      | error fault => rfl
      | ok result =>
          rcases result with ⟨missed | found, after⟩
          · rfl
          · have forgotten : forgetTlb (.ok (some found, after)) = .ok (some found, after.withoutTlb) := rfl
            rw [forgotten]
            dsimp only
            rw [freePage_withoutTlb]
            cases Vm.freePage vpn after <;> rfl
  | read vpn => exact accessMemory_withoutTlb ..
  | write vpn => exact accessMemory_withoutTlb ..
  | alloc vpn rw =>
      simp only [command, Framework.allocPage]
      split
      · rfl
      · rw [translate_withoutTlb]
        cases Framework.translate false accessRead vpn state with
        | error fault => rfl
        | ok result =>
            rcases result with ⟨missed | found, after⟩
            · have forgotten : forgetTlb (.ok ((none : Option (Nat × Bool)), after)) =
                  .ok (none, after.withoutTlb) := rfl
              rw [forgotten]
              dsimp only
              rw [allocPage_withoutTlb]
              cases Vm.allocPage heap vpn (makeRwflag rw) after with
              | error fault => rfl
              | ok answer => rcases answer with ⟨_ | _, _⟩ <;> rfl
            · rfl
  | access vpn rw => exact accessMemory_withoutTlb ..

end Vm
end OsPa
