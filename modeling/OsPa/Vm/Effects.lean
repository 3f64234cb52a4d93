import OsPa.Vm.Entries

namespace OsPa
namespace Vm

open Library Framework

/-!
# What each function does to page tables

Each function of the memory manager, run with a heap of zero blocks, either
leaves the page tables alone or has one of the effects named here.  The effects
carry the guards under which the code reaches them, so that an invariant is
shown once for each effect and no later proof unfolds the code again.
-/

/-- The same processes, in the same lists, with the same one running. -/
structure SameProcesses (before after : State) : Prop where
  nrProcesses : after.nrProcesses = before.nrProcesses
  current : after.current = before.current
  processes : after.processes = before.processes
  ptbr : after.ptbr = before.ptbr
  pid : forall process, (after.process process).pid = (before.process process).pid

namespace SameProcesses

theorem refl (state : State) : SameProcesses state state :=
  ⟨rfl, rfl, rfl, rfl, fun _ => rfl⟩

theorem trans {first second third : State} (left : SameProcesses first second)
    (right : SameProcesses second third) : SameProcesses first third where
  nrProcesses := right.nrProcesses.trans left.nrProcesses
  current := right.current.trans left.current
  processes := right.processes.trans left.processes
  ptbr := right.ptbr.trans left.ptbr
  pid := fun process => (right.pid process).trans (left.pid process)

theorem symm {before after : State} (same : SameProcesses before after) : SameProcesses after before where
  nrProcesses := same.nrProcesses.symm
  current := same.current.symm
  processes := same.processes.symm
  ptbr := same.ptbr.symm
  pid := fun process => (same.pid process).symm

theorem slots {before after : State} (same : SameProcesses before after) : after.slots = before.slots := by
  rw [State.slots, State.slots, same.nrProcesses]

theorem setDirectory (state : State) (owner : Nat) (index : Fin nrPdesPerPage)
    (directory : PteDirectory) : SameProcesses state (state.setDirectory owner index directory) where
  nrProcesses := rfl
  current := rfl
  processes := rfl
  ptbr := rfl
  pid := by
    intro process
    by_cases same : process = owner
    · simp [State.setDirectory, same]
    · simp [State.setDirectory, Function.update_of_ne same]

theorem setPte (state : State) (slot : Slot) (stored : Pte) :
    SameProcesses state (state.setPte slot stored) := by
  unfold State.setPte
  split
  · exact refl state
  · exact setDirectory ..

theorem incrMapcount (state : State) (pfn : Nat) : SameProcesses state (state.incrMapcount pfn) :=
  ⟨rfl, rfl, rfl, rfl, fun _ => rfl⟩

theorem decrMapcount (state : State) (pfn : Nat) : SameProcesses state (state.decrMapcount pfn) :=
  ⟨rfl, rfl, rfl, rfl, fun _ => rfl⟩

end SameProcesses

@[simp] theorem setPte_mapcounts (state : State) (slot : Slot) (stored : Pte) :
    (state.setPte slot stored).mapcounts = state.mapcounts := by
  unfold State.setPte
  split <;> rfl

@[simp] theorem setPte_tlb (state : State) (slot : Slot) (stored : Pte) :
    (state.setPte slot stored).tlb = state.tlb := by
  unfold State.setPte
  split <;> rfl

/-! ## The effects -/

/-- Only the TLB may differ. -/
structure Retagged (before after : State) : Prop where
  same : SameProcesses before after
  process : after.process = before.process
  mapcounts : after.mapcounts = before.mapcounts

/-- A slot has come to map the smallest free frame. -/
structure Mapped (slot : Slot) (rw pfn : Nat) (before after : State) : Prop where
  same : SameProcesses before after
  inside : pfn < nrPageframes
  free : before.mapcounts pfn = 0
  smallest : forall frame, frame < pfn -> before.mapcounts frame ≠ 0
  entry : after.entry = Function.update before.entry slot ⟨true, rw, pfn, rw⟩
  mapcounts : after.mapcounts = Function.update before.mapcounts pfn 1
  tlb : after.tlb = before.tlb

/-- A valid entry has been cleared and its frame given up. -/
structure Unmapped (slot : Slot) (before after : State) : Prop where
  same : SameProcesses before after
  valid : (before.entry slot).valid = true
  entry : after.entry = Function.update before.entry slot Pte.zero
  mapcounts : after.mapcounts = Function.update before.mapcounts (before.entry slot).pfn
    (Word.pred (before.mapcounts (before.entry slot).pfn))

/-- The entry can be written only after a copy, or after regaining the frame
for itself. -/
structure Protected (state : State) (slot : Slot) : Prop where
  valid : (state.entry slot).valid = true
  allocated : (state.entry slot).priv ≠ accessRead
  readOnly : (state.entry slot).rw = accessRead
  inside : (state.entry slot).pfn < nrPageframes

/-- What the page fault handler does to a write-protected entry.  The last
case is the one in which the copy finds no frame: the old frame has lost a
mapping, and the entry still maps it. -/
inductive Resolved (slot : Slot) (before after : State) : Prop
  | upgraded (same : SameProcesses before after) (isProtected : Protected before slot)
      (single : before.mapcounts (before.entry slot).pfn ≤ 1)
      (entry : after.entry = Function.update before.entry slot { before.entry slot with rw := 3 })
      (mapcounts : after.mapcounts = before.mapcounts) (tlb : after.tlb = before.tlb)
  | copied (pfn : Nat) (same : SameProcesses before after) (isProtected : Protected before slot)
      (shared : 1 < before.mapcounts (before.entry slot).pfn)
      (inside : pfn < nrPageframes) (free : before.mapcounts pfn = 0)
      (entry : after.entry = Function.update before.entry slot ⟨true, 3, pfn, 3⟩)
      (mapcounts : after.mapcounts = Function.update (Function.update before.mapcounts
        (before.entry slot).pfn (Word.pred (before.mapcounts (before.entry slot).pfn))) pfn 1)
      (tlb : after.tlb = before.tlb)
  | leaked (same : SameProcesses before after) (isProtected : Protected before slot)
      (shared : 1 < before.mapcounts (before.entry slot).pfn)
      (full : forall frame, frame < nrPageframes -> before.mapcounts frame ≠ 0)
      (process : after.process = before.process)
      (mapcounts : after.mapcounts = Function.update before.mapcounts (before.entry slot).pfn
        (Word.pred (before.mapcounts (before.entry slot).pfn)))
      (tlb : after.tlb = before.tlb)

/-- A resolved fault leaves the entry writable unless its copy found no frame. -/
theorem Resolved.leaked_or_writable {slot : Slot} {before after : State} (resolved : Resolved slot before after) :
    (1 < before.mapcounts (before.entry slot).pfn ∧
      (forall frame, frame < nrPageframes -> before.mapcounts frame ≠ 0) ∧
      after.mapcounts = Function.update before.mapcounts (before.entry slot).pfn
        (Word.pred (before.mapcounts (before.entry slot).pfn))) ∨
      ((after.entry slot).valid = true ∧ (after.entry slot).rw = 3) := by
  cases resolved with
  | upgraded same isProtected single entry =>
      rw [entry, Function.update_self]
      exact Or.inr ⟨isProtected.valid, rfl⟩
  | copied pfn same isProtected shared inside free entry =>
      rw [entry, Function.update_self]
      exact Or.inr ⟨rfl, rfl⟩
  | leaked same isProtected shared full process mapcounts => exact Or.inl ⟨shared, full, mapcounts⟩

theorem Resolved.writable {slot : Slot} {before after : State} (resolved : Resolved slot before after)
    (findsFrame : 1 < before.mapcounts (before.entry slot).pfn ->
      Exists fun frame => frame < nrPageframes ∧ before.mapcounts frame = 0) :
    (after.entry slot).valid = true ∧ (after.entry slot).rw = 3 := by
  rcases resolved.leaked_or_writable with ⟨shared, full, _⟩ | writable
  · rcases findsFrame shared with ⟨frame, inside, free⟩
    exact absurd free (full frame inside)
  · exact writable

theorem Resolved.same {slot : Slot} {before after : State} (resolved : Resolved slot before after) :
    SameProcesses before after := by
  cases resolved with
  | upgraded same => exact same
  | copied pfn same => exact same
  | leaked same => exact same

theorem Resolved.isProtected {slot : Slot} {before after : State} (resolved : Resolved slot before after) :
    Protected before slot := by
  cases resolved with
  | upgraded same isProtected => exact isProtected
  | copied pfn same isProtected => exact isProtected
  | leaked same isProtected => exact isProtected

theorem Retagged.refl (state : State) : Retagged state state :=
  ⟨SameProcesses.refl state, rfl, rfl⟩

theorem Retagged.pte {before after : State} (retagged : Retagged before after) :
    after.pte = before.pte := by
  funext slot
  simp only [State.pte, retagged.process]

theorem Retagged.entry {before after : State} (retagged : Retagged before after) :
    after.entry = before.entry := by
  funext slot
  simp only [State.entry, retagged.pte]

theorem Retagged.page {before after : State} (retagged : Retagged before after) :
    after.page after.current = before.page before.current := by
  funext vpn
  rw [State.page, State.page, retagged.entry, retagged.same.current]

theorem insertTlb_retagged (vpn rw pfn : Nat) (state : State) :
    Retagged state (insertTlb vpn rw pfn state) := by
  unfold insertTlb
  split
  · exact Retagged.refl state
  · split <;> exact ⟨⟨rfl, rfl, rfl, rfl, fun _ => rfl⟩, rfl, rfl⟩

theorem invalidateTlb_retagged (vpn : Nat) (state : State) :
    Retagged state (invalidateTlb vpn state) := by
  unfold invalidateTlb
  split
  · exact Retagged.refl state
  · exact ⟨⟨rfl, rfl, rfl, rfl, fun _ => rfl⟩, rfl, rfl⟩

/-! ## The memory management unit -/

/-- What a translation says and does. -/
theorem translate_cases {printTlbResult : Bool} {rw vpn : Nat} {state after : State}
    {result : Option (Nat × Bool)}
    (ran : Framework.translate printTlbResult rw vpn state = .ok (result, after)) :
    Retagged state after ∧ (result = none -> after = state) := by
  unfold Framework.translate at ran
  split at ran
  · cases ran
    exact ⟨Retagged.refl state, nofun⟩
  · split at ran
    · cases ran
      exact ⟨Retagged.refl state, fun _ => rfl⟩
    · split at ran
      · cases ran
      · split at ran
        · cases ran
          exact ⟨Retagged.refl state, fun _ => rfl⟩
        · split at ran
          · cases ran
            exact ⟨Retagged.refl state, fun _ => rfl⟩
          · split at ran
            · cases ran
              exact ⟨Retagged.refl state, fun _ => rfl⟩
            · cases ran
              refine ⟨?_, nofun⟩
              split
              · exact insertTlb_retagged ..
              · exact Retagged.refl state

/-- A translation that the TLB does not supply looks at the entry. -/
theorem translate_walk {printTlbResult : Bool} {rw vpn : Nat} {state : State} {directory : Fin nrPdesPerPage}
    (indexed : pdeIndex vpn = some directory) (running : state.ptbr = some state.current)
    (missed : printTlbResult = true -> lookupTlb vpn rw state = none) :
    Framework.translate printTlbResult rw vpn state = .ok
      (if (state.entry (state.current, directory, pteIndex vpn)).valid = true ∧
          ¬ (rw &&& accessWrite ≠ 0 ∧
            (state.entry (state.current, directory, pteIndex vpn)).rw &&& accessWrite = 0) then
        (some ((state.entry (state.current, directory, pteIndex vpn)).pfn, false),
          if printTlbResult then
            insertTlb vpn (state.entry (state.current, directory, pteIndex vpn)).rw
              (state.entry (state.current, directory, pteIndex vpn)).pfn state
          else state)
      else (none, state)) := by
  have notSupplied : (if printTlbResult then lookupTlb vpn rw state else none) = none := by
    split
    · rename_i enabled
      exact missed enabled
    · rfl
  unfold Framework.translate
  rw [notSupplied, running, indexed]
  dsimp only
  cases stored : state.pte (state.current, directory, pteIndex vpn) with
  | none => rw [State.entry_of_absent stored, if_neg fun valid => by cases valid.1]
  | some pte =>
      rw [State.entry_of_pte stored]
      cases valid : pte.valid with
      | false => simp [valid]
      | true =>
          by_cases denied : rw &&& accessWrite ≠ 0 ∧ pte.rw &&& accessWrite = 0
          · simp [valid, denied]
          · simp [valid, denied]

/-- Without the TLB, a translation changes nothing. -/
theorem translate_uncached {rw vpn : Nat} {state : State} {directory : Fin nrPdesPerPage}
    (indexed : pdeIndex vpn = some directory) (running : state.ptbr = some state.current) :
    Framework.translate false rw vpn state = .ok
      (if (state.entry (state.current, directory, pteIndex vpn)).valid = true ∧
          ¬ (rw &&& accessWrite ≠ 0 ∧
            (state.entry (state.current, directory, pteIndex vpn)).rw &&& accessWrite = 0) then
        (some ((state.entry (state.current, directory, pteIndex vpn)).pfn, false), state)
      else (none, state)) :=
  translate_walk indexed running nofun

/-! ## The memory manager -/

/-- Providing a directory of zero entries shows only in that the directory is
there. -/
structure Ensured (index : Fin nrPdesPerPage) (before after : State) : Prop where
  same : SameProcesses before after
  entry : after.entry = before.entry
  mapcounts : after.mapcounts = before.mapcounts
  tlb : after.tlb = before.tlb
  present : forall {offset : Fin nrPtesPerPage}, after.pte (before.current, index, offset) ≠ none

theorem ensureDirectory_spec (index : Fin nrPdesPerPage) (state : State) :
    Ensured index state (ensureDirectory Heap.zeroed index state) := by
  unfold ensureDirectory
  split
  · rename_i directory found
    refine ⟨SameProcesses.refl state, rfl, rfl, rfl, ?_⟩
    simp [State.pte, found]
  · rename_i absent
    refine ⟨?_, State.entry_setDirectory_zero absent, rfl, rfl, ?_⟩
    · have stored := SameProcesses.setDirectory state state.current index ⟨fun _ => Pte.zero⟩
      exact ⟨rfl, rfl, rfl, rfl, stored.pid⟩
    · simp [State.pte, State.setDirectory]

theorem allocPage_cases {vpn rw : Nat} {state after : State} {result : Option Nat}
    (ran : Vm.allocPage Heap.zeroed vpn rw state = .ok (result, after)) :
    (result = none ∧ after = state ∧ forall frame, frame < nrPageframes -> state.mapcounts frame ≠ 0) ∨
      Exists fun pfn => Exists fun directory => result = some pfn ∧ pdeIndex vpn = some directory ∧
        Mapped (state.current, directory, pteIndex vpn) rw pfn state after := by
  unfold Vm.allocPage at ran
  split at ran
  · rename_i full
    cases ran
    refine Or.inl ⟨rfl, rfl, fun frame inside => ?_⟩
    have used := List.find?_range_eq_none.mp full frame inside
    simpa using used
  · rename_i pfn found
    have first := List.find?_range_eq_some.mp found
    have free : state.mapcounts pfn = 0 := by simpa using first.1
    have inside : pfn < nrPageframes := List.mem_range.mp first.2.1
    have counted : (state.incrMapcount pfn).mapcounts = Function.update state.mapcounts pfn 1 := by
      simp only [State.incrMapcount, free]
      rfl
    dsimp only at ran
    split at ran
    · cases ran
    · rename_i directory indexed
      cases ran
      have ensured := ensureDirectory_spec directory (state.incrMapcount pfn)
      have sameCurrent := ensured.same.current
      refine Or.inr ⟨pfn, directory, rfl, indexed, ?_, inside, free, fun frame below => ?_, ?_, ?_, ?_⟩
      · exact (SameProcesses.incrMapcount state pfn).trans (ensured.same.trans (SameProcesses.setPte ..))
      · simpa using first.2.2 frame below
      · rw [sameCurrent]
        exact (State.entry_setPte ensured.present _).trans
          (congrArg (Function.update · _ _) ensured.entry)
      · rw [setPte_mapcounts, ensured.mapcounts, counted]
      · rw [setPte_tlb, ensured.tlb]
        rfl

theorem allocPage_full {heap : Heap} {vpn rw : Nat} {state : State}
    (full : forall frame, frame < nrPageframes -> state.mapcounts frame ≠ 0) :
    Vm.allocPage heap vpn rw state = .ok (none, state) := by
  have missing : (List.range nrPageframes).find? (fun i => state.mapcounts i == 0) = none :=
    List.find?_range_eq_none.mpr fun frame inside => by simpa using full frame inside
  simp only [Vm.allocPage, missing]

theorem freePage_ok {vpn : Nat} {state : State} {directory : Fin nrPdesPerPage}
    (indexed : pdeIndex vpn = some directory)
    (valid : (state.entry (state.current, directory, pteIndex vpn)).valid = true)
    (inside : (state.entry (state.current, directory, pteIndex vpn)).pfn < nrPageframes) :
    Exists fun after => Vm.freePage vpn state = .ok after := by
  unfold Vm.freePage
  rw [indexed]
  dsimp only
  rw [State.pte_of_valid valid]
  dsimp only
  rw [if_pos valid, if_pos inside]
  exact ⟨_, rfl⟩

theorem freePage_cases {vpn : Nat} {state after : State} (ran : Vm.freePage vpn state = .ok after) :
    Exists fun directory => pdeIndex vpn = some directory ∧
      (after = state ∧ (state.entry (state.current, directory, pteIndex vpn)).valid = false ∨
        Unmapped (state.current, directory, pteIndex vpn) state after) := by
  unfold Vm.freePage at ran
  split at ran
  · cases ran
  · rename_i directory indexed
    refine ⟨directory, indexed, ?_⟩
    split at ran
    · rename_i absent
      cases ran
      exact Or.inl ⟨rfl, by rw [State.entry_of_absent absent]; rfl⟩
    · rename_i pte stored
      have stands := State.entry_of_pte stored
      split at ran
      · rename_i valid
        dsimp only at ran
        split at ran
        · cases ran
          have retagged := invalidateTlb_retagged vpn
            ((state.setPte (state.current, directory, pteIndex vpn) Pte.zero).decrMapcount pte.pfn)
          refine Or.inr ⟨?_, stands ▸ valid, ?_, ?_⟩
          · exact (SameProcesses.setPte ..).trans ((SameProcesses.decrMapcount ..).trans retagged.same)
          · rw [retagged.entry, State.entry_decrMapcount]
            exact State.entry_setPte (by rw [stored]; nofun) _
          · rw [retagged.mapcounts, stands]
            simp only [State.decrMapcount, setPte_mapcounts]
        · cases ran
      · rename_i invalid
        cases ran
        exact Or.inl ⟨rfl, by rw [stands]; simpa using invalid⟩

/-- Dropping a mapping of a shared frame frees no frame. -/
theorem full_decrMapcount {state : State} {pfn : Nat} (shared : 1 < state.mapcounts pfn)
    (full : forall frame, frame < nrPageframes -> state.mapcounts frame ≠ 0) :
    forall frame, frame < nrPageframes -> (state.decrMapcount pfn).mapcounts frame ≠ 0 := by
  intro frame inside
  by_cases same : frame = pfn
  · subst frame
    simp only [State.decrMapcount, Function.update_self]
    rw [Word.pred_of_pos (by omega)]
    omega
  · simpa only [State.decrMapcount, Function.update_of_ne same] using full frame inside

theorem allocPage_ok {vpn : Nat} {directory : Fin nrPdesPerPage} (indexed : pdeIndex vpn = some directory)
    (heap : Heap) (rw : Nat) (state : State) :
    Exists fun result => Vm.allocPage heap vpn rw state = .ok result := by
  unfold Vm.allocPage
  split
  · exact ⟨_, rfl⟩
  · rw [indexed]
    exact ⟨_, rfl⟩

/-- The handler says that it succeeded on every write to a write-protected
entry. -/
theorem handlePageFault_ok {vpn rw : Nat} {state : State} {directory : Fin nrPdesPerPage}
    (indexed : pdeIndex vpn = some directory) (written : accessRead < rw)
    (isProtected : Protected state (state.current, directory, pteIndex vpn)) (heap : Heap) :
    Exists fun after => handlePageFault heap vpn rw state = .ok (true, after) := by
  unfold handlePageFault
  rw [indexed]
  dsimp only
  rw [State.pte_of_valid isProtected.valid]
  dsimp only
  rw [if_neg (by rw [isProtected.valid]; nofun),
    if_pos ⟨isProtected.allocated, isProtected.readOnly, written⟩, if_pos isProtected.inside]
  split
  · rcases allocPage_ok indexed heap 3 (state.decrMapcount
      (state.entry (state.current, directory, pteIndex vpn)).pfn) with ⟨result, allocated⟩
    rw [allocated]
    exact ⟨_, rfl⟩
  · exact ⟨_, rfl⟩

/-- The handler refuses and changes nothing, or it resolves the fault. -/
theorem handlePageFault_cases {vpn rw : Nat} {state after : State} {result : Bool}
    (ran : handlePageFault Heap.zeroed vpn rw state = .ok (result, after)) :
    Exists fun directory => pdeIndex vpn = some directory ∧
      ((result = false ∧ after = state ∧
          ¬ (Protected state (state.current, directory, pteIndex vpn) ∧ accessRead < rw)) ∨
        (result = true ∧ accessRead < rw ∧
          Resolved (state.current, directory, pteIndex vpn) state after)) := by
  unfold handlePageFault at ran
  split at ran
  · cases ran
  · rename_i directory indexed
    refine ⟨directory, indexed, ?_⟩
    split at ran
    · cases ran
    · rename_i pte stored
      have stands := State.entry_of_pte stored
      split at ran
      · rename_i invalid
        cases ran
        refine Or.inl ⟨rfl, rfl, fun claimed => ?_⟩
        have valid := claimed.1.valid
        rw [stands, invalid] at valid
        cases valid
      · rename_i valid
        split at ran
        · rename_i faulting
          split at ran
          · rename_i inside
            have isProtected : Protected state (state.current, directory, pteIndex vpn) :=
              ⟨by rw [stands]; simpa using valid, stands ▸ faulting.1, stands ▸ faulting.2.1,
                stands ▸ inside⟩
            split at ran
            · rename_i shared
              have sharedEntry : 1 < state.mapcounts
                  (state.entry (state.current, directory, pteIndex vpn)).pfn := by rw [stands]; exact shared
              split at ran
              · cases ran
              · rename_i given allocated found
                cases ran
                refine Or.inr ⟨rfl, faulting.2.2, ?_⟩
                have stillUsed : (state.decrMapcount pte.pfn).mapcounts pte.pfn ≠ 0 := by
                  simp only [State.decrMapcount, Function.update_self]
                  rw [Word.pred_of_pos (by omega)]
                  omega
                rcases allocPage_cases found with ⟨_, rfl, full⟩ | ⟨pfn, other, _, sameIndex, mapped⟩
                · refine Resolved.leaked (SameProcesses.decrMapcount ..) isProtected sharedEntry ?_ rfl ?_ rfl
                  · intro frame frameInside
                    by_cases same : frame = pte.pfn
                    · rw [same]
                      omega
                    · simpa only [State.decrMapcount, Function.update_of_ne same] using full frame frameInside
                  · rw [stands]
                    rfl
                · rw [indexed] at sameIndex
                  cases sameIndex
                  have other : pfn ≠ pte.pfn := fun same => stillUsed (same ▸ mapped.free)
                  refine Resolved.copied pfn ((SameProcesses.decrMapcount ..).trans mapped.same)
                    isProtected sharedEntry mapped.inside ?_ mapped.entry ?_ mapped.tlb
                  · simpa only [State.decrMapcount, Function.update_of_ne other] using mapped.free
                  · rw [mapped.mapcounts, stands]
                    rfl
            · rename_i single
              cases ran
              refine Or.inr ⟨rfl, faulting.2.2, Resolved.upgraded (SameProcesses.setPte ..) isProtected ?_ ?_
                (setPte_mapcounts ..) (setPte_tlb ..)⟩
              · rw [stands]
                omega
              · rw [stands]
                exact State.entry_setPte (by rw [stored]; nofun) _
          · cases ran
        · rename_i refused
          cases ran
          refine Or.inl ⟨rfl, rfl, fun claimed => refused ?_⟩
          rw [← stands]
          exact ⟨claimed.1.allocated, claimed.1.readOnly, claimed.2⟩

/-! ## The retry loop -/

/-- A round of the retry loop ends in a translation, in a fault that is refused,
or in one that is resolved and followed by the next round. -/
theorem accessLoop_cases {printTlbResult : Bool} {vpn rw retries : Nat} {state after : State} {access : Access}
    (ran : accessLoop Heap.zeroed printTlbResult vpn rw (retries + 1) state = .ok (access, after)) :
    (Exists fun pfn => Exists fun fromTlb => access = .translated pfn fromTlb ∧
      Framework.translate printTlbResult rw vpn state = .ok (some (pfn, fromTlb), after)) ∨
    Framework.translate printTlbResult rw vpn state = .ok (none, state) ∧
      ((access = .denied ∧ after = state) ∨
        Exists fun directory => Exists fun handled => pdeIndex vpn = some directory ∧ accessRead < rw ∧
          Resolved (state.current, directory, pteIndex vpn) state handled ∧
          accessLoop Heap.zeroed printTlbResult vpn rw retries handled = .ok (access, after)) := by
  rw [accessLoop] at ran
  split at ran
  · cases ran
  · rename_i pfn fromTlb translated looked
    cases ran
    exact Or.inl ⟨pfn, fromTlb, rfl, looked⟩
  · rename_i missed looked
    have untouched := (translate_cases looked).2 rfl
    subst missed
    refine Or.inr ⟨looked, ?_⟩
    split at ran
    · cases ran
    · rename_i handled fault
      rcases handlePageFault_cases fault with ⟨directory, indexed, ⟨impossible, _⟩ | ⟨_, written, resolved⟩⟩
      · cases impossible
      · exact Or.inr ⟨directory, handled, indexed, written, resolved, ran⟩
    · rename_i refused fault
      cases ran
      rcases handlePageFault_cases fault with ⟨_, _, ⟨_, same, _⟩ | ⟨impossible, _⟩⟩
      · exact Or.inl ⟨rfl, same⟩
      · cases impossible

/-- Past its assertions, an access is the retry loop. -/
theorem accessMemory_eq {vpn rw : Nat} (legal : (rw &&& accessRead) ^^^ (rw &&& accessWrite) ≠ 0)
    (inside : vpn < nrPdesPerPage * nrPtesPerPage) (heap : Heap) (printTlbResult : Bool) (state : State) :
    accessMemory heap printTlbResult vpn rw state = accessLoop heap printTlbResult vpn rw 2 state := by
  rw [accessMemory, if_neg legal, if_pos inside]

theorem accessMemory_cases {heap : Heap} {printTlbResult : Bool} {vpn rw : Nat} {state : State}
    {result : Access × State} (ran : accessMemory heap printTlbResult vpn rw state = .ok result) :
    accessLoop heap printTlbResult vpn rw 2 state = .ok result := by
  rw [accessMemory] at ran
  split at ran
  · cases ran
  · split at ran
    · exact ran
    · cases ran

end Vm
end OsPa
