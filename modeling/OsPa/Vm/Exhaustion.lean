import OsPa.Vm.WellFormed

namespace OsPa
namespace Vm

open Library Framework

/-!
# Copies that find no frame

`handle_page_fault` gives up the shared frame before it asks `alloc_page` for
another one, and does not look at the answer.  When all frames are in use it
reports success all the same, the retry loop calls it a second time on the
changed counts, and `__access_memory` returns true.  The frame has then lost one
mapping for each call, or one mapping and the write protection of one of its
sharers.
-/

/-- The access is refused, and page tables and map counts are as before. -/
def FailsCleanly (printTlbResult : Bool) (vpn rw : Nat) (state : State) : Prop :=
  Exists fun after =>
    accessMemory Heap.zeroed printTlbResult vpn rw state = .ok (.denied, after) ∧
      after.entry = state.entry ∧ after.mapcounts = state.mapcounts

/-- The current process cannot write the page without a copy, its frame is
shared, and no frame is free. -/
structure Exhausted (vpn : Nat) (directory : Fin nrPdesPerPage) (state : State) : Prop where
  indexed : pdeIndex vpn = some directory
  full : forall frame, frame < nrPageframes -> state.mapcounts frame ≠ 0
  isProtected : Protected state (state.current, directory, pteIndex vpn)
  shared : 1 < state.mapcounts (state.entry (state.current, directory, pteIndex vpn)).pfn

/-- The handler reports success on every write-protected entry when no frame
is free: it drops one mapping of a frame that is shared, and upgrades the entry
of a frame that is not. -/
private theorem handlePageFault_full (heap : Heap) {vpn rw : Nat} {state : State} {directory : Fin nrPdesPerPage}
    (indexed : pdeIndex vpn = some directory) (written : accessRead < rw)
    (full : forall frame, frame < nrPageframes -> state.mapcounts frame ≠ 0)
    (isProtected : Protected state (state.current, directory, pteIndex vpn)) :
    handlePageFault heap vpn rw state =
      .ok (true,
        if 1 < state.mapcounts (state.entry (state.current, directory, pteIndex vpn)).pfn then
          state.decrMapcount (state.entry (state.current, directory, pteIndex vpn)).pfn
        else
          state.setPte (state.current, directory, pteIndex vpn)
            { state.entry (state.current, directory, pteIndex vpn) with rw := 3 }) := by
  have stored := State.pte_of_valid isProtected.valid
  unfold handlePageFault
  simp only [indexed, stored]
  rw [if_neg (by rw [isProtected.valid]; nofun),
    if_pos ⟨isProtected.allocated, isProtected.readOnly, written⟩, if_pos isProtected.inside]
  split
  · rename_i shared
    rw [allocPage_full (full_decrMapcount shared full)]
  · rfl

theorem translate_ok (printTlbResult : Bool) (rw : Nat) {vpn : Nat} (state : State) {directory : Fin nrPdesPerPage}
    (indexed : pdeIndex vpn = some directory) :
    Exists fun result => Framework.translate printTlbResult rw vpn state = .ok result := by
  unfold Framework.translate
  rw [indexed]
  split
  · exact ⟨_, rfl⟩
  · split
    · exact ⟨_, rfl⟩
    · dsimp only
      split
      · exact ⟨_, rfl⟩
      · split
        · exact ⟨_, rfl⟩
        · split <;> exact ⟨_, rfl⟩

/-- A round of the retry loop on a protected entry without a free frame is
served by the TLB or asks the handler, which says that it succeeded. -/
theorem accessLoop_full (printTlbResult : Bool) {vpn : Nat} (retries : Nat) {state : State}
    {directory : Fin nrPdesPerPage} (indexed : pdeIndex vpn = some directory)
    (full : forall frame, frame < nrPageframes -> state.mapcounts frame ≠ 0)
    (isProtected : Protected state (state.current, directory, pteIndex vpn)) :
    (Exists fun pfn => Exists fun fromTlb => Exists fun after =>
      accessLoop Heap.zeroed printTlbResult vpn accessWrite (retries + 1) state =
        .ok (.translated pfn fromTlb, after)) ∨
      accessLoop Heap.zeroed printTlbResult vpn accessWrite (retries + 1) state =
        accessLoop Heap.zeroed printTlbResult vpn accessWrite retries
          (if 1 < state.mapcounts (state.entry (state.current, directory, pteIndex vpn)).pfn then
            state.decrMapcount (state.entry (state.current, directory, pteIndex vpn)).pfn
          else
            state.setPte (state.current, directory, pteIndex vpn)
              { state.entry (state.current, directory, pteIndex vpn) with rw := 3 }) := by
  rcases translate_ok printTlbResult accessWrite state indexed with
    ⟨⟨result, translated⟩, ran⟩
  cases result with
  | some found => exact Or.inl ⟨found.1, found.2, translated, by simp only [accessLoop, ran]⟩
  | none =>
      have untouched := (translate_cases ran).2 rfl
      subst translated
      have written : accessRead < accessWrite := by decide
      have handled := handlePageFault_full Heap.zeroed indexed written full isProtected
      exact Or.inr (by simp only [accessLoop, ran, handled])

/-- Without a frame to copy to, the write returns true. -/
theorem Exhausted.access_ret (printTlbResult : Bool) {vpn : Nat} {directory : Fin nrPdesPerPage}
    {state : State} (exhausted : Exhausted vpn directory state) :
    Exists fun access => Exists fun after =>
      accessMemory Heap.zeroed printTlbResult vpn accessWrite state = .ok (access, after) ∧
        access.ret = true := by
  rw [accessMemory_eq (by decide) (inRange_of_indexed exhausted.indexed)]
  rcases accessLoop_full printTlbResult 1 exhausted.indexed exhausted.full
    exhausted.isProtected with ⟨pfn, fromTlb, after, served⟩ | retried
  · exact ⟨_, after, served, rfl⟩
  · rw [retried, if_pos exhausted.shared]
    -- The second round starts from the state whose count has been dropped.
    have full := full_decrMapcount exhausted.shared exhausted.full
    have isProtected : Protected
        (state.decrMapcount (state.entry (state.current, directory, pteIndex vpn)).pfn)
        (state.current, directory, pteIndex vpn) :=
      ⟨exhausted.isProtected.valid, exhausted.isProtected.allocated, exhausted.isProtected.readOnly,
        exhausted.isProtected.inside⟩
    rcases accessLoop_full printTlbResult 0 exhausted.indexed full
      isProtected with ⟨pfn, fromTlb, after, served⟩ | retriedAgain
    · exact ⟨_, after, served, rfl⟩
    · exact ⟨_, _, retriedAgain, rfl⟩

theorem Exhausted.not_denied {printTlbResult : Bool} {vpn : Nat} {directory : Fin nrPdesPerPage}
    {state : State} (exhausted : Exhausted vpn directory state) :
    ¬ FailsCleanly printTlbResult vpn accessWrite state := by
  rintro ⟨after, denied, _⟩
  rcases exhausted.access_ret printTlbResult with ⟨access, other, ran, success⟩
  rw [ran] at denied
  cases denied
  cases success

/-- No write that cannot be copied fails cleanly, in any state and with or
without the TLB: it returns true. -/
theorem uncopied_write_never_fails_cleanly {printTlbResult : Bool} {vpn : Nat}
    {directory : Fin nrPdesPerPage} {state : State} (exhausted : Exhausted vpn directory state) :
    (Exists fun access => Exists fun after =>
      accessMemory Heap.zeroed printTlbResult vpn accessWrite state = .ok (access, after) ∧
        access.ret = true) ∧
      ¬ FailsCleanly printTlbResult vpn accessWrite state :=
  ⟨exhausted.access_ret printTlbResult, exhausted.not_denied⟩

/-! ## A run that exhausts the frames -/

/-- Allocate all pages of process 0, copy all but page 0 in process 1 and page
1 once more in process 2. -/
def exhaustingCommands : List Command :=
  (List.range 64).map (fun vpn => Command.alloc vpn ['r', 'w']) ++ [.switch 1] ++
    (List.range 63).map (fun vpn => Command.write (vpn + 1)) ++ [.switch 2, .write 1]

private theorem exhaustingCommands_inRange : forall command, command ∈ exhaustingCommands -> command.InRange := by
  decide +kernel

/-- What is looked at in the state that the commands lead to. -/
def isExhausted (state : State) : Bool :=
  (List.range nrPageframes).all (fun frame => state.mapcounts frame != 0) &&
    (state.entry (state.current, 0, 0)).valid &&
    (state.entry (state.current, 0, 0)).priv != accessRead &&
    (state.entry (state.current, 0, 0)).rw == accessRead &&
    decide ((state.entry (state.current, 0, 0)).pfn < nrPageframes) &&
    decide (1 < state.mapcounts (state.entry (state.current, 0, 0)).pfn)

def exhausts : Bool :=
  match (simulator Heap.zeroed false).run exhaustingCommands initSystem with
  | .ok (_, state) => isExhausted state
  | .error _ => false

set_option maxRecDepth 100000 in
private theorem exhausts_eq_true : exhausts = true := by decide +kernel

private theorem Exhausted.of_isExhausted {state : State} (exhausted : isExhausted state = true) :
    Exhausted 0 0 state := by
  simp only [isExhausted, Bool.and_eq_true, List.all_eq_true, List.mem_range, bne_iff_ne,
    beq_iff_eq, decide_eq_true_eq] at exhausted
  rcases exhausted with ⟨⟨⟨⟨⟨full, valid⟩, allocated⟩, readOnly⟩, inside⟩, shared⟩
  exact ⟨rfl, full, ⟨valid, allocated, readOnly, inside⟩, shared⟩

theorem exists_reached_exhausted : Exists fun state => Reached false state ∧ Exhausted 0 0 state := by
  have checked := exhausts_eq_true
  unfold exhausts at checked
  split at checked
  · rename_i events state ran
    exact ⟨state, ⟨exhaustingCommands, exhaustingCommands_inRange, events, ran⟩,
      Exhausted.of_isExhausted checked⟩
  · cases checked

theorem uncopied_write_reaches_failure : Exists fun state => Reached false state ∧ Exhausted 0 0 state ∧
    ¬ FailsCleanly false 0 accessWrite state := by
  rcases exists_reached_exhausted with ⟨state, reached, exhausted⟩
  exact ⟨state, reached, exhausted, exhausted.not_denied⟩

/-- The write of page 0 returns true in a state in which no frame is free. -/
theorem uncopied_write_exhausting : Exists fun state => Reached false state ∧ Exhausted 0 0 state ∧
    (Exists fun access => Exists fun after =>
      accessMemory Heap.zeroed false 0 accessWrite state = .ok (access, after) ∧ access.ret = true) ∧
    ¬ FailsCleanly false 0 accessWrite state := by
  rcases exists_reached_exhausted with ⟨state, reached, exhausted⟩
  exact ⟨state, reached, exhausted, uncopied_write_never_fails_cleanly exhausted⟩

end Vm
end OsPa
