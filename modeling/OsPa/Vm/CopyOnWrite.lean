import OsPa.Vm.Effects

namespace OsPa
namespace Vm

open Library Framework

/-!
# Writing to a page that is write-protected

Without the TLB a write to such a page misses, the handler is called once, and the
second round of the retry loop is served.  The handler upgrades the entry in place
when its frame is not shared, and otherwise maps the smallest free frame in place of
the shared one, over the entry that it is handling.  Nothing here depends on how
the state was reached.
-/

/-- The place of a page in the page table of a process. -/
def pageSlot (process vpn : Nat) (inside : vpn < 64) : Slot :=
  (process, ⟨vpn / nrPtesPerPage, Nat.div_lt_of_lt_mul inside⟩, pteIndex vpn)

/-- The number of page faults that the retry loop takes, that is, of calls of the
handler. -/
def pageFaults (heap : Heap) (printTlbResult : Bool) (vpn rw : Nat) : Nat -> State -> Nat
  | 0, _ => 0
  | retries + 1, state =>
      match translate printTlbResult rw vpn state with
      | .ok (none, missed) =>
          match handlePageFault heap vpn rw missed with
          | .ok (true, handled) => pageFaults heap printTlbResult vpn rw retries handled + 1
          | _ => 1
      | _ => 0

/-- A write that takes one page fault, which changes the entry in the slot to `now`.
The next write takes none. -/
structure WrittenOnce (heap : Heap) (vpn : Nat) (slot : Slot) (now : Pte) (before after : State) : Prop where
  written : accessMemory heap false vpn accessWrite before = .ok (.translated now.pfn false, after)
  faults : pageFaults heap false vpn accessWrite 2 before = 1
  same : SameProcesses before after
  pte : after.pte = Function.update before.pte slot (some now)
  tlb : after.tlb = before.tlb
  next : accessMemory heap false vpn accessWrite after = .ok (.translated now.pfn false, after)
  noFaults : pageFaults heap false vpn accessWrite 2 after = 0

section Write

variable {heap : Heap} {state after : State} {vpn : Nat} {inside : vpn < 64} {pte now : Pte}

theorem write_legal (inside : vpn < 64) (heap : Heap) (state : State) :
    accessMemory heap false vpn accessWrite state = accessLoop heap false vpn accessWrite 2 state :=
  accessMemory_eq (by decide) inside heap false state

private theorem translate_writable (running : state.ptbr = some state.current)
    (stored : state.pte (pageSlot state.current vpn inside) = some pte) (valid : pte.valid = true)
    (writable : pte.rw &&& accessWrite ≠ 0) :
    Framework.translate false accessWrite vpn state = .ok (some (pte.pfn, false), state) := by
  have entry : state.entry (state.current, _, pteIndex vpn) = pte := State.entry_of_pte stored
  rw [translate_uncached (pdeIndex_of_lt inside) running, entry]
  exact congrArg Except.ok (if_pos ⟨valid, fun denied => writable denied.2⟩)

theorem translate_readOnly (running : state.ptbr = some state.current)
    (stored : state.pte (pageSlot state.current vpn inside) = some pte) (readOnly : pte.rw = accessRead) :
    Framework.translate false accessWrite vpn state = .ok (none, state) := by
  have entry : state.entry (state.current, _, pteIndex vpn) = pte := State.entry_of_pte stored
  rw [translate_uncached (pdeIndex_of_lt inside) running, entry]
  refine congrArg Except.ok (if_neg fun allowed => allowed.2 ⟨by decide, ?_⟩)
  rw [readOnly]
  rfl

/-! ## The handler -/

private theorem handlePageFault_refused (heap : Heap)
    (stored : state.pte (pageSlot state.current vpn inside) = some pte) (valid : pte.valid = true)
    (allocated : pte.priv = accessRead) : handlePageFault heap vpn accessWrite state = .ok (false, state) := by
  have found : state.pte (state.current, _, pteIndex vpn) = some pte := stored
  simp only [handlePageFault, pdeIndex_of_lt inside, found]
  rw [if_neg (by rw [valid]; nofun), if_neg fun faulting => faulting.1 allocated]

private theorem handlePageFault_single (heap : Heap)
    (stored : state.pte (pageSlot state.current vpn inside) = some pte) (valid : pte.valid = true)
    (readOnly : pte.rw = accessRead) (frame : pte.pfn < nrPageframes) (allocated : pte.priv ≠ accessRead)
    (single : state.mapcounts pte.pfn ≤ 1) :
    handlePageFault heap vpn accessWrite state =
      .ok (true, state.setPte (pageSlot state.current vpn inside) { pte with rw := 3 }) := by
  have found : state.pte (state.current, _, pteIndex vpn) = some pte := stored
  simp only [handlePageFault, pdeIndex_of_lt inside, found]
  rw [if_neg (by rw [valid]; nofun), if_pos ⟨allocated, readOnly, by decide⟩, if_pos frame,
    if_neg (Nat.not_lt_of_le single)]
  rfl

/-- Where the directory is there, the page is mapped to the first free frame. -/
private theorem allocPage_present (heap : Heap) (rw : Nat) {free : Nat}
    (stored : state.pte (pageSlot state.current vpn inside) = some pte)
    (first : (List.range nrPageframes).find? (fun i => state.mapcounts i == 0) = some free) :
    Vm.allocPage heap vpn rw state =
      .ok (some free, (state.incrMapcount free).setPte (pageSlot state.current vpn inside) ⟨true, rw, free, rw⟩) := by
  simp only [Vm.allocPage, first, pdeIndex_of_lt inside]
  have present : ensureDirectory heap ⟨vpn / nrPtesPerPage, Nat.div_lt_of_lt_mul inside⟩
      (state.incrMapcount free) = state.incrMapcount free := by
    unfold ensureDirectory
    split
    · rfl
    · rename_i absent
      have nothing : state.pte (pageSlot state.current vpn inside) = none := by
        unfold State.pte
        exact congrArg (Option.map _) absent
      rw [nothing] at stored
      cases stored
  rw [present]
  rfl

private theorem handlePageFault_shared (heap : Heap) {free : Nat}
    (stored : state.pte (pageSlot state.current vpn inside) = some pte) (valid : pte.valid = true)
    (readOnly : pte.rw = accessRead) (frame : pte.pfn < nrPageframes) (allocated : pte.priv ≠ accessRead)
    (shared : 1 < state.mapcounts pte.pfn)
    (first : (List.range nrPageframes).find? (fun i => (state.decrMapcount pte.pfn).mapcounts i == 0) = some free) :
    handlePageFault heap vpn accessWrite state =
      .ok (true, ((state.decrMapcount pte.pfn).incrMapcount free).setPte (pageSlot state.current vpn inside)
        ⟨true, 3, free, 3⟩) := by
  have found : state.pte (state.current, _, pteIndex vpn) = some pte := stored
  have dropped : (state.decrMapcount pte.pfn).pte (pageSlot (state.decrMapcount pte.pfn).current vpn inside) =
      some pte := stored
  have copied := allocPage_present heap 3 dropped first
  simp only [handlePageFault, pdeIndex_of_lt inside, found]
  rw [if_neg (by rw [valid]; nofun), if_pos ⟨allocated, readOnly, by decide⟩, if_pos frame, if_pos shared, copied]
  rfl

/-! ## The write -/

/-- After the handler has made the entry writable, the write and the next one are
served. -/
private theorem WrittenOnce.of_handled (running : state.ptbr = some state.current)
    (stored : state.pte (pageSlot state.current vpn inside) = some pte) (readOnly : pte.rw = accessRead)
    (handled : handlePageFault heap vpn accessWrite state = .ok (true, after)) (same : SameProcesses state after)
    (entry : after.pte = Function.update state.pte (pageSlot state.current vpn inside) (some now))
    (tlb : after.tlb = state.tlb) (valid : now.valid = true) (writable : now.rw = 3) :
    WrittenOnce heap vpn (pageSlot state.current vpn inside) now state after := by
  have missed := translate_readOnly running stored readOnly
  have there : after.pte (pageSlot after.current vpn inside) = some now := by
    rw [same.current, entry, Function.update_self]
  have runs : after.ptbr = some after.current := by
    rw [same.ptbr, same.current]
    exact running
  have allowed : now.rw &&& accessWrite ≠ 0 := by
    rw [writable]
    decide
  have found := translate_writable runs there valid allowed
  have served : forall retries, accessLoop heap false vpn accessWrite (retries + 1) after =
      .ok (.translated now.pfn false, after) := by
    intro retries
    rw [accessLoop, found]
  have quiet : forall retries, pageFaults heap false vpn accessWrite (retries + 1) after = 0 := by
    intro retries
    rw [pageFaults, found]
  refine ⟨?_, ?_, same, entry, tlb, ?_, quiet 1⟩
  · rw [write_legal inside, accessLoop, missed]
    dsimp only
    rw [handled]
    exact served 0
  · rw [pageFaults, missed]
    dsimp only
    rw [handled]
    dsimp only
    rw [quiet 0]
  · rw [write_legal inside]
    exact served 1

private theorem pte_setPte_update (stored : state.pte (pageSlot state.current vpn inside) = some pte) (now : Pte) :
    (state.setPte (pageSlot state.current vpn inside) now).pte =
      Function.update state.pte (pageSlot state.current vpn inside) (some now) := by
  funext slot
  rw [State.pte_setPte (by rw [stored]; nofun), Function.update_apply]

/-- The frame that the copy gets is the smallest one that is free. -/
private theorem first_free_decrMapcount {pfn : Nat} (shared : 1 < state.mapcounts pfn)
    (free : Exists fun frame => frame < nrPageframes ∧ state.mapcounts frame = 0) :
    Exists fun new =>
      (List.range nrPageframes).find? (fun i => (state.decrMapcount pfn).mapcounts i == 0) = some new ∧
        new < nrPageframes ∧ state.mapcounts new = 0 ∧ forall frame, frame < new -> state.mapcounts frame ≠ 0 := by
  have zero : forall frame, (state.decrMapcount pfn).mapcounts frame = 0 ↔ state.mapcounts frame = 0 := by
    intro frame
    by_cases same : frame = pfn
    · subst same
      simp only [State.decrMapcount, Function.update_self]
      rw [Word.pred_of_pos (by omega)]
      omega
    · simp only [State.decrMapcount, Function.update_of_ne same]
  rcases free with ⟨frame, frameInside, unused⟩
  cases first : (List.range nrPageframes).find? fun i => (state.decrMapcount pfn).mapcounts i == 0 with
  | none =>
      have used := List.find?_range_eq_none.mp first frame frameInside
      rw [(zero frame).mpr unused] at used
      exact absurd used (by decide)
  | some new =>
      have search := List.find?_range_eq_some.mp first
      refine ⟨new, rfl, List.mem_range.mp search.2.1, ?_, fun smaller below => ?_⟩
      · rw [← zero]
        exact beq_iff_eq.mp search.1
      · have used := search.2.2 smaller below
        rw [ne_eq, ← zero]
        simpa using used

/-- A write to a page that is write-protected: it is refused where the page is for
reading only, made in place where the frame is not shared, and otherwise made in a
copy. -/
theorem copy_on_write (heap : Heap) (running : state.ptbr = some state.current)
    (stored : state.pte (pageSlot state.current vpn inside) = some pte) (valid : pte.valid = true)
    (readOnly : pte.rw = accessRead) (frame : pte.pfn < nrPageframes) :
    (pte.priv = accessRead -> accessMemory heap false vpn accessWrite state = .ok (.denied, state)) ∧
    (pte.priv ≠ accessRead -> state.mapcounts pte.pfn ≤ 1 -> Exists fun after =>
      WrittenOnce heap vpn (pageSlot state.current vpn inside) { pte with rw := 3 } state after ∧
        after.mapcounts = state.mapcounts) ∧
    (pte.priv ≠ accessRead -> 1 < state.mapcounts pte.pfn ->
      (Exists fun free => free < nrPageframes ∧ state.mapcounts free = 0) ->
        Exists fun new => new < nrPageframes ∧ state.mapcounts new = 0 ∧
          (forall smaller, smaller < new -> state.mapcounts smaller ≠ 0) ∧ Exists fun after =>
            WrittenOnce heap vpn (pageSlot state.current vpn inside) ⟨true, 3, new, 3⟩ state after ∧
              after.mapcounts = Function.update
                (Function.update state.mapcounts pte.pfn (state.mapcounts pte.pfn - 1)) new 1) := by
  refine ⟨fun allocated => ?_, fun allocated single => ?_, fun allocated shared free => ?_⟩
  · rw [write_legal inside, accessLoop, translate_readOnly running stored readOnly]
    dsimp only
    rw [handlePageFault_refused heap stored valid allocated]
  · have handled := handlePageFault_single heap stored valid readOnly frame allocated single
    exact ⟨_, .of_handled running stored readOnly handled (SameProcesses.setPte ..) (pte_setPte_update stored _)
      (setPte_tlb ..) valid rfl, setPte_mapcounts ..⟩
  · rcases first_free_decrMapcount shared free with ⟨new, first, newInside, unused, smallest⟩
    have handled := handlePageFault_shared heap stored valid readOnly frame allocated shared first
    let counted := (state.decrMapcount pte.pfn).incrMapcount new
    have there : counted.pte (pageSlot counted.current vpn inside) = some pte := stored
    have other : new ≠ pte.pfn := by
      rintro rfl
      omega
    have counting : SameProcesses state counted :=
      (SameProcesses.decrMapcount state pte.pfn).trans (SameProcesses.incrMapcount _ new)
    have same := counting.trans (SameProcesses.setPte counted (pageSlot state.current vpn inside) ⟨true, 3, new, 3⟩)
    have entry := pte_setPte_update there ⟨true, 3, new, 3⟩
    refine ⟨new, newInside, unused, smallest, _,
      .of_handled running stored readOnly handled same entry (setPte_tlb counted ..) rfl rfl, ?_⟩
    rw [setPte_mapcounts]
    simp only [State.decrMapcount, State.incrMapcount, Function.update_of_ne other, unused]
    rw [Word.pred_of_pos (by omega)]
    rfl

end Write

/-- The child writes to a page that it shares with its parent. -/
theorem copy_on_write_child : Exists fun events => Exists fun state => Exists fun after =>
    (simulator Heap.zeroed false).run [.alloc 5 ['w'], .switch 1] initSystem = .ok (events, state) ∧
      WrittenOnce Heap.zeroed 5 (pageSlot 1 5 (by decide)) ⟨true, 3, 1, 3⟩ state after ∧
        after.mapcounts 0 = 1 ∧ after.mapcounts 1 = 1 := by
  have ran : Exists fun events => Exists fun state =>
      (simulator Heap.zeroed false).run [.alloc 5 ['w'], .switch 1] initSystem = .ok (events, state) ∧
        state.ptbr = some state.current ∧ state.current = 1 ∧
          state.pte (pageSlot state.current 5 (by decide)) = some ⟨true, 1, 0, 3⟩ ∧ state.mapcounts 0 = 2 ∧
            state.mapcounts 1 = 0 := ⟨_, _, rfl, rfl, rfl, rfl, rfl, rfl⟩
  rcases ran with ⟨events, state, ran, running, current, stored, shared, unused⟩
  have written := (copy_on_write Heap.zeroed running stored rfl rfl (by decide)).2.2 (by decide)
    (by rw [shared]; decide) ⟨1, by decide, unused⟩
  rcases written with ⟨new, _, free, smallest, after, once, counts⟩
  have one : new = 1 := by
    by_contra other
    rcases Nat.lt_or_gt_of_ne other with less | more
    · rw [Nat.lt_one_iff.mp less, shared] at free
      cases free
    · exact smallest 1 more unused
  subst one
  rw [current] at once
  refine ⟨events, state, after, ran, once, ?_, ?_⟩
  · rw [counts, Function.update_of_ne (by decide), Function.update_self, shared]
  · rw [counts, Function.update_self]

end Vm
end OsPa
