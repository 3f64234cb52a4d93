import OsPa.Vm.Coherence

namespace OsPa
namespace Vm

open Library Framework

/-!
# Writes that the TLB supplies

A page that is freed can leave outdated entries behind, but they allow reading
only.  This needs no assumption on the commands: an entry that allows writing is
made by a page walk, after a lookup that has found no other one, and it is the
first one for its page, which is the one that `free_page` clears.  What changes a
page table entry otherwise comes after a failed lookup, too.
-/

/-- The entries that allow writing agree with the page table of the running
process. -/
structure WriteSound (state : State) : Prop where
  ordered : Ordered state
  writable : forall i vpn, state.tags i = some vpn -> (state.tlb i).rw = 3 ->
    (state.page state.current vpn).valid = true ∧ (state.page state.current vpn).rw = 3 ∧
      (state.page state.current vpn).pfn = (state.tlb i).pfn

/-- An empty TLB. -/
theorem WriteSound.of_empty {state : State} (empty : forall i, state.tags i = none) : WriteSound state := by
  have coherent := FullyCoherent.of_empty empty
  refine ⟨coherent.ordered, fun i vpn tagged => ?_⟩
  rw [empty i] at tagged
  cases tagged

namespace WriteSound

variable {before after : State} {vpn : Nat}

/-- Entries that are left in place stay in order. -/
theorem of_kept (sound : WriteSound before)
    (kept : forall i page, after.tags i = some page -> before.tags i = some page ∧ after.tlb i = before.tlb i)
    (pages : forall i page, after.tags i = some page -> (before.tlb i).rw = 3 ->
      after.page after.current page = before.page before.current page) : WriteSound after := by
  refine ⟨⟨fun i page tagged => ?_, fun i page tagged => ?_, fun i earlier page ahead earlierTagged tagged => ?_⟩,
    fun i page tagged writing => ?_⟩
  · exact sound.ordered.inside i page (kept i page tagged).1
  · rw [(kept i page tagged).2]
    exact sound.ordered.flags i page (kept i page tagged).1
  · rw [(kept i page tagged).2]
    exact sound.ordered.later i earlier page ahead (kept earlier page earlierTagged).1 (kept i page tagged).1
  · rw [(kept i page tagged).2] at writing ⊢
    rw [pages i page tagged writing]
    exact sound.writable i page (kept i page tagged).1 writing

/-- A store to a page table keeps the entries sound if it is to a page that they
allow to read only. -/
theorem of_pages (sound : WriteSound before) (tlb : after.tlb = before.tlb)
    (readOnly : forall i, before.tags i = some vpn -> (before.tlb i).rw = 1)
    (pages : forall page, page ≠ vpn -> after.page after.current page = before.page before.current page) :
    WriteSound after := by
  have tags : after.tags = before.tags := by
    funext i
    rw [State.tags, State.tags, tlb]
  apply sound.of_kept
  · intro i page tagged
    rw [tags] at tagged
    exact ⟨tagged, congrFun tlb i⟩
  · intro i page tagged writing
    apply pages
    rintro rfl
    rw [tags] at tagged
    rw [readOnly i tagged] at writing
    cases writing

/-- A page walk after a failed lookup. -/
theorem inserted (sound : WriteSound before)
    (readOnly : forall i, before.tags i = some vpn -> (before.tlb i).rw = 1)
    (valid : (before.page before.current vpn).valid = true)
    (flags : (before.page before.current vpn).rw = 1 ∨ (before.page before.current vpn).rw = 3) :
    WriteSound (insertTlb vpn (before.page before.current vpn).rw (before.page before.current vpn).pfn before) := by
  have retagged :=
    insertTlb_retagged vpn (before.page before.current vpn).rw (before.page before.current vpn).pfn before
  rcases insertTlb_cases vpn (before.page before.current vpn).rw (before.page before.current vpn).pfn before with
    ⟨same, _⟩ | ⟨i, inserted⟩
  · rw [same]
    exact sound
  · refine ⟨inserted.ordered sound.ordered readOnly flags, fun index other tagged writing => ?_⟩
    rw [retagged.page]
    by_cases here : index = i
    · subst index
      rcases inserted.stored with ⟨stored, storedRw, storedPfn⟩
      cases stored.symm.trans tagged
      exact ⟨valid, storedRw.symm.trans writing, storedPfn.symm⟩
    · rw [(inserted.elsewhere here).1] at tagged
      rw [(inserted.elsewhere here).2] at writing ⊢
      exact sound.writable index other tagged writing

/-- A translation that fails has not found the page in the TLB. -/
theorem translated {rw : Nat} {result : Option (Nat × Bool)} (sound : WriteSound before)
    (wellFormed : WellFormed before) (flags : Flags rw)
    (ran : Framework.translate true rw vpn before = .ok (result, after)) :
    WriteSound after ∧ (result = none -> lookupTlb vpn rw before = none) := by
  cases lookup : lookupTlb vpn rw before with
  | some pfn =>
      unfold Framework.translate at ran
      rw [if_pos rfl, lookup] at ran
      cases ran
      exact ⟨sound, nofun⟩
  | none =>
      refine ⟨?_, fun _ => rfl⟩
      cases indexed : pdeIndex vpn with
      | none =>
          unfold Framework.translate at ran
          rw [if_pos rfl, lookup, wellFormed.ptbr, indexed] at ran
          cases ran
      | some directory =>
          rw [translate_walk indexed wellFormed.ptbr fun _ => lookup, ← State.page_of_indexed indexed] at ran
          split at ran
          case isTrue served =>
              cases ran
              have readOnly := sound.ordered.readOnly_of_missed flags lookup
              exact sound.inserted readOnly served.1 (wellFormed.page_rw served.1)
          case isFalse =>
              cases ran
              exact sound

/-- A page fault is taken after a failed lookup. -/
private theorem resolved {directory : Fin nrPdesPerPage} (sound : WriteSound before)
    (indexed : pdeIndex vpn = some directory)
    (readOnly : forall i, before.tags i = some vpn -> (before.tlb i).rw = 1)
    (resolved : Resolved (before.current, directory, pteIndex vpn) before after) : WriteSound after := by
  have stored : forall {stored : Pte} {page : Nat}, SameProcesses before after ->
      after.entry = Function.update before.entry (before.current, directory, pteIndex vpn) stored ->
        page ≠ vpn -> after.page after.current page = before.page before.current page := by
    intro stored page same entry other
    rw [State.page_update indexed entry, same.current, if_neg fun both => other both.2]
  cases resolved with
  | upgraded same isProtected single entry mapcounts tlb =>
      exact sound.of_pages tlb readOnly fun page => stored same entry
  | copied pfn same isProtected shared inside free entry mapcounts tlb =>
      exact sound.of_pages tlb readOnly fun page => stored same entry
  | leaked same isProtected shared full process mapcounts tlb =>
      refine sound.of_pages tlb readOnly fun page _ => ?_
      simp only [State.page, State.entry, State.pte, process, same.current]

private theorem accessed {rw retries : Nat} {access : Access} (sound : WriteSound before)
    (wellFormed : WellFormed before)
    (flags : Flags rw) (ran : accessLoop Heap.zeroed true vpn rw retries before = .ok (access, after)) :
    WriteSound after := by
  induction retries generalizing before with
  | zero =>
      cases ran
      exact sound
  | succ retries inductionHypothesis =>
      rcases accessLoop_cases ran with
        ⟨_, _, _, translated⟩ | ⟨missed, ⟨_, rfl⟩ | ⟨directory, handled, indexed, _, resolved, rest⟩⟩
      · exact (sound.translated wellFormed flags translated).1
      · exact sound
      · have notCached := (sound.translated wellFormed flags missed).2 rfl
        have readOnly := sound.ordered.readOnly_of_missed flags notCached
        exact inductionHypothesis (sound.resolved indexed readOnly resolved)
          (wellFormed.resolved wellFormed.current_lt resolved) rest

private theorem allocated {rw : Nat} {event : Event} (sound : WriteSound before) (wellFormed : WellFormed before)
    (ran : Framework.allocPage Heap.zeroed true vpn rw before = .ok (event, after)) : WriteSound after := by
  unfold Framework.allocPage at ran
  split at ran
  · cases ran
  · split at ran
    · cases ran
    · rename_i translated
      cases ran
      exact (sound.translated wellFormed (Or.inl rfl) translated).1
    · rename_i missed translated
      have notCached := (sound.translated wellFormed (Or.inl rfl) translated).2 rfl
      have untagged := sound.ordered.untagged_of_read notCached
      have untouched := (translate_cases translated).2 rfl
      subst missed
      have mapped : forall {result : Option Nat}, Vm.allocPage Heap.zeroed vpn rw before = .ok (result, after) ->
          WriteSound after := by
        intro result allocated
        rcases allocPage_cases allocated with ⟨_, rfl, _⟩ | ⟨pfn, directory, _, indexed, mapped⟩
        · exact sound
        · refine sound.of_pages mapped.tlb (fun i tagged => absurd tagged (untagged i)) fun page other => ?_
          rw [State.page_update indexed mapped.entry, mapped.same.current, if_neg fun both => other both.2]
      split at ran
      · cases ran
      · rename_i allocated
        cases ran
        exact mapped allocated
      · rename_i allocated
        cases ran
        exact mapped allocated

/-- What is left for a page after its first entry has been cleared comes later. -/
private theorem invalidateTlb_later (ordered : Ordered before) {i : Nat}
    (tagged : (invalidateTlb vpn before).tags i = some vpn) :
    Exists fun earlier => earlier < i ∧ before.tags earlier = some vpn := by
  have left := (invalidateTlb_left tagged).1
  have there := State.tags_eq_some.mp left
  unfold invalidateTlb at tagged
  split at tagged
  case h_1 missing =>
    have skipped := List.find?_range_eq_none.mp missing i (ordered.index_lt left)
    simp [there.1, there.2] at skipped
  case h_2 cleared matched =>
    have search := List.find?_range_eq_some.mp matched
    have first : before.tags cleared = some vpn := by simpa [State.tags_eq_some] using search.1
    have here : i ≠ cleared := State.ne_of_cleared tagged
    refine ⟨cleared, Nat.lt_of_le_of_ne (Nat.le_of_not_lt fun less => ?_) (Ne.symm here), first⟩
    have skipped := search.2.2 i less
    simp [there.1, there.2] at skipped

private theorem freed {event : Event} (sound : WriteSound before) (wellFormed : WellFormed before)
    (ran : Framework.freePage true vpn before = .ok (event, after)) : WriteSound after := by
  unfold Framework.freePage at ran
  split at ran
  · cases ran
  · rename_i translated
    cases ran
    exact (sound.translated wellFormed (Or.inl rfl) translated).1
  · rename_i pfn _ looked translated
    have stillSound := (sound.translated wellFormed (Or.inl rfl) translated).1
    split at ran
    · cases ran
    · rename_i freed
      cases ran
      rcases freePage_cases freed with ⟨directory, indexed, ⟨rfl, _⟩ | unmapped⟩
      · exact stillSound
      · have tlb := freePage_tlb indexed unmapped.valid freed
        have tags : after.tags = (invalidateTlb vpn looked).tags := by
          funext i
          rw [State.tags, State.tags, tlb]
        apply stillSound.of_kept
        · intro i page tagged
          rw [tags] at tagged
          have left := invalidateTlb_left tagged
          exact ⟨left.1, (congrFun tlb i).trans left.2⟩
        · intro i page tagged writing
          rw [tags] at tagged
          have other : page ≠ vpn := by
            rintro rfl
            rcases invalidateTlb_later stillSound.ordered tagged with ⟨earlier, ahead, earlierTagged⟩
            have left := (invalidateTlb_left tagged).1
            rw [stillSound.ordered.later i earlier page ahead earlierTagged left] at writing
            cases writing
          rw [State.page_update indexed unmapped.entry, unmapped.same.current, if_neg fun both => other both.2]

/-- Every command keeps what the TLB says about writes sound. -/
theorem command {input : Command} {event : Event} (sound : WriteSound before) (wellFormed : WellFormed before)
    (ran : Vm.command Heap.zeroed true input before = .ok (event, after)) : WriteSound after := by
  have accessed : forall {rw page : Nat}, Flags rw ->
      reportAccess (accessMemory Heap.zeroed true page rw before) = .ok (event, after) -> WriteSound after := by
    intro rw page flags reported
    rcases reportAccess_cases reported with ⟨access, _, ran⟩
    exact sound.accessed wellFormed flags (accessMemory_cases ran)
  cases input with
  | switch pid =>
      have tlb := switchProcess_tlb wellFormed.current_lt wellFormed.counts (switch_event ran).2
      exact WriteSound.of_empty (flushTlb_tags sound.ordered.inside tlb)
  | free vpn => exact sound.freed wellFormed ran
  | read vpn => exact accessed (Or.inl rfl) ran
  | write vpn => exact accessed (Or.inr (Or.inl rfl)) ran
  | alloc vpn rw => exact sound.allocated wellFormed ran
  | access vpn rw => exact accessed (flags_makeRwflag rw) ran

end WriteSound

private theorem Reached.writeSound {state : State} (reached : Reached true state) : WriteSound state := by
  rcases reached with ⟨commands, _, events, ran⟩
  have within : (simulator Heap.zeroed true).Within (fun _ _ => True) commands initSystem :=
    Machine.within_of_forall_mem _ (fun _ _ _ => trivial) initSystem
  have initially : WellFormed initSystem ∧ WriteSound initSystem :=
    ⟨initSystem_wellFormed, WriteSound.of_empty fun _ => rfl⟩
  exact ((simulator Heap.zeroed true).run_invariant (fun state => WellFormed state ∧ WriteSound state)
    (fun _ _ _ _ _ holds stepped => ⟨holds.1.command stepped, holds.2.command holds.1 stepped⟩)
    within initially ran).2

/-- What is asked for with writing is more than reading. -/
private theorem accessRead_lt_of_writes {rw : Nat} (writes : rw &&& accessWrite ≠ 0) : accessRead < rw := by
  by_contra less
  change ¬ 1 < rw at less
  have few : rw = 0 ∨ rw = 1 := by omega
  rcases few with rfl | rfl
  · exact writes rfl
  · exact writes rfl

namespace WriteSound

variable {state : State}

theorem entry (sound : WriteSound state) {i : Nat} (valid : (state.tlb i).valid = true)
    (writing : accessRead < (state.tlb i).rw) :
    (state.page state.current (state.tlb i).vpn).valid = true ∧
      (state.page state.current (state.tlb i).vpn).canWrite = true ∧
        (state.page state.current (state.tlb i).vpn).pfn = (state.tlb i).pfn := by
  have tagged : state.tags i = some (state.tlb i).vpn := State.tags_eq_some.mpr ⟨valid, rfl⟩
  have three : (state.tlb i).rw = 3 := by
    rcases sound.ordered.flags i _ tagged with one | three
    · rw [one] at writing
      exact absurd writing (Nat.lt_irrefl _)
    · exact three
  rcases sound.writable i _ tagged three with ⟨mapped, both, frame⟩
  refine ⟨mapped, ?_, frame⟩
  rw [Pte.canWrite, both]
  rfl

private theorem lookup (sound : WriteSound state) {vpn rw pfn : Nat} (writing : accessRead < rw)
    (found : lookupTlb vpn rw state = some pfn) :
    (state.page state.current vpn).valid = true ∧ (state.page state.current vpn).canWrite = true ∧
      (state.page state.current vpn).pfn = pfn := by
  rcases Option.map_eq_some_iff.mp found with ⟨i, matched, rfl⟩
  have search := (List.find?_range_eq_some.mp matched).1
  simp only [Bool.and_eq_true, beq_iff_eq, decide_eq_true_eq] at search
  rcases search with ⟨⟨valid, rfl⟩, allowed⟩
  exact sound.entry valid (Nat.lt_of_lt_of_le writing allowed)

end WriteSound

/-- An entry of the TLB that allows writing agrees with the page table of the running
process, and so does what a lookup for writing finds.  A switch leaves no entry. -/
theorem tlb_sound_for_writes {state : State} (reached : Reached true state) :
    (forall i, (state.tlb i).valid = true -> (state.tlb i).rw &&& accessWrite ≠ 0 ->
      (state.page state.current (state.tlb i).vpn).valid = true ∧
        (state.page state.current (state.tlb i).vpn).canWrite = true ∧
          (state.page state.current (state.tlb i).vpn).pfn = (state.tlb i).pfn) ∧
    (forall vpn rw pfn, rw &&& accessWrite ≠ 0 -> lookupTlb vpn rw state = some pfn ->
      (state.page state.current vpn).valid = true ∧ (state.page state.current vpn).canWrite = true ∧
        (state.page state.current vpn).pfn = pfn) ∧
    (forall pid after, switchProcess Heap.zeroed pid state = .ok after ->
      forall i, i < nrTlbEntries -> (after.tlb i).valid = false) := by
  have sound := reached.writeSound
  have wellFormed := reached.wellFormed
  refine ⟨fun i valid writes => ?_, fun vpn rw pfn writes found => ?_, fun pid after switched i _ => ?_⟩
  · exact sound.entry valid (accessRead_lt_of_writes writes)
  · exact sound.lookup (accessRead_lt_of_writes writes) found
  · have tlb := switchProcess_tlb wellFormed.current_lt wellFormed.counts switched
    exact State.tags_eq_none.mp (flushTlb_tags sound.ordered.inside tlb i)

/-- After the copy of a page that was shared, the TLB supplies the copy to writes. -/
theorem tlb_sound_for_writes_copied : Exists fun state => Reached true state ∧
    lookupTlb 1 accessWrite state = some 2 ∧ (state.page state.current 1).pfn = 2 ∧
      (state.page state.current 1).canWrite = true := by
  have ran : Exists fun events => Exists fun state => (simulator Heap.zeroed true).run
      [.alloc 0 ['r'], .alloc 1 ['r', 'w'], .switch 1, .read 0, .read 1, .free 0, .write 1] initSystem =
        .ok (events, state) ∧ lookupTlb 1 accessWrite state = some 2 := ⟨_, _, rfl, rfl⟩
  rcases ran with ⟨events, state, ran, found⟩
  have reached : Reached true state := ⟨_, by decide, events, ran⟩
  have sound := (tlb_sound_for_writes reached).2.1 1 accessWrite 2 (by decide) found
  exact ⟨state, reached, found, sound.2.2, sound.2.1⟩

end Vm
end OsPa
