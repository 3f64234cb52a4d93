import OsPa.Vm.Coherence

namespace OsPa
namespace Vm

open Library Framework

/-!
# What does not depend on the heap

`malloc` may return blocks with any contents.  Whatever they are, a command other
than a switch keeps the processes as they are and directories in place, and a page
that the TLB has an entry for has an entry in the page table that was stored there
by the memory manager.
-/

/-- An entry that the memory manager has made valid or cleared. -/
def Pte.Written (entry : Pte) : Prop := entry.valid = true ∨ entry = Pte.zero

/-- The same processes, and each entry stays in its place as it is or is stored to. -/
structure Kept (before after : State) : Prop where
  same : SameProcesses before after
  stored : forall slot pte, before.pte slot = some pte ->
    Exists fun now => after.pte slot = some now ∧ (now = pte ∨ now.Written)

namespace Kept

theorem refl (state : State) : Kept state state :=
  ⟨SameProcesses.refl state, fun _ pte found => ⟨pte, found, .inl rfl⟩⟩

theorem trans {first second third : State} (left : Kept first second) (right : Kept second third) :
    Kept first third := by
  refine ⟨left.same.trans right.same, fun slot pte found => ?_⟩
  rcases left.stored slot pte found with ⟨middle, foundMiddle, same⟩
  rcases right.stored slot middle foundMiddle with ⟨now, foundNow, same'⟩
  refine ⟨now, foundNow, ?_⟩
  rcases same' with rfl | written
  · exact same
  · exact .inr written

theorem of_process {before after : State} (same : SameProcesses before after)
    (process : after.process = before.process) : Kept before after := by
  refine ⟨same, fun slot pte found => ⟨pte, ?_, .inl rfl⟩⟩
  rw [State.pte, process]
  exact found

theorem setPte (state : State) (slot : Slot) {stored : Pte} (written : stored.Written) :
    Kept state (state.setPte slot stored) := by
  refine ⟨SameProcesses.setPte .., fun other pte found => ?_⟩
  cases present : state.pte slot with
  | none =>
      rw [State.setPte_of_absent present]
      exact ⟨pte, found, .inl rfl⟩
  | some _ =>
      rw [State.pte_setPte (by rw [present]; nofun)]
      split
      · exact ⟨stored, rfl, .inr written⟩
      · exact ⟨pte, found, .inl rfl⟩

/-- A new directory takes the place of none. -/
theorem ensureDirectory (heap : Heap) (index : Fin nrPdesPerPage) (state : State) :
    Kept state (ensureDirectory heap index state) ∧
      (Vm.ensureDirectory heap index state).tlb = state.tlb := by
  unfold Vm.ensureDirectory
  split
  · exact ⟨refl state, rfl⟩
  · rename_i absent
    refine ⟨⟨?_, fun slot pte found => ⟨pte, ?_, .inl rfl⟩⟩, rfl⟩
    · exact ⟨rfl, rfl, rfl, rfl, (SameProcesses.setDirectory state state.current index _).pid⟩
    · change (state.setDirectory state.current index (heap.directory state.nrMallocs)).pte slot = some pte
      rw [State.pte_setDirectory, if_neg]
      · exact found
      · rintro ⟨owner, place⟩
        rw [State.pte, owner, place, absent] at found
        cases found

end Kept

/-! ## The memory manager -/

section Manager

variable {heap : Heap} {vpn rw : Nat} {state after : State}

theorem allocPage_kept {result : Option Nat} (ran : Vm.allocPage heap vpn rw state = .ok (result, after)) :
    Kept state after ∧ after.tlb = state.tlb := by
  unfold Vm.allocPage at ran
  split at ran
  · cases ran
    exact ⟨Kept.refl state, rfl⟩
  · rename_i pfn _
    dsimp only at ran
    split at ran
    · cases ran
    · rename_i directory _
      cases ran
      have ensured := Kept.ensureDirectory heap directory (state.incrMapcount pfn)
      have counted : Kept state (state.incrMapcount pfn) :=
        Kept.of_process (SameProcesses.incrMapcount state pfn) rfl
      refine ⟨counted.trans (ensured.1.trans (Kept.setPte _ _ (.inl rfl))), ?_⟩
      rw [setPte_tlb, ensured.2]
      rfl

theorem freePage_kept (ran : Vm.freePage vpn state = .ok after) :
    Kept state after ∧ forall i page, after.tags i = some page ->
      state.tags i = some page ∧ after.tlb i = state.tlb i := by
  unfold Vm.freePage at ran
  split at ran
  · cases ran
  · rename_i directory _
    split at ran
    · cases ran
      exact ⟨Kept.refl _, fun _ _ tagged => ⟨tagged, rfl⟩⟩
    · rename_i pte _
      split at ran
      · dsimp only at ran
        split at ran
        · cases ran
          let cleared := state.setPte (state.current, directory, pteIndex vpn) Pte.zero
          have retagged := invalidateTlb_retagged vpn (cleared.decrMapcount pte.pfn)
          have dropped : Kept cleared (cleared.decrMapcount pte.pfn) :=
            Kept.of_process (SameProcesses.decrMapcount cleared pte.pfn) rfl
          have stored : Kept state cleared := Kept.setPte state _ (.inr rfl)
          refine ⟨stored.trans (dropped.trans (Kept.of_process retagged.same retagged.process)), ?_⟩
          intro i page tagged
          have left := invalidateTlb_left tagged
          rw [State.tags] at left ⊢
          have tlb : (cleared.decrMapcount pte.pfn).tlb = state.tlb := setPte_tlb ..
          rw [tlb] at left
          exact left
        · cases ran
      · cases ran
        exact ⟨Kept.refl _, fun _ _ tagged => ⟨tagged, rfl⟩⟩

/-- The handler comes to an end only where there is an entry for the page. -/
theorem handlePageFault_found {result : Bool × State} (ran : handlePageFault heap vpn rw state = .ok result) :
    Exists fun directory => Exists fun pte => pdeIndex vpn = some directory ∧
      state.pte (state.current, directory, pteIndex vpn) = some pte := by
  unfold handlePageFault at ran
  split at ran
  · cases ran
  · rename_i directory indexed
    split at ran
    · cases ran
    · rename_i pte found
      exact ⟨directory, pte, indexed, found⟩

theorem handlePageFault_kept {result : Bool} (ran : handlePageFault heap vpn rw state = .ok (result, after)) :
    Kept state after ∧ after.tlb = state.tlb := by
  unfold handlePageFault at ran
  split at ran
  · cases ran
  · split at ran
    · cases ran
    · rename_i pte _
      split at ran
      · cases ran
        exact ⟨Kept.refl _, rfl⟩
      · rename_i valid
        split at ran
        · split at ran
          · split at ran
            · split at ran
              · cases ran
              · rename_i allocated
                cases ran
                have copied := allocPage_kept allocated
                have dropped : Kept state (state.decrMapcount pte.pfn) :=
                  Kept.of_process (SameProcesses.decrMapcount state pte.pfn) rfl
                exact ⟨dropped.trans copied.1, copied.2⟩
            · cases ran
              exact ⟨Kept.setPte _ _ (.inl (by simpa using valid)), setPte_tlb ..⟩
          · cases ran
        · cases ran
          exact ⟨Kept.refl _, rfl⟩

end Manager

/-! ## Entries of the TLB -/

/-- The page table that is walked is that of the running process, and what the TLB
has an entry for is stored there. -/
structure Seated (state : State) : Prop where
  running : state.ptbr = some state.current
  inside : forall i vpn, state.tags i = some vpn -> i < nrPageframes
  stored : forall i vpn, state.tags i = some vpn -> Exists fun directory => Exists fun pte =>
    pdeIndex vpn = some directory ∧ state.pte (state.current, directory, pteIndex vpn) = some pte ∧ pte.Written

theorem initSystem_seated : Seated initSystem where
  running := rfl
  inside := fun _ _ tagged => by cases tagged
  stored := fun _ _ tagged => by cases tagged

/-- The TLB does not supply a page whose entry nothing has been stored to. -/
theorem Seated.lookupTlb_none {state : State} (seated : Seated state) {vpn : Nat}
    (unstored : forall directory pte, pdeIndex vpn = some directory ->
      state.pte (state.current, directory, pteIndex vpn) = some pte -> ¬ pte.Written) (rw : Nat) :
    lookupTlb vpn rw state = none := by
  cases found : lookupTlb vpn rw state with
  | none => rfl
  | some pfn =>
      rcases Option.map_eq_some_iff.mp found with ⟨i, matched, _⟩
      have search := (List.find?_range_eq_some.mp matched).1
      simp only [Bool.and_eq_true, beq_iff_eq, decide_eq_true_eq] at search
      have tagged : state.tags i = some vpn := State.tags_eq_some.mpr search.1
      rcases seated.stored i vpn tagged with ⟨directory, pte, indexed, stored, written⟩
      exact absurd written (unstored directory pte indexed stored)

/-- A step of the running process. -/
structure Steady (before after : State) : Prop where
  same : SameProcesses before after
  seated : Seated before -> Seated after

namespace Steady

variable {before after : State}

theorem refl (state : State) : Steady state state := ⟨SameProcesses.refl state, id⟩

theorem trans {first second third : State} (left : Steady first second) (right : Steady second third) :
    Steady first third :=
  ⟨left.same.trans right.same, fun seated => right.seated (left.seated seated)⟩

theorem of_kept (kept : Kept before after)
    (tags : forall i vpn, after.tags i = some vpn -> before.tags i = some vpn) : Steady before after := by
  refine ⟨kept.same, fun seated => ⟨?_, ?_, ?_⟩⟩
  · rw [kept.same.ptbr, kept.same.current]
    exact seated.running
  · exact fun i vpn tagged => seated.inside i vpn (tags i vpn tagged)
  · intro i vpn tagged
    rcases seated.stored i vpn (tags i vpn tagged) with ⟨directory, pte, indexed, found, written⟩
    rcases kept.stored _ pte found with ⟨now, foundNow, same⟩
    rw [kept.same.current]
    refine ⟨directory, now, indexed, foundNow, ?_⟩
    rcases same with rfl | written'
    · exact written
    · exact written'

theorem of_tlb (kept : Kept before after) (tlb : after.tlb = before.tlb) : Steady before after := by
  refine of_kept kept fun i vpn tagged => ?_
  rw [State.tags, tlb] at tagged
  exact tagged

private theorem insertTlb {vpn : Nat} {pte : Pte} {state : State} {directory : Fin nrPdesPerPage}
    (indexed : pdeIndex vpn = some directory)
    (found : state.pte (state.current, directory, pteIndex vpn) = some pte) (valid : pte.valid = true) (rw pfn : Nat) :
    Steady state (insertTlb vpn rw pfn state) := by
  have retagged := insertTlb_retagged vpn rw pfn state
  refine ⟨retagged.same, fun seated => ?_⟩
  rcases insertTlb_cases vpn rw pfn state with ⟨same, _⟩ | ⟨i, inserted⟩
  · rw [same]
    exact seated
  · refine ⟨?_, fun index page tagged => ?_, fun index page tagged => ?_⟩
    · rw [retagged.same.ptbr, retagged.same.current]
      exact seated.running
    · by_cases here : index = i
      · rw [here]
        exact inserted.inside
      · rw [(inserted.elsewhere here).1] at tagged
        exact seated.inside index page tagged
    · rw [retagged.pte, retagged.same.current]
      by_cases here : index = i
      · rw [here] at tagged
        cases inserted.stored.1.symm.trans tagged
        exact ⟨directory, pte, indexed, found, .inl valid⟩
      · rw [(inserted.elsewhere here).1] at tagged
        exact seated.stored index page tagged

end Steady

section Commands

variable {heap : Heap} {printTlbResult : Bool} {vpn rw : Nat} {state after : State}

theorem translate_steady {result : Option (Nat × Bool)} (seated : Seated state)
    (ran : Framework.translate printTlbResult rw vpn state = .ok (result, after)) : Steady state after := by
  unfold Framework.translate at ran
  rw [seated.running] at ran
  split at ran
  · cases ran
    exact Steady.refl _
  · dsimp only at ran
    split at ran
    · cases ran
    · rename_i directory indexed
      split at ran
      · cases ran
        exact Steady.refl _
      · rename_i pte found
        split at ran
        · cases ran
          exact Steady.refl _
        · rename_i valid
          split at ran
          · cases ran
            exact Steady.refl _
          · cases ran
            split
            · exact Steady.insertTlb indexed found (by simpa using valid) _ _
            · exact Steady.refl _

theorem accessLoop_steady {retries : Nat} {access : Access} (seated : Seated state)
    (ran : accessLoop heap printTlbResult vpn rw retries state = .ok (access, after)) : Steady state after := by
  induction retries generalizing state with
  | zero =>
      cases ran
      exact Steady.refl _
  | succ retries inductionHypothesis =>
      rw [accessLoop] at ran
      split at ran
      · cases ran
      · rename_i translated
        cases ran
        exact translate_steady seated translated
      · rename_i missed translated
        have first := translate_steady seated translated
        split at ran
        · cases ran
        · rename_i handled fault
          have kept := handlePageFault_kept fault
          have second := Steady.of_tlb kept.1 kept.2
          have rest := inductionHypothesis (second.seated (first.seated seated)) ran
          exact first.trans (second.trans rest)
        · rename_i refused fault
          cases ran
          have kept := handlePageFault_kept fault
          exact first.trans (Steady.of_tlb kept.1 kept.2)

theorem freePage_steady {event : Event} (seated : Seated state)
    (ran : Framework.freePage printTlbResult vpn state = .ok (event, after)) : Steady state after := by
  unfold Framework.freePage at ran
  split at ran
  · cases ran
  · rename_i translated
    cases ran
    exact translate_steady seated translated
  · rename_i translated
    have first := translate_steady seated translated
    split at ran
    · cases ran
    · rename_i freed
      cases ran
      have kept := freePage_kept freed
      exact first.trans (Steady.of_kept kept.1 fun i page tagged => (kept.2 i page tagged).1)

theorem allocPage_steady {event : Event} (seated : Seated state)
    (ran : Framework.allocPage heap printTlbResult vpn rw state = .ok (event, after)) : Steady state after := by
  unfold Framework.allocPage at ran
  split at ran
  · cases ran
  · split at ran
    · cases ran
    · rename_i translated
      cases ran
      exact translate_steady seated translated
    · rename_i missed translated
      have mapped : forall {result : Option Nat}, Vm.allocPage heap vpn rw missed = .ok (result, after) ->
          Steady state after := by
        intro result allocated
        have kept := allocPage_kept allocated
        exact (translate_steady seated translated).trans (Steady.of_tlb kept.1 kept.2)
      split at ran
      · cases ran
      · rename_i allocated
        cases ran
        exact mapped allocated
      · rename_i allocated
        cases ran
        exact mapped allocated

/-- The commands other than a switch. -/
theorem command_steady {input : Command} {event : Event} (seated : Seated state)
    (ran : command heap printTlbResult input state = .ok (event, after))
    (stays : forall pid, input ≠ .switch pid) : Steady state after := by
  have accessed : forall {page flags : Nat},
      reportAccess (accessMemory heap printTlbResult page flags state) = .ok (event, after) -> Steady state after := by
    intro page flags reported
    rcases reportAccess_cases reported with ⟨access, _, ran⟩
    exact accessLoop_steady seated (accessMemory_cases ran)
  cases input with
  | switch pid => exact absurd rfl (stays pid)
  | free vpn => exact freePage_steady seated ran
  | read vpn => exact accessed ran
  | write vpn => exact accessed ran
  | alloc vpn rw => exact allocPage_steady seated ran
  | access vpn rw => exact accessed ran

end Commands

/-! ## Switches -/

/-- A new process runs, and the one that ran before is listed. -/
structure Spawned (pid : Nat) (before after : State) : Prop where
  nrProcesses : after.nrProcesses = before.nrProcesses + 1
  current : after.current = before.nrProcesses
  processes : after.processes = before.processes ++ [before.current]
  ptbr : after.ptbr = some before.nrProcesses
  pid : forall process, (after.process process).pid =
    if process = before.nrProcesses then pid else (before.process process).pid

section Switch

variable {heap : Heap} {pid : Nat} {before after : State}

theorem forkPte_same {change : Nat} {i : Fin nrPdesPerPage} {j : Fin nrPtesPerPage}
    (ran : forkPte change i before j = .ok after) : SameProcesses before after ∧ after.tlb = before.tlb := by
  unfold forkPte at ran
  split at ran
  · cases ran
  · rename_i pte _
    split at ran
    · split at ran
      · let shared := (before.setPte (change, i, j) pte).incrMapcount pte.pfn
        have copied : SameProcesses before shared :=
          (SameProcesses.setPte before (change, i, j) pte).trans (SameProcesses.incrMapcount _ pte.pfn)
        have tlb : shared.tlb = before.tlb := setPte_tlb ..
        dsimp only at ran
        split at ran
        · cases ran
          refine ⟨copied.trans ((SameProcesses.setPte shared ..).trans (SameProcesses.setPte ..)), ?_⟩
          rw [setPte_tlb, setPte_tlb]
          exact tlb
        · cases ran
          refine ⟨copied.trans (SameProcesses.setPte shared ..), ?_⟩
          rw [setPte_tlb]
          exact tlb
      · cases ran
    · cases ran
      exact ⟨SameProcesses.refl _, rfl⟩

private theorem forkDirectory_same {change : Nat} {i : Fin nrPdesPerPage}
    (ran : forkDirectory heap change before i = .ok after) :
    SameProcesses before after ∧ after.tlb = before.tlb := by
  unfold forkDirectory at ran
  dsimp only at ran
  have requested : SameProcesses before { before with nrMallocs := before.nrMallocs + 1 } :=
    ⟨rfl, rfl, rfl, rfl, fun _ => rfl⟩
  split at ran
  · cases ran
    exact ⟨requested, rfl⟩
  · have stored := requested.trans (SameProcesses.setDirectory _ change i (heap.directory before.nrMallocs))
    exact foldlM_invariant (fun _ state => SameProcesses before state ∧ state.tlb = before.tlb)
      (fun _ _ _ _ _ holds body =>
        ⟨holds.1.trans (forkPte_same body).1, (forkPte_same body).2.trans holds.2⟩)
      (List.nodup_finRange _) ⟨stored, rfl⟩ ran

private theorem forkProcess_spawned (ran : forkProcess heap pid before = .ok after) :
    Spawned pid before after ∧ after.tlb = before.tlb := by
  unfold forkProcess at ran
  dsimp only at ran
  split at ran
  · cases ran
  · rename_i copied looped
    cases ran
    let created : State :=
      { before with
        process := Function.update before.process before.nrProcesses
          { heap.process before.nrMallocs with pid := pid }
        nrProcesses := before.nrProcesses + 1
        nrMallocs := before.nrMallocs + 1 }
    have looped := foldlM_invariant (fun _ state => SameProcesses created state ∧ state.tlb = before.tlb)
      (fun _ _ _ _ _ holds body =>
        ⟨holds.1.trans (forkDirectory_same body).1, (forkDirectory_same body).2.trans holds.2⟩)
      (List.nodup_finRange _) ⟨SameProcesses.refl created, rfl⟩ looped
    refine ⟨⟨looped.1.nrProcesses, rfl, ?_, rfl, fun process => ?_⟩, looped.2⟩
    · change copied.processes ++ [copied.current] = _
      rw [looped.1.processes, looped.1.current]
    · rw [looped.1.pid]
      by_cases child : process = before.nrProcesses
      · rw [if_pos child, child]
        simp only [created, Function.update_self]
      · rw [if_neg child]
        simp only [created, Function.update_of_ne child]

/-- A switch takes a listed process or forks one, and empties the TLB. -/
theorem switchProcess_any (ran : switchProcess heap pid before = .ok after) :
    ((Exists fun change => Selected pid change before after) ∨ (¬ before.Listed pid ∧ Spawned pid before after)) ∧
      after.tlb = (flushTlb before).tlb := by
  unfold switchProcess at ran
  split at ran
  · rename_i change found
    cases ran
    exact ⟨.inl ⟨change, found, rfl, rfl, rfl, rfl, rfl, rfl⟩, rfl⟩
  · rename_i missing
    split at ran
    · cases ran
    · rename_i forked looped
      cases ran
      have spawned := forkProcess_spawned looped
      refine ⟨.inr ⟨?_, ?_⟩, ?_⟩
      · rintro ⟨listed, member, same⟩
        exact List.find?_eq_none.mp missing listed member (beq_iff_eq.mpr same)
      · exact ⟨spawned.1.nrProcesses, spawned.1.current, spawned.1.processes, spawned.1.ptbr, spawned.1.pid⟩
      · simp only [flushTlb, spawned.2]

private theorem Seated.switched (seated : Seated before) (ran : switchProcess heap pid before = .ok after) :
    Seated after := by
  rcases switchProcess_any ran with ⟨switched, tlb⟩
  have empty := flushTlb_tags seated.inside tlb
  refine ⟨?_, fun i vpn tagged => ?_, fun i vpn tagged => ?_⟩
  · rcases switched with ⟨change, selected⟩ | ⟨_, spawned⟩
    · rw [selected.ptbr, selected.current]
    · rw [spawned.ptbr, spawned.current]
  · rw [empty i] at tagged
    cases tagged
  · rw [empty i] at tagged
    cases tagged

end Switch

theorem Seated.command {heap : Heap} {printTlbResult : Bool} {input : Command} {event : Event} {before after : State}
    (seated : Seated before) (ran : Vm.command heap printTlbResult input before = .ok (event, after)) :
    Seated after := by
  by_cases switches : Exists fun pid => input = .switch pid
  · rcases switches with ⟨pid, rfl⟩
    exact seated.switched (switch_event ran).2
  · exact (command_steady seated ran fun pid same => switches ⟨pid, same⟩).seated seated

/-- A state that a run leads to, whatever `malloc` has returned. -/
def ReachedWith (heap : Heap) (printTlbResult : Bool) (state : State) : Prop :=
  Exists fun commands => Exists fun events =>
    (simulator heap printTlbResult).run commands initSystem = .ok (events, state)

theorem ReachedWith.seated {heap : Heap} {printTlbResult : Bool} {state : State}
    (reached : ReachedWith heap printTlbResult state) : Seated state := by
  rcases reached with ⟨commands, events, ran⟩
  have within : (simulator heap printTlbResult).Within (fun _ _ => True) commands initSystem :=
    Machine.within_of_forall_mem _ (fun _ _ _ => trivial) initSystem
  exact (simulator heap printTlbResult).run_invariant Seated
    (fun _ _ _ _ _ holds stepped => holds.command stepped) within initSystem_seated ran

end Vm
end OsPa
