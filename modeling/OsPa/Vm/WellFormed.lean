import Mathlib.Logic.Relation
import OsPa.Vm.Fork

namespace OsPa
namespace Vm

open Library Framework

/-!
# Well-formed states

Two steps lead from the effects of single functions to whole runs.  First, the
framework's functions are described by the effects they have: an allocation
maps a slot that was invalid, a deallocation clears one, and an access takes a
few page faults of the current process.  Second, an invariant that each effect
keeps is kept by every command, hence by every run.  `WellFormed` is the
invariant that needs no assumption on the commands: pointers point at existing
processes, the running process is in no list, and each valid entry carries
permissions that the allocator can have given it.
-/

/-! ## Events and their effects -/

/-- A string that asks for writing gives both flags, any other gives reading. -/
theorem makeRwflag_eq (rw : List Char) :
    makeRwflag rw = if 'w' ∈ rw ∨ 'W' ∈ rw then 3 else 1 := by
  have general : forall (characters : List Char) (flag : Nat), flag = 1 ∨ flag = 3 ->
      characters.foldl (fun rwflag character =>
        let readable :=
          if character = 'r' ∨ character = 'R' then rwflag ||| accessRead else rwflag
        if character = 'w' ∨ character = 'W' then readable ||| accessWrite else readable) flag =
      if flag = 3 ∨ 'w' ∈ characters ∨ 'W' ∈ characters then 3 else 1 := by
    intro characters
    induction characters with
    | nil =>
        intro flag either
        rcases either with rfl | rfl <;> rfl
    | cons character rest inductionHypothesis =>
        intro flag either
        rw [List.foldl_cons]
        by_cases writes : character = 'w' ∨ character = 'W'
        · have both : 'w' ∈ character :: rest ∨ 'W' ∈ character :: rest := by
            rcases writes with rfl | rfl
            · exact Or.inl List.mem_cons_self
            · exact Or.inr List.mem_cons_self
          rw [inductionHypothesis _ (Or.inr ?_), if_pos (Or.inl ?_), if_pos (Or.inr both)]
          all_goals
            rcases either with rfl | rfl <;> simp only [if_pos writes] <;> split <;> rfl
        · have same : ('w' ∈ character :: rest ∨ 'W' ∈ character :: rest) ↔ ('w' ∈ rest ∨ 'W' ∈ rest) := by
            have notLower : 'w' ≠ character := fun equal => writes (Or.inl equal.symm)
            have notUpper : 'W' ≠ character := fun equal => writes (Or.inr equal.symm)
            simp only [List.mem_cons, notLower, notUpper, false_or]
          have kept : (if character = 'r' ∨ character = 'R' then flag ||| accessRead else flag) = flag := by
            rcases either with rfl | rfl <;> split <;> rfl
          simp only [if_neg writes, kept, same]
          exact inductionHypothesis flag either
  have result := general rw accessRead (Or.inl rfl)
  rw [makeRwflag, result]
  simp [accessRead]

theorem makeRwflag_cases (rw : List Char) : makeRwflag rw = 1 ∨ makeRwflag rw = 3 := by
  rw [makeRwflag_eq]
  split
  · exact Or.inr rfl
  · exact Or.inl rfl

/-- The assertion of an access holds. -/
theorem makeRwflag_legal (rw : List Char) :
    (makeRwflag rw &&& accessRead) ^^^ (makeRwflag rw &&& accessWrite) ≠ 0 := by
  rcases makeRwflag_cases rw with one | three
  · rw [one]
    decide
  · rw [three]
    decide

/-- The assertion of an allocation holds. -/
theorem makeRwflag_readable (rw : List Char) : ¬ (makeRwflag rw = 0 ∨ makeRwflag rw &&& accessRead = 0) := by
  rcases makeRwflag_cases rw with one | three
  · rw [one]
    decide
  · rw [three]
    decide

/-- A failed translation of the running process has found the entry invalid,
or not writable for a write. -/
theorem translate_none {printTlbResult : Bool} {rw vpn : Nat} {state after : State}
    {directory : Fin nrPdesPerPage} (indexed : pdeIndex vpn = some directory)
    (running : state.ptbr = some state.current)
    (ran : Framework.translate printTlbResult rw vpn state = .ok (none, after)) :
    (state.entry (state.current, directory, pteIndex vpn)).valid = false ∨
      (rw &&& accessWrite ≠ 0 ∧
        (state.entry (state.current, directory, pteIndex vpn)).canWrite = false) := by
  unfold Framework.translate at ran
  rw [running, indexed] at ran
  split at ran
  · cases ran
  · dsimp only at ran
    split at ran
    · rename_i absent
      rw [State.entry_of_absent absent]
      exact Or.inl rfl
    · rename_i pte stored
      rw [State.entry_of_pte stored]
      split at ran
      · rename_i invalid
        exact Or.inl invalid
      · split at ran
        · rename_i denied
          exact Or.inr ⟨denied.1, by simp [Pte.canWrite, denied.2]⟩
        · cases ran

/-- An allocation fails and changes at most the TLB, or it maps the page, whose
entry was not valid. -/
theorem allocPage_event {printTlbResult : Bool} {vpn rw : Nat} {state after : State} {event : Event}
    (running : state.ptbr = some state.current)
    (ran : Framework.allocPage Heap.zeroed printTlbResult vpn rw state = .ok (event, after)) :
    (event.stops = true ∧ Retagged state after) ∨
      Exists fun pfn => Exists fun directory => event = .allocated pfn ∧ pdeIndex vpn = some directory ∧
        (state.entry (state.current, directory, pteIndex vpn)).valid = false ∧
        Mapped (state.current, directory, pteIndex vpn) rw pfn state after := by
  unfold Framework.allocPage at ran
  split at ran
  · cases ran
  · split at ran
    · cases ran
    · rename_i translated
      cases ran
      exact Or.inl ⟨rfl, (translate_cases translated).1⟩
    · rename_i missed translated
      have untouched := (translate_cases translated).2 rfl
      subst missed
      split at ran
      · cases ran
      · rename_i full allocated
        cases ran
        rcases allocPage_cases allocated with ⟨_, rfl, _⟩ | ⟨pfn, directory, impossible, _⟩
        · exact Or.inl ⟨rfl, Retagged.refl _⟩
        · cases impossible
      · rename_i pfn _ allocated
        cases ran
        rcases allocPage_cases allocated with ⟨impossible, _⟩ | ⟨_, directory, same, indexed, mapped⟩
        · cases impossible
        · cases same
          refine Or.inr ⟨pfn, directory, rfl, indexed, ?_, mapped⟩
          rcases translate_none indexed running translated with invalid | ⟨written, _⟩
          · exact invalid
          · exact absurd (by decide) written

/-- A deallocation changes at most the TLB, or it unmaps the page. -/
theorem freePage_event {printTlbResult : Bool} {vpn : Nat} {state after : State} {event : Event}
    (ran : Framework.freePage printTlbResult vpn state = .ok (event, after)) :
    event.stops = false ∧ (Retagged state after ∨
      Exists fun directory => pdeIndex vpn = some directory ∧
        Unmapped (state.current, directory, pteIndex vpn) state after) := by
  unfold Framework.freePage at ran
  split at ran
  · cases ran
  · rename_i translated
    cases ran
    exact ⟨rfl, Or.inl (translate_cases translated).1⟩
  · rename_i translated
    have retagged := (translate_cases translated).1
    split at ran
    · cases ran
    · rename_i freed
      cases ran
      refine ⟨rfl, ?_⟩
      rcases freePage_cases freed with ⟨directory, indexed, ⟨rfl, _⟩ | unmapped⟩
      · exact Or.inl retagged
      · refine Or.inr ⟨directory, indexed, ?_⟩
        rw [retagged.same.current] at unmapped
        exact ⟨retagged.same.trans unmapped.same, retagged.entry ▸ unmapped.valid,
          by rw [unmapped.entry, retagged.entry],
          by rw [unmapped.mapcounts, retagged.entry, retagged.mapcounts]⟩

/-- One step of an access to a page: the TLB is touched, or the current
process takes a page fault that is resolved. -/
inductive AccessStep (vpn : Nat) (before after : State) : Prop
  | retagged (retagged : Retagged before after)
  | resolved (directory : Fin nrPdesPerPage) (indexed : pdeIndex vpn = some directory)
      (resolved : Resolved (before.current, directory, pteIndex vpn) before after)

private theorem accessLoop_steps {printTlbResult : Bool} {vpn rw retries : Nat} {state after : State}
    {access : Access}
    (ran : accessLoop Heap.zeroed printTlbResult vpn rw retries state = .ok (access, after)) :
    Relation.ReflTransGen (AccessStep vpn) state after := by
  induction retries generalizing state with
  | zero =>
      cases ran
      exact .refl
  | succ retries inductionHypothesis =>
      rcases accessLoop_cases ran with
        ⟨_, _, _, translated⟩ | ⟨_, ⟨_, rfl⟩ | ⟨directory, handled, indexed, _, resolved, rest⟩⟩
      · exact .single (.retagged (translate_cases translated).1)
      · exact .refl
      · exact .head (.resolved directory indexed resolved) (inductionHypothesis rest)

/-- What is reported of an access is what it comes to. -/
theorem reportAccess_cases {result : Except Fault (Access × State)} {event : Event} {after : State}
    (reported : reportAccess result = .ok (event, after)) :
    Exists fun access => event = .accessed access ∧ result = .ok (access, after) := by
  cases result with
  | error fault => cases reported
  | ok pair =>
      cases reported
      exact ⟨pair.1, rfl, rfl⟩

theorem access_event {printTlbResult : Bool} {vpn rw : Nat} {state after : State} {event : Event}
    (ran : reportAccess (accessMemory Heap.zeroed printTlbResult vpn rw state) = .ok (event, after)) :
    Relation.ReflTransGen (AccessStep vpn) state after := by
  rcases reportAccess_cases ran with ⟨access, _, accessed⟩
  exact accessLoop_steps (accessMemory_cases accessed)

theorem switch_event {heap : Heap} {printTlbResult : Bool} {pid : Nat} {state after : State} {event : Event}
    (ran : Vm.command heap printTlbResult (.switch pid) state = .ok (event, after)) :
    event = .switched ∧ switchProcess heap pid state = .ok after := by
  rw [Vm.command] at ran
  split at ran
  · cases ran
  · rename_i switched
    cases ran
    exact ⟨rfl, switched⟩

/-! ## The invariant -/

structure WellFormed (state : State) : Prop where
  current_lt : state.current < state.nrProcesses
  ptbr : state.ptbr = some state.current
  listed_lt : forall process, process ∈ state.processes -> process < state.nrProcesses
  nodup : state.processes.Nodup
  detached : state.current ∉ state.processes
  counts : forall frame, state.mapcounts frame < Word.size
  permitted : forall slot, slot.1 < state.nrProcesses -> (state.entry slot).valid = true ->
    (state.entry slot).Permitted

theorem initSystem_wellFormed : WellFormed initSystem where
  current_lt := Nat.zero_lt_one
  ptbr := rfl
  listed_lt := fun _ member => absurd member List.not_mem_nil
  nodup := List.nodup_nil
  detached := List.not_mem_nil
  counts := fun _ => Nat.succ_pos _
  permitted := fun _ _ valid => by cases valid

namespace WellFormed

variable {before after : State}

/-- The flags of a valid entry of the running process. -/
theorem page_rw {state : State} (wellFormed : WellFormed state) {vpn : Nat}
    (valid : (state.page state.current vpn).valid = true) :
    (state.page state.current vpn).rw = 1 ∨ (state.page state.current vpn).rw = 3 := by
  cases indexed : pdeIndex vpn with
  | none =>
      rw [State.page, indexed] at valid
      cases valid
  | some directory =>
      rw [State.page_of_indexed indexed] at valid ⊢
      exact (wellFormed.permitted _ wellFormed.current_lt valid).rw_cases

/-- What is left to show of an effect on the entries and map counts alone. -/
theorem of_same (wellFormed : WellFormed before) (same : SameProcesses before after)
    (counts : forall frame, after.mapcounts frame < Word.size)
    (permitted : forall slot, slot.1 < before.nrProcesses -> (after.entry slot).valid = true ->
      (after.entry slot).Permitted) : WellFormed after where
  current_lt := by rw [same.current, same.nrProcesses]; exact wellFormed.current_lt
  ptbr := by rw [same.ptbr, same.current]; exact wellFormed.ptbr
  listed_lt := by rw [same.processes, same.nrProcesses]; exact wellFormed.listed_lt
  nodup := by rw [same.processes]; exact wellFormed.nodup
  detached := by rw [same.current, same.processes]; exact wellFormed.detached
  counts := counts
  permitted := by rw [same.nrProcesses]; exact permitted

theorem retagged (wellFormed : WellFormed before) (retagged : Retagged before after) :
    WellFormed after :=
  wellFormed.of_same retagged.same (by rw [retagged.mapcounts]; exact wellFormed.counts)
    (by rw [retagged.entry]; exact wellFormed.permitted)

private theorem permitted_update (wellFormed : WellFormed before) {slot : Slot} {stored : Pte}
    (allowed : stored.valid = true -> stored.Permitted) :
    forall other, other.1 < before.nrProcesses -> (Function.update before.entry slot stored other).valid = true ->
      (Function.update before.entry slot stored other).Permitted := by
  intro other exists_
  by_cases same : other = slot
  · subst other
    rw [Function.update_self]
    exact allowed
  · rw [Function.update_of_ne same]
    exact wellFormed.permitted other exists_

private theorem counts_update (wellFormed : WellFormed before) {pfn count : Nat} (bounded : count < Word.size) :
    forall frame, Function.update before.mapcounts pfn count frame < Word.size := by
  intro frame
  by_cases same : frame = pfn
  · subst frame
    rwa [Function.update_self]
  · rw [Function.update_of_ne same]
    exact wellFormed.counts frame

theorem mapped (wellFormed : WellFormed before) {slot : Slot} {rw pfn : Nat} (flags : rw = 1 ∨ rw = 3)
    (mapped : Mapped slot rw pfn before after) : WellFormed after := by
  refine wellFormed.of_same mapped.same ?_ ?_
  · rw [mapped.mapcounts]
    exact wellFormed.counts_update (by decide)
  · rw [mapped.entry]
    refine wellFormed.permitted_update fun _ => ⟨mapped.inside, ?_⟩
    rcases flags with rfl | rfl
    · exact Or.inl ⟨rfl, rfl⟩
    · exact Or.inr ⟨rfl, Or.inr rfl⟩

theorem unmapped (wellFormed : WellFormed before) {slot : Slot} (unmapped : Unmapped slot before after) :
    WellFormed after := by
  refine wellFormed.of_same unmapped.same ?_ ?_
  · rw [unmapped.mapcounts]
    exact wellFormed.counts_update (Word.pred_lt (wellFormed.counts _))
  · rw [unmapped.entry]
    exact wellFormed.permitted_update nofun

theorem resolved (wellFormed : WellFormed before) {slot : Slot} (exists_ : slot.1 < before.nrProcesses)
    (resolved : Resolved slot before after) : WellFormed after := by
  have writable : Protected before slot -> (before.entry slot).priv = 3 := by
    intro isProtected
    rcases (wellFormed.permitted slot exists_ isProtected.valid).2 with ⟨readOnly, _⟩ | ⟨both, _⟩
    · exact absurd readOnly isProtected.allocated
    · exact both
  cases resolved with
  | upgraded same isProtected single entry mapcounts tlb =>
      refine wellFormed.of_same same (by rw [mapcounts]; exact wellFormed.counts) ?_
      rw [entry]
      exact wellFormed.permitted_update fun _ =>
        ⟨isProtected.inside, Or.inr ⟨writable isProtected, Or.inr rfl⟩⟩
  | copied pfn same isProtected shared inside free entry mapcounts tlb =>
      refine wellFormed.of_same same ?_ ?_
      · rw [mapcounts]
        intro frame
        by_cases fresh : frame = pfn
        · rw [fresh, Function.update_self]
          decide
        · rw [Function.update_of_ne fresh]
          exact wellFormed.counts_update (Word.pred_lt (wellFormed.counts _)) frame
      · rw [entry]
        exact wellFormed.permitted_update fun _ => ⟨inside, Or.inr ⟨rfl, Or.inr rfl⟩⟩
  | leaked same isProtected shared full process mapcounts tlb =>
      refine wellFormed.of_same same ?_ ?_
      · rw [mapcounts]
        exact wellFormed.counts_update (Word.pred_lt (wellFormed.counts _))
      · have entries : after.entry = before.entry := by
          funext other
          simp only [State.entry, State.pte, process]
        rw [entries]
        exact wellFormed.permitted

theorem selected (wellFormed : WellFormed before) {pid change : Nat}
    (selected : Selected pid change before after) : WellFormed after := by
  have listed : change ∈ before.processes := selected.mem
  have entries : after.entry = before.entry := by
    funext other
    simp only [State.entry, State.pte, selected.process]
  refine ⟨?_, ?_, ?_, ?_, ?_, ?_, ?_⟩
  · rw [selected.current, selected.nrProcesses]
    exact wellFormed.listed_lt change listed
  · rw [selected.ptbr, selected.current]
  · rw [selected.processes, selected.nrProcesses]
    exact fun process member => wellFormed.listed_lt process (List.mem_of_mem_erase member)
  · rw [selected.processes]
    exact wellFormed.nodup.erase change
  · rw [selected.current, selected.processes]
    exact wellFormed.nodup.not_mem_erase
  · rw [selected.mapcounts]
    exact wellFormed.counts
  · rw [selected.nrProcesses, entries]
    exact wellFormed.permitted

theorem forked (wellFormed : WellFormed before) {pid : Nat} (forked : Forked pid before after) :
    WellFormed after := by
  have protectedPermitted : forall entry : Pte, entry.valid = true -> entry.Permitted ->
      entry.writeProtected.Permitted := by
    intro entry valid permitted
    refine ⟨by simpa using permitted.1, ?_⟩
    by_cases writable : entry.rw = 3
    · rcases permitted.2 with ⟨_, readOnly⟩ | ⟨both, _⟩
      · omega
      · exact Or.inr ⟨by simpa using both, Or.inl (by simp [Pte.writeProtected, valid, writable])⟩
    · have same : entry.writeProtected = entry := if_neg fun both => writable both.2
      rw [same]
      exact permitted.2
  refine ⟨?_, ?_, ?_, ?_, ?_, ?_, ?_⟩
  · rw [forked.current, forked.nrProcesses]
    exact Nat.lt_succ_self _
  · rw [forked.ptbr, forked.current]
  · rw [forked.processes, forked.nrProcesses]
    intro process member
    rcases List.mem_append.mp member with old | outgoing
    · exact Nat.lt_succ_of_lt (wellFormed.listed_lt process old)
    · rw [List.mem_singleton.mp outgoing]
      exact Nat.lt_succ_of_lt wellFormed.current_lt
  · rw [forked.processes]
    exact List.nodup_append.mpr ⟨wellFormed.nodup, List.nodup_singleton _, fun process member other outgoing =>
      by rw [List.mem_singleton.mp outgoing]; exact fun same => wellFormed.detached (same ▸ member)⟩
  · rw [forked.current, forked.processes]
    intro member
    rcases List.mem_append.mp member with old | outgoing
    · exact Nat.lt_irrefl _ (wellFormed.listed_lt _ old)
    · exact Nat.ne_of_gt wellFormed.current_lt (List.mem_singleton.mp outgoing)
  · intro frame
    rw [forked.mapcounts]
    exact Nat.mod_lt _ (by decide)
  · intro slot exists_
    rw [forked.entry]
    split
    · cases valid : (before.entry (before.current, slot.2)).valid with
      | true =>
          rw [Pte.inherited_of_valid valid]
          exact fun _ => protectedPermitted _ valid (wellFormed.permitted _ wellFormed.current_lt valid)
      | false =>
          rw [Pte.inherited_of_invalid valid]
          exact nofun
    · rename_i old
      have oldExists : slot.1 < before.nrProcesses := by
        rw [forked.nrProcesses] at exists_
        omega
      split
      · intro valid
        rw [Pte.writeProtected_valid] at valid
        exact protectedPermitted _ valid (wellFormed.permitted slot oldExists valid)
      · exact wellFormed.permitted slot oldExists

private theorem accessStep (wellFormed : WellFormed before) {vpn : Nat} (step : AccessStep vpn before after) :
    WellFormed after := by
  cases step with
  | retagged retagged => exact wellFormed.retagged retagged
  | resolved directory indexed resolved => exact wellFormed.resolved wellFormed.current_lt resolved

private theorem accessSteps (wellFormed : WellFormed before) {vpn : Nat}
    (steps : Relation.ReflTransGen (AccessStep vpn) before after) : WellFormed after := by
  induction steps with
  | refl => exact wellFormed
  | tail _ step inductionHypothesis => exact inductionHypothesis.accessStep step

/-- Every command keeps the invariant. -/
theorem command (wellFormed : WellFormed before) {printTlbResult : Bool} {input : Command} {event : Event}
    (ran : Vm.command Heap.zeroed printTlbResult input before = .ok (event, after)) : WellFormed after := by
  cases input with
  | switch pid =>
      rcases switchProcess_cases wellFormed.current_lt wellFormed.counts (switch_event ran).2 with
        ⟨change, selected⟩ | ⟨_, forked⟩
      · exact wellFormed.selected selected
      · exact wellFormed.forked forked
  | free vpn =>
      rcases (freePage_event ran).2 with retagged | ⟨directory, _, unmapped⟩
      · exact wellFormed.retagged retagged
      · exact wellFormed.unmapped unmapped
  | read vpn => exact wellFormed.accessSteps (access_event ran)
  | write vpn => exact wellFormed.accessSteps (access_event ran)
  | alloc vpn rw =>
      rcases allocPage_event wellFormed.ptbr ran with ⟨_, retagged⟩ | ⟨pfn, directory, _, _, _, mapped⟩
      · exact wellFormed.retagged retagged
      · exact wellFormed.mapped (makeRwflag_cases rw) mapped
  | access vpn rw => exact wellFormed.accessSteps (access_event ran)

end WellFormed

/-- A switch in a well-formed state does not fault. -/
theorem WellFormed.switchProcess_ok {state : State} (wellFormed : WellFormed state) (pid : Nat) :
    Exists fun after => switchProcess Heap.zeroed pid state = .ok after := by
  have frames : forall place, (state.entry (state.current, place)).valid = true ->
      (state.entry (state.current, place)).pfn < nrPageframes :=
    fun place valid => (wellFormed.permitted (state.current, place) wellFormed.current_lt valid).1
  unfold switchProcess
  split
  · exact ⟨_, rfl⟩
  · rcases forkProcess_ok wellFormed.current_lt wellFormed.counts frames pid with ⟨forked, ran⟩
    rw [ran]
    exact ⟨_, rfl⟩

/-- Every run keeps the invariant. -/
theorem run_wellFormed {printTlbResult : Bool} {commands : List Command} {events : List Event}
    {start final : State} (wellFormed : WellFormed start)
    (ran : (simulator Heap.zeroed printTlbResult).run commands start = .ok (events, final)) :
    WellFormed final := by
  have within : (simulator Heap.zeroed printTlbResult).Within (fun _ _ => True) commands start :=
    Machine.within_of_forall_mem _ (fun _ _ _ => trivial) start
  exact (simulator Heap.zeroed printTlbResult).run_invariant WellFormed
    (fun _ _ _ _ _ holds stepped => holds.command stepped) within wellFormed ran

theorem Reached.wellFormed {printTlbResult : Bool} {state : State} (reached : Reached printTlbResult state) :
    WellFormed state := by
  rcases reached with ⟨commands, _, events, ran⟩
  exact run_wellFormed initSystem_wellFormed ran

end Vm
end OsPa
