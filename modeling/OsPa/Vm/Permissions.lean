import OsPa.Vm.WellFormed

namespace OsPa
namespace Vm

open Library Framework

/-!
# Private copies of the permissions

What a process may do with a page is meant not to depend on sharing.  In the
reference below each process has a map of its own from pages to permissions;
fork copies the map, and no access changes it.  The simulator keeps the same
information in the pair of `rw` and `private` of an entry: the first is taken
back by fork and returned by the fault handler, the second stays as allocated.
-/

/-- What a process may do with a page. -/
inductive Permission
  | none
  | r
  | rw
  deriving DecidableEq

/-- The permission that an allocation asks for.  Reading is always included. -/
def requested (rw : List Char) : Permission :=
  if 'w' ∈ rw ∨ 'W' ∈ rw then .rw else .r

/-- The system with private maps of permissions. -/
structure Reference where
  permission : Nat -> Nat -> Permission
  nrProcesses : Nat
  current : Nat
  processes : List Nat
  pid : Nat -> Nat

namespace Reference

def init : Reference where
  permission := fun _ _ => .none
  nrProcesses := 1
  current := 0
  processes := []
  pid := fun _ => 0

/-- Set the permission of the running process for a page. -/
def set (reference : Reference) (vpn : Nat) (permission : Permission) : Reference :=
  { reference with
    permission := Function.update reference.permission reference.current
      (Function.update (reference.permission reference.current) vpn permission) }

/-- Select the first listed process with the pid, or copy the running one. -/
def switch (reference : Reference) (pid : Nat) : Reference :=
  match reference.processes.find? fun listed => reference.pid listed == pid with
  | some change => { reference with current := change, processes := reference.processes.erase change }
  | none =>
      { permission := Function.update reference.permission reference.nrProcesses
          (reference.permission reference.current)
        nrProcesses := reference.nrProcesses + 1
        current := reference.nrProcesses
        processes := reference.processes ++ [reference.current]
        pid := Function.update reference.pid reference.nrProcesses pid }

/-- One command.  Of the event only the success of an allocation matters. -/
def advance (input : Command) (event : Event) (reference : Reference) : Reference :=
  match input, event with
  | .switch pid, _ => reference.switch pid
  | .free vpn, _ => reference.set vpn .none
  | .alloc vpn rw, .allocated _ => reference.set vpn (requested rw)
  | _, _ => reference

end Reference

/-! ## The permission that an entry stands for -/

/-- The permission of an entry does not look at `rw`, which fork and the fault
handler change. -/
def Pte.permission (entry : Pte) : Permission :=
  if entry.valid = false then .none else if entry.priv = accessRead then .r else .rw

theorem Pte.permission_of_invalid {entry : Pte} (invalid : entry.valid = false) :
    entry.permission = .none :=
  if_pos invalid

theorem Pte.permission_of_valid {entry : Pte} (valid : entry.valid = true) :
    entry.permission = if entry.priv = accessRead then .r else .rw :=
  if_neg (by rw [valid]; nofun)

private theorem Pte.permission_eq_none {entry : Pte} : entry.permission = .none ↔ entry.valid = false := by
  constructor
  · intro none
    cases valid : entry.valid with
    | false => rfl
    | true =>
        rw [Pte.permission_of_valid valid] at none
        split at none <;> cases none
  · exact Pte.permission_of_invalid

theorem Pte.permission_eq_rw {entry : Pte} :
    entry.permission = .rw ↔ entry.valid = true ∧ entry.priv ≠ accessRead := by
  cases valid : entry.valid with
  | false => simp [Pte.permission_of_invalid valid]
  | true =>
      rw [Pte.permission_of_valid valid]
      split <;> simp [*]

private theorem Pte.permission_congr {entry other : Pte} (valid : entry.valid = other.valid)
    (priv : entry.priv = other.priv) : entry.permission = other.permission := by
  rw [Pte.permission, Pte.permission, valid, priv]

@[simp] theorem Pte.writeProtected_permission (entry : Pte) :
    entry.writeProtected.permission = entry.permission :=
  Pte.permission_congr (Pte.writeProtected_valid entry) (Pte.writeProtected_priv entry)

@[simp] theorem Pte.inherited_permission (entry : Pte) : entry.inherited.permission = entry.permission := by
  cases valid : entry.valid with
  | true => rw [Pte.inherited_of_valid valid, Pte.writeProtected_permission]
  | false => rw [Pte.inherited_of_invalid valid, Pte.permission_of_invalid valid]; rfl

private theorem permission_allocated (rw : List Char) (pfn : Nat) :
    (⟨true, makeRwflag rw, pfn, makeRwflag rw⟩ : Pte).permission = requested rw := by
  rw [Pte.permission_of_valid rfl, makeRwflag_eq, requested]
  split <;> rfl

/-! ## The effects on permissions -/

/-- Resolving a fault changes the permission of no entry. -/
private theorem Resolved.permission {slot : Slot} {before after : State} (resolved : Resolved slot before after)
    (other : Slot) : (after.entry other).permission = (before.entry other).permission := by
  have updated : forall stored : Pte, Protected before slot -> stored.permission = .rw ->
      (Function.update before.entry slot stored other).permission = (before.entry other).permission := by
    intro stored isProtected writable
    by_cases same : other = slot
    · rw [same, Function.update_self, writable]
      exact (Pte.permission_eq_rw.mpr ⟨isProtected.valid, isProtected.allocated⟩).symm
    · rw [Function.update_of_ne same]
  cases resolved with
  | upgraded same isProtected single entry =>
      rw [entry]
      exact updated _ isProtected (Pte.permission_eq_rw.mpr ⟨isProtected.valid, isProtected.allocated⟩)
  | copied pfn same isProtected shared inside free entry =>
      rw [entry]
      exact updated _ isProtected rfl
  | leaked same isProtected shared full process =>
      simp only [State.entry, State.pte, process]

private theorem accessSteps_same {vpn : Nat} {before after : State}
    (steps : Relation.ReflTransGen (AccessStep vpn) before after) : SameProcesses before after := by
  induction steps with
  | refl => exact SameProcesses.refl _
  | tail _ step inductionHypothesis =>
      apply inductionHypothesis.trans
      cases step with
      | retagged retagged => exact retagged.same
      | resolved directory indexed resolved => exact resolved.same

private theorem accessSteps_permission {vpn : Nat} {before after : State}
    (steps : Relation.ReflTransGen (AccessStep vpn) before after) (slot : Slot) :
    (after.entry slot).permission = (before.entry slot).permission := by
  induction steps with
  | refl => rfl
  | tail _ step inductionHypothesis =>
      rw [← inductionHypothesis]
      cases step with
      | retagged retagged => rw [retagged.entry]
      | resolved directory indexed resolved => exact resolved.permission slot

/-- Without the TLB, a translation that does not fault is of a page in the
outer table. -/
private theorem translate_indexed {rw vpn : Nat} {state : State} {result : Option (Nat × Bool) × State}
    (running : state.ptbr = some state.current) (ran : Framework.translate false rw vpn state = .ok result) :
    Exists fun directory => pdeIndex vpn = some directory := by
  cases indexed : pdeIndex vpn with
  | none =>
      unfold Framework.translate at ran
      rw [running, indexed] at ran
      cases ran
  | some directory => exact ⟨directory, rfl⟩

/-- Without the TLB, a deallocation of an entry that is not valid changes
nothing. -/
theorem freePage_uncached {vpn : Nat} {state after : State} {event : Event}
    (running : state.ptbr = some state.current)
    (ran : Framework.freePage false vpn state = .ok (event, after)) :
    Exists fun directory => pdeIndex vpn = some directory ∧
      (Unmapped (state.current, directory, pteIndex vpn) state after ∨
        (after = state ∧ (state.entry (state.current, directory, pteIndex vpn)).valid = false)) := by
  have indexed_ : Exists fun directory => pdeIndex vpn = some directory := by
    unfold Framework.freePage at ran
    split at ran
    · cases ran
    · rename_i translated
      exact translate_indexed running translated
    · rename_i translated
      exact translate_indexed running translated
  rcases indexed_ with ⟨directory, indexed⟩
  refine ⟨directory, indexed, ?_⟩
  have readable : ¬ (accessRead &&& accessWrite ≠ 0 ∧
      (state.entry (state.current, directory, pteIndex vpn)).rw &&& accessWrite = 0) :=
    fun denied => denied.1 rfl
  unfold Framework.freePage at ran
  rw [translate_uncached indexed running] at ran
  cases valid : (state.entry (state.current, directory, pteIndex vpn)).valid with
  | false =>
      rw [valid, if_neg fun both => by cases both.1] at ran
      cases ran
      exact Or.inr ⟨rfl, rfl⟩
  | true =>
      rw [valid, if_pos ⟨rfl, readable⟩] at ran
      dsimp only at ran
      split at ran
      · cases ran
      · rename_i freed
        cases ran
        rcases freePage_cases freed with ⟨other, sameIndex, ⟨_, invalid⟩ | unmapped⟩
        · rw [indexed] at sameIndex
          cases sameIndex
          rw [invalid] at valid
          cases valid
        · rw [indexed] at sameIndex
          cases sameIndex
          exact Or.inl unmapped

/-! ## The refinement -/

/-- The simulator's entries stand for the permissions of the reference. -/
structure Refines (state : State) (reference : Reference) : Prop where
  wellFormed : WellFormed state
  nrProcesses : reference.nrProcesses = state.nrProcesses
  current : reference.current = state.current
  processes : reference.processes = state.processes
  pid : forall process, reference.pid process = (state.process process).pid
  permission : forall process vpn, process < state.nrProcesses ->
    (state.page process vpn).permission = reference.permission process vpn

private theorem initSystem_refines : Refines initSystem Reference.init where
  wellFormed := initSystem_wellFormed
  nrProcesses := rfl
  current := rfl
  processes := rfl
  pid := fun _ => rfl
  permission := by
    intro process vpn _
    rw [State.page]
    split <;> rfl

namespace Refines

variable {before after : State} {reference : Reference}

/-- Effects that leave permissions alone do not show in the reference. -/
theorem unchanged (refines : Refines before reference) (wellFormed : WellFormed after)
    (same : SameProcesses before after)
    (permission : forall slot, (after.entry slot).permission = (before.entry slot).permission) :
    Refines after reference where
  wellFormed := wellFormed
  nrProcesses := refines.nrProcesses.trans same.nrProcesses.symm
  current := refines.current.trans same.current.symm
  processes := refines.processes.trans same.processes.symm
  pid := fun process => (refines.pid process).trans (same.pid process).symm
  permission := by
    intro process vpn exists_
    rw [same.nrProcesses] at exists_
    rw [← refines.permission process vpn exists_]
    exact State.page_forall (fun now was => now.permission = was.permission) rfl
      (fun place => permission (process, place)) vpn

/-- A store to an entry of the running process sets the permission it stands for. -/
theorem stored (refines : Refines before reference) (wellFormed : WellFormed after)
    (same : SameProcesses before after) {vpn : Nat} {directory : Fin nrPdesPerPage} {stored : Pte}
    (indexed : pdeIndex vpn = some directory)
    (entry : after.entry = Function.update before.entry (before.current, directory, pteIndex vpn) stored) :
    Refines after (reference.set vpn stored.permission) where
  wellFormed := wellFormed
  nrProcesses := refines.nrProcesses.trans same.nrProcesses.symm
  current := refines.current.trans same.current.symm
  processes := refines.processes.trans same.processes.symm
  pid := fun process => (refines.pid process).trans (same.pid process).symm
  permission := by
    intro process other exists_
    rw [same.nrProcesses] at exists_
    rw [State.page_update indexed entry]
    simp only [Reference.set, refines.current]
    by_cases own : process = before.current
    · subst process
      rw [Function.update_self]
      by_cases here : other = vpn
      · subst other
        rw [if_pos ⟨rfl, rfl⟩, Function.update_self]
      · rw [if_neg fun both => here both.2, Function.update_of_ne here, refines.permission _ _ exists_]
    · rw [if_neg fun both => own both.1, Function.update_of_ne own, refines.permission _ _ exists_]

private theorem switched (refines : Refines before reference) {pid : Nat}
    (ran : switchProcess Heap.zeroed pid before = .ok after) : Refines after (reference.switch pid) := by
  have wellFormed := refines.wellFormed
  have samePids : (fun listed => reference.pid listed == pid) =
      fun listed => (before.process listed).pid == pid := by
    funext listed
    rw [refines.pid]
  unfold Reference.switch
  rw [refines.processes, samePids]
  rcases switchProcess_cases wellFormed.current_lt wellFormed.counts ran with
    ⟨change, selected⟩ | ⟨unlisted, forked⟩
  · have entries : after.entry = before.entry := by
      funext slot
      simp only [State.entry, State.pte, selected.process]
    rw [selected.found]
    dsimp only
    refine ⟨wellFormed.selected selected, ?_, selected.current.symm, ?_, ?_, ?_⟩
    · exact refines.nrProcesses.trans selected.nrProcesses.symm
    · exact selected.processes.symm
    · exact fun process => (refines.pid process).trans (by rw [selected.process])
    · rw [selected.nrProcesses]
      intro process vpn exists_
      rw [← refines.permission process vpn exists_, State.page, State.page, entries]
  · have missing : (before.processes.find? fun listed => (before.process listed).pid == pid) = none := by
      rw [List.find?_eq_none]
      exact fun listed member => by simpa using unlisted listed member
    rw [missing, refines.nrProcesses, refines.current]
    dsimp only
    refine ⟨wellFormed.forked forked, forked.nrProcesses.symm, forked.current.symm,
      forked.processes.symm, fun process => ?_, ?_⟩
    · rw [forked.pid]
      by_cases child : process = before.nrProcesses
      · rw [if_pos child, child]
        exact Function.update_self ..
      · rw [if_neg child, ← refines.pid]
        exact Function.update_of_ne child ..
    · intro process vpn exists_
      rw [forked.nrProcesses] at exists_
      dsimp only
      by_cases child : process = before.nrProcesses
      · subst process
        rw [Function.update_self, ← refines.permission _ vpn wellFormed.current_lt]
        exact State.page_forall (fun now was => now.permission = was.permission) rfl
          (fun place => by rw [forked.entry_child, Pte.inherited_permission]) vpn
      · have old : process < before.nrProcesses := by omega
        rw [Function.update_of_ne child, ← refines.permission process vpn old]
        refine State.page_forall (fun now was => now.permission = was.permission) rfl
          (fun place => ?_) vpn
        rw [forked.entry, if_neg child]
        split
        · rw [Pte.writeProtected_permission]
        · rfl

/-- Every command without the TLB is a step of the reference. -/
theorem command (refines : Refines before reference) {input : Command} {event : Event}
    (ran : Vm.command Heap.zeroed false input before = .ok (event, after)) :
    Refines after (reference.advance input event) := by
  have wellFormed := refines.wellFormed.command ran
  have accessed : forall {vpn rw : Nat},
      reportAccess (accessMemory Heap.zeroed false vpn rw before) = .ok (event, after) ->
        Refines after reference := by
    intro vpn rw reported
    have steps := access_event reported
    exact refines.unchanged wellFormed (accessSteps_same steps) (accessSteps_permission steps)
  cases input with
  | switch pid =>
      rcases switch_event ran with ⟨rfl, switched⟩
      exact refines.switched switched
  | free vpn =>
      rcases freePage_uncached refines.wellFormed.ptbr ran with
        ⟨directory, indexed, unmapped | ⟨rfl, invalid⟩⟩
      · exact refines.stored wellFormed unmapped.same indexed unmapped.entry
      · have entry : after.entry = Function.update after.entry (after.current, directory, pteIndex vpn)
            (after.entry (after.current, directory, pteIndex vpn)) := (Function.update_eq_self _ _).symm
        have cleared := refines.stored wellFormed (SameProcesses.refl _) indexed entry
        rw [Pte.permission_of_invalid invalid] at cleared
        exact cleared
  | read vpn => exact accessed ran
  | write vpn => exact accessed ran
  | alloc vpn rw =>
      rcases allocPage_event refines.wellFormed.ptbr ran with
        ⟨stops, retagged⟩ | ⟨pfn, directory, rfl, indexed, _, mapped⟩
      · have failed : reference.advance (.alloc vpn rw) event = reference := by
          cases event <;> first | rfl | cases stops
        rw [failed]
        exact refines.unchanged wellFormed retagged.same fun slot => by rw [retagged.entry]
      · have allocated := refines.stored wellFormed mapped.same indexed mapped.entry
        rw [permission_allocated] at allocated
        exact allocated
  | access vpn rw => exact accessed ran

end Refines

/-! ## What accesses see of the permissions -/

/-- The state with another process running. -/
def State.running (process : Nat) (state : State) : State :=
  { state with current := process, ptbr := some process }

/-- Without the TLB, the access is translated. -/
def Translates (vpn rw : Nat) (state : State) : Prop :=
  Exists fun pfn => Exists fun fromTlb => Exists fun after =>
    accessMemory Heap.zeroed false vpn rw state = .ok (.translated pfn fromTlb, after)

section Access

variable {vpn : Nat} {state : State} {directory : Fin nrPdesPerPage}

/-- A translation that succeeds at once. -/
theorem translates_of_entry (rw retries : Nat) (indexed : pdeIndex vpn = some directory)
    (running : state.ptbr = some state.current)
    (valid : (state.entry (state.current, directory, pteIndex vpn)).valid = true)
    (allowed : ¬ (rw &&& accessWrite ≠ 0 ∧
      (state.entry (state.current, directory, pteIndex vpn)).rw &&& accessWrite = 0)) :
    accessLoop Heap.zeroed false vpn rw (retries + 1) state =
      .ok (.translated (state.entry (state.current, directory, pteIndex vpn)).pfn false, state) := by
  unfold accessLoop
  rw [translate_uncached indexed running, if_pos ⟨valid, allowed⟩]

/-- A translation is of an entry that allows the access, or the access has
been to a write-protected entry. -/
theorem entry_of_translates {rw : Nat} (indexed : pdeIndex vpn = some directory)
    (running : state.ptbr = some state.current) (translates : Translates vpn rw state) :
    ((state.entry (state.current, directory, pteIndex vpn)).valid = true ∧
      ¬ (rw &&& accessWrite ≠ 0 ∧
        (state.entry (state.current, directory, pteIndex vpn)).rw &&& accessWrite = 0)) ∨
      (accessRead < rw ∧ Protected state (state.current, directory, pteIndex vpn)) := by
  rcases translates with ⟨pfn, fromTlb, after, ran⟩
  rcases accessLoop_cases (accessMemory_cases ran) with
    ⟨_, _, _, translated⟩ | ⟨_, ⟨impossible, _⟩ | ⟨other, _, sameIndex, written, resolved, _⟩⟩
  · apply Or.inl
    by_contra denied
    rw [translate_uncached indexed running, if_neg denied] at translated
    cases translated
  · cases impossible
  · rw [indexed] at sameIndex
    cases sameIndex
    exact Or.inr ⟨written, resolved.isProtected⟩

theorem read_translates_iff (state : State) (indexed : pdeIndex vpn = some directory)
    (running : state.ptbr = some state.current) :
    Translates vpn accessRead state ↔
      (state.entry (state.current, directory, pteIndex vpn)).valid = true := by
  constructor
  · intro translates
    rcases entry_of_translates indexed running translates with allowed | ⟨written, _⟩
    · exact allowed.1
    · exact absurd written (Nat.lt_irrefl _)
  · intro valid
    have looped : accessMemory Heap.zeroed false vpn accessRead state =
        accessLoop Heap.zeroed false vpn accessRead 2 state :=
      accessMemory_eq (by decide) (inRange_of_indexed indexed) ..
    have served := translates_of_entry accessRead 1 indexed running valid fun denied => denied.1 rfl
    exact ⟨_, _, _, looped.trans served⟩

private theorem permission_of_write_translates (state : State) (indexed : pdeIndex vpn = some directory)
    (running : state.ptbr = some state.current)
    (permitted : (state.entry (state.current, directory, pteIndex vpn)).valid = true ->
      (state.entry (state.current, directory, pteIndex vpn)).Permitted)
    (translates : Translates vpn accessWrite state) :
    (state.entry (state.current, directory, pteIndex vpn)).permission = .rw := by
  apply Pte.permission_eq_rw.mpr
  rcases entry_of_translates indexed running translates with ⟨valid, allowed⟩ | ⟨_, isProtected⟩
  · refine ⟨valid, fun readOnly => allowed ⟨by decide, ?_⟩⟩
    rcases (permitted valid).2 with ⟨_, flags⟩ | ⟨both, _⟩
    · rw [flags]
      rfl
    · rw [both] at readOnly
      cases readOnly
  · exact ⟨isProtected.valid, isProtected.allocated⟩

/-- A write is translated where it is permitted and a copy would find a frame. -/
private theorem write_translates (state : State) (indexed : pdeIndex vpn = some directory)
    (running : state.ptbr = some state.current)
    (permitted : (state.entry (state.current, directory, pteIndex vpn)).valid = true ->
      (state.entry (state.current, directory, pteIndex vpn)).Permitted)
    (permission : (state.entry (state.current, directory, pteIndex vpn)).permission = .rw)
    (findsFrame : 1 < state.mapcounts (state.entry (state.current, directory, pteIndex vpn)).pfn ->
      Exists fun frame => frame < nrPageframes ∧ state.mapcounts frame = 0) :
    Translates vpn accessWrite state := by
  rcases Pte.permission_eq_rw.mp permission with ⟨valid, allocated⟩
  have looped : accessMemory Heap.zeroed false vpn accessWrite state =
      accessLoop Heap.zeroed false vpn accessWrite 2 state :=
    accessMemory_eq (by decide) (inRange_of_indexed indexed) ..
  rcases (permitted valid).rw_cases with readOnly | both
  · have isProtected : Protected state (state.current, directory, pteIndex vpn) :=
      ⟨valid, allocated, readOnly, (permitted valid).1⟩
    have written : accessRead < accessWrite := by decide
    rcases handlePageFault_ok indexed written isProtected Heap.zeroed with ⟨after, handled⟩
    have resolved : Resolved (state.current, directory, pteIndex vpn) state after := by
      rcases handlePageFault_cases handled with ⟨other, sameIndex, ⟨impossible, _⟩ | ⟨_, _, resolved⟩⟩
      · cases impossible
      · rw [indexed] at sameIndex
        cases sameIndex
        exact resolved
    have writable := resolved.writable findsFrame
    have sameCurrent := resolved.same.current
    rw [← sameCurrent] at writable
    -- The first round faults, the second one finds the entry writable.
    have first : accessLoop Heap.zeroed false vpn accessWrite 2 state =
        accessLoop Heap.zeroed false vpn accessWrite 1 after := by
      rw [accessLoop, translate_uncached indexed running,
        if_neg fun allowed => allowed.2 ⟨by decide, by rw [readOnly]; rfl⟩]
      dsimp only
      rw [handled]
    have second := translates_of_entry accessWrite 0 indexed
      (by rw [resolved.same.ptbr, sameCurrent]; exact running) writable.1
      (by rw [writable.2]; exact fun denied => absurd denied.2 (by decide))
    exact ⟨_, _, _, looped.trans (first.trans second)⟩
  · have served := translates_of_entry accessWrite 1 indexed running valid
      (by rw [both]; exact fun denied => absurd denied.2 (by decide))
    exact ⟨_, _, _, looped.trans served⟩

end Access

/-- The reference after the commands of a run. -/
def Reference.after (commands : List Command) (events : List Event) : Reference :=
  Machine.history Reference.advance commands events Reference.init

/-- After every run without the TLB, for every process and page: a read is
translated just when the reference permits anything, a write only when it
permits writing, and then it is translated unless a copy is due and finds no
frame. -/
theorem permissions_refine_private_copies {commands : List Command} {events : List Event} {state : State}
    (process vpn : Nat) (ran : (simulator Heap.zeroed false).run commands initSystem = .ok (events, state))
    (exists_ : process < state.nrProcesses) (inside : vpn < 64) :
    (Translates vpn accessRead (state.running process) ↔
      (Reference.after commands events).permission process vpn ≠ .none) ∧
    (Translates vpn accessWrite (state.running process) ->
      (Reference.after commands events).permission process vpn = .rw) ∧
    ((Reference.after commands events).permission process vpn = .rw ->
      (state.mapcounts (state.page process vpn).pfn ≤ 1 ∨
        Exists fun frame => frame < nrPageframes ∧ state.mapcounts frame = 0) ->
      Translates vpn accessWrite (state.running process)) := by
  have within : (simulator Heap.zeroed false).Within (fun _ _ => True) commands initSystem :=
    Machine.within_of_forall_mem _ (fun _ _ _ => trivial) _
  have refines : Refines state (Reference.after commands events) :=
    (simulator Heap.zeroed false).run_history_invariant Reference.init Reference.advance Refines
      (fun _ _ _ _ _ _ related stepped => related.command stepped) within initSystem_refines ran
  have indexed_ : Exists fun directory => pdeIndex vpn = some directory := ⟨_, pdeIndex_of_lt inside⟩
  rcases indexed_ with ⟨directory, indexed⟩
  have permitted := refines.wellFormed.permitted (process, directory, pteIndex vpn) exists_
  rw [← refines.permission process vpn exists_, State.page_of_indexed indexed]
  refine ⟨?_, ?_, fun writable findsFrame => ?_⟩
  · rw [read_translates_iff (state.running process) indexed rfl, ne_eq, Pte.permission_eq_none,
      Bool.not_eq_false]
    rfl
  · exact permission_of_write_translates (state.running process) indexed rfl permitted
  · apply write_translates (state.running process) indexed rfl permitted writable
    intro shared
    rcases findsFrame with single | free
    · exact absurd single (Nat.not_le.mpr shared)
    · exact free

/-- After a fork, the child may write what its parent was given. -/
theorem permissions_refine_private_copies_child : Exists fun events => Exists fun state =>
    (simulator Heap.zeroed false).run [.alloc 5 ['w'], .switch 1] initSystem = .ok (events, state) ∧
      Translates 5 accessWrite (state.running 1) := by
  refine ⟨[.allocated 0, .switched], _, rfl, ?_⟩
  have ran : (simulator Heap.zeroed false).run [.alloc 5 ['w'], .switch 1] initSystem =
      .ok ([.allocated 0, .switched], _) := rfl
  exact (permissions_refine_private_copies 1 5 ran (by decide) (by decide)).2.2 (by decide)
    (Or.inr ⟨127, by decide, rfl⟩)

end Vm
end OsPa
