import OsPa.Vm.WellFormed

namespace OsPa
namespace Vm

open Library Framework

/-!
# What a fork leaves in the two page tables

The loops of fork copy the valid entries and leave the others of the child as they
are in a block of zeros.  That makes the two tables equal because an entry which is
not valid has nothing in its other fields either: no command stores there without
making the entry valid, and `free_page` clears all fields.
-/

/-- Entries that are not valid are all zero. -/
def State.Cleared (state : State) : Prop :=
  forall slot, (state.entry slot).valid = false -> state.entry slot = Pte.zero

namespace State.Cleared

variable {before after : State}

theorem of_entry (cleared : before.Cleared) (entry : after.entry = before.entry) : after.Cleared := by
  intro slot
  rw [entry]
  exact cleared slot

theorem update (cleared : before.Cleared) {slot : Slot} {stored : Pte}
    (valid : stored.valid = false -> stored = Pte.zero)
    (entry : after.entry = Function.update before.entry slot stored) : after.Cleared := by
  intro other
  rw [entry]
  by_cases here : other = slot
  · subst here
    rw [Function.update_self]
    exact valid
  · rw [Function.update_of_ne here]
    exact cleared other

private theorem resolved (cleared : before.Cleared) {slot : Slot} (resolved : Resolved slot before after) :
    after.Cleared := by
  cases resolved with
  | upgraded same isProtected single entry =>
      refine cleared.update (fun invalid => ?_) entry
      rw [isProtected.valid] at invalid
      cases invalid
  | copied pfn same isProtected shared inside free entry => exact cleared.update (fun invalid => by cases invalid) entry
  | leaked same isProtected shared full process =>
      apply cleared.of_entry
      funext slot
      simp only [State.entry, State.pte, process]

private theorem accessSteps (cleared : before.Cleared) {vpn : Nat}
    (steps : Relation.ReflTransGen (AccessStep vpn) before after) : after.Cleared := by
  induction steps with
  | refl => exact cleared
  | tail _ step inductionHypothesis =>
      cases step with
      | retagged retagged => exact inductionHypothesis.of_entry retagged.entry
      | resolved directory indexed resolved => exact inductionHypothesis.resolved resolved

private theorem forked (cleared : before.Cleared) {pid : Nat} (forked : Forked pid before after) : after.Cleared := by
  intro slot
  rw [forked.entry]
  split
  · cases valid : (before.entry (before.current, slot.2)).valid with
    | true =>
        rw [Pte.inherited_of_valid valid, Pte.writeProtected_valid, valid]
        exact nofun
    | false =>
        rw [Pte.inherited_of_invalid valid]
        exact fun _ => rfl
  · split
    · intro invalid
      rw [Pte.writeProtected_valid] at invalid
      rw [Pte.writeProtected_of_invalid invalid]
      exact cleared slot invalid
    · exact cleared slot

/-- Every command keeps entries that are not valid zero. -/
theorem command (cleared : before.Cleared) (wellFormed : WellFormed before) {printTlbResult : Bool}
    {input : Command} {event : Event}
    (ran : Vm.command Heap.zeroed printTlbResult input before = .ok (event, after)) : after.Cleared := by
  cases input with
  | switch pid =>
      rcases switchProcess_cases wellFormed.current_lt wellFormed.counts (switch_event ran).2 with
        ⟨change, selected⟩ | ⟨_, forked⟩
      · apply cleared.of_entry
        funext slot
        simp only [State.entry, State.pte, selected.process]
      · exact cleared.forked forked
  | free vpn =>
      rcases (freePage_event ran).2 with retagged | ⟨directory, _, unmapped⟩
      · exact cleared.of_entry retagged.entry
      · exact cleared.update (fun _ => rfl) unmapped.entry
  | read vpn => exact cleared.accessSteps (access_event ran)
  | write vpn => exact cleared.accessSteps (access_event ran)
  | alloc vpn rw =>
      rcases allocPage_event wellFormed.ptbr ran with ⟨_, retagged⟩ | ⟨pfn, directory, _, _, _, mapped⟩
      · exact cleared.of_entry retagged.entry
      · exact cleared.update (fun invalid => by cases invalid) mapped.entry
  | access vpn rw => exact cleared.accessSteps (access_event ran)

end State.Cleared

private theorem initSystem_cleared : initSystem.Cleared := fun _ _ => rfl

private theorem Reached.cleared {printTlbResult : Bool} {state : State} (reached : Reached printTlbResult state) :
    state.Cleared := by
  rcases reached with ⟨commands, _, events, ran⟩
  have within : (simulator Heap.zeroed printTlbResult).Within (fun _ _ => True) commands initSystem :=
    Machine.within_of_forall_mem _ (fun _ _ _ => trivial) initSystem
  exact ((simulator Heap.zeroed printTlbResult).run_invariant (fun state => WellFormed state ∧ state.Cleared)
    (fun _ _ _ _ _ holds stepped => ⟨holds.1.command stepped, holds.2.command holds.1 stepped⟩)
    within ⟨initSystem_wellFormed, initSystem_cleared⟩ ran).2

/-! ## The tables after a fork -/

/-- What an entry of the parent has become, in its own table or in the child's. -/
structure Pte.SharedAs (entry now : Pte) : Prop where
  valid : now.valid = entry.valid
  pfn : now.pfn = entry.pfn
  priv : now.priv = entry.priv
  writable : entry.rw = accessRead ||| accessWrite -> now.rw &&& accessWrite = 0
  other : entry.rw ≠ accessRead ||| accessWrite -> now.rw = entry.rw

theorem Pte.sharedAs_writeProtected {entry : Pte} (cleared : entry.valid = false -> entry = Pte.zero) :
    entry.SharedAs entry.writeProtected := by
  refine ⟨Pte.writeProtected_valid entry, Pte.writeProtected_pfn entry, Pte.writeProtected_priv entry, ?_, ?_⟩
  · intro writable
    have valid : entry.valid = true := by
      apply Bool.of_not_eq_false
      intro invalid
      rw [cleared invalid] at writable
      cases writable
    rw [Pte.writeProtected, if_pos ⟨valid, writable⟩]
    exact (rfl : 1 &&& accessWrite = 0)
  · intro other
    rw [Pte.writeProtected, if_neg fun both => other both.2]

private theorem Pte.sharedAs_inherited {entry : Pte} (cleared : entry.valid = false -> entry = Pte.zero) :
    entry.SharedAs entry.inherited := by
  cases valid : entry.valid with
  | true =>
      rw [Pte.inherited_of_valid valid]
      exact Pte.sharedAs_writeProtected cleared
  | false =>
      rw [Pte.inherited_of_invalid valid, cleared valid]
      exact ⟨rfl, rfl, rfl, nofun, fun _ => rfl⟩

/-- The process that runs after a fork has the pid, and the entries of the process
that ran before for all its pages. -/
structure Duplicated (pid : Nat) (before after : State) : Prop where
  pid : (after.process after.current).pid = pid
  ptbr : after.ptbr = some after.current
  fresh : before.nrProcesses ≤ after.current
  child : forall vpn, vpn < 64 -> (before.page before.current vpn).SharedAs (after.page after.current vpn)
  parent : forall vpn, vpn < 64 -> (before.page before.current vpn).SharedAs (after.page before.current vpn)
  mapcounts : forall frame, after.mapcounts frame = (before.mapcounts frame +
    sharedCount (fun place => before.entry (before.current, place)) Finset.univ frame) % Word.size
  others : forall process, process ≠ before.current -> process ≠ after.current ->
    forall vpn, after.page process vpn = before.page process vpn

private theorem Forked.duplicated {pid : Nat} {before after : State} (forked : Forked pid before after)
    (wellFormed : WellFormed before) (cleared : before.Cleared) : Duplicated pid before after := by
  have zero : Pte.zero.SharedAs Pte.zero := ⟨rfl, rfl, rfl, nofun, fun _ => rfl⟩
  have old := Nat.ne_of_lt wellFormed.current_lt
  constructor
  case pid => rw [forked.current, forked.pid, if_pos rfl]
  case ptbr => rw [forked.ptbr, forked.current]
  case fresh => exact Nat.le_of_eq forked.current.symm
  case child =>
    intro vpn _
    rw [forked.current]
    refine State.page_forall (fun now was => was.SharedAs now) zero (fun place => ?_) vpn
    rw [forked.entry_child]
    exact Pte.sharedAs_inherited (cleared _)
  case parent =>
    intro vpn _
    refine State.page_forall (fun now was => was.SharedAs now) zero (fun place => ?_) vpn
    rw [forked.entry, if_neg old, if_pos rfl]
    exact Pte.sharedAs_writeProtected (cleared _)
  case mapcounts => exact forked.mapcounts
  case others =>
    intro process notParent notChild vpn
    rw [forked.current] at notChild
    refine State.page_forall (fun now was => now = was) rfl (fun place => ?_) vpn
    rw [forked.entry, if_neg notChild, if_neg notParent]

/-- A switch to a pid that is not listed duplicates the running process. -/
theorem fork_duplicates {printTlbResult : Bool} {state : State} {pid : Nat} (reached : Reached printTlbResult state)
    (unlisted : ¬ state.Listed pid) :
    Exists fun after => switchProcess Heap.zeroed pid state = .ok after ∧ Duplicated pid state after := by
  have wellFormed := reached.wellFormed
  rcases wellFormed.switchProcess_ok pid with ⟨after, ran⟩
  refine ⟨after, ran, ?_⟩
  rcases switchProcess_cases wellFormed.current_lt wellFormed.counts ran with ⟨change, selected⟩ | ⟨_, forked⟩
  · exact absurd selected.listed unlisted
  · exact forked.duplicated wellFormed reached.cleared

/-- A child forks, after it has got a copy of a page that it had shared. -/
theorem fork_duplicates_child : Exists fun state => Exists fun after => Reached false state ∧
    switchProcess Heap.zeroed 2 state = .ok after ∧ (after.process after.current).pid = 2 ∧
      (after.page after.current 5).pfn = 2 ∧ (after.page after.current 5).rw &&& accessWrite = 0 := by
  have ran : Exists fun events => Exists fun state =>
      (simulator Heap.zeroed false).run [.alloc 5 ['w'], .alloc 6 ['r'], .switch 1, .write 5] initSystem =
          .ok (events, state) ∧
        state.page state.current 5 = ⟨true, 3, 2, 3⟩ ∧ state.processes = [0] ∧ (state.process 0).pid = 0 :=
    ⟨_, _, rfl, rfl, rfl, rfl⟩
  rcases ran with ⟨events, state, ran, page, processes, pid⟩
  have reached : Reached false state := ⟨_, by decide, events, ran⟩
  have unlisted : ¬ state.Listed 2 := by
    rintro ⟨listed, member, same⟩
    rw [processes, List.mem_singleton] at member
    rw [member, pid] at same
    cases same
  rcases fork_duplicates reached unlisted with ⟨after, switched, duplicated⟩
  have shared := duplicated.child 5 (by decide)
  rw [page] at shared
  exact ⟨state, after, reached, switched, duplicated.pid, shared.pfn, shared.writable rfl⟩

end Vm
end OsPa
