import OsPa.Vm.AnyHeap

namespace OsPa
namespace Vm

open Library Framework

/-!
# Which processes a switch keeps

The system consists of the running process and those in the list `processes`.
A switch that forks appends the outgoing process to the list.  A switch to a
listed process takes the incoming one from the list and puts nothing back, so
the outgoing process is in neither place afterwards: it still exists, and its
frames stay counted, but no later switch can reach it.
-/

/-- The running process and the listed ones. -/
def State.system (state : State) : List Nat := state.current :: state.processes

/-- The members of the system exist, and each of them has one place in it. -/
structure Populated (state : State) : Prop where
  exist : forall process, process ∈ state.system -> process < state.nrProcesses
  once : state.system.Nodup

theorem initSystem_populated : Populated initSystem where
  exist := by
    intro process member
    rw [List.mem_singleton.mp member]
    exact Nat.zero_lt_one
  once := List.nodup_singleton 0

/-- A switch keeps the processes of the system and adds a new one just when
none with the pid was listed.  The outgoing process is listed once and the
incoming one is not. -/
structure Conserved (pid : Nat) (before after : State) : Prop where
  kept : before.Listed pid -> after.system.Perm before.system
  joined : ¬ before.Listed pid -> after.system.Perm (before.nrProcesses :: before.system)
  outgoing : after.processes.count before.current = 1
  incoming : after.current ∉ after.processes

section Steps

variable {pid : Nat} {before after : State}

/-- Other commands do not change which processes there are. -/
theorem SameProcesses.system (same : SameProcesses before after) : after.system = before.system := by
  rw [State.system, State.system, same.current, same.processes]

theorem Selected.system_perm {change : Nat} (selected : Selected pid change before after) :
    after.system.Perm before.processes := by
  rw [State.system, selected.current, selected.processes]
  exact (List.perm_cons_erase selected.mem).symm

theorem Spawned.system_perm (spawned : Spawned pid before after) :
    after.system.Perm (before.nrProcesses :: before.system) := by
  rw [State.system, State.system, spawned.current, spawned.processes]
  exact (List.perm_append_singleton _ _).cons _

private theorem Populated.selected {change : Nat} (populated : Populated before)
    (selected : Selected pid change before after) : Populated after where
  exist := by
    intro process member
    rw [selected.nrProcesses]
    exact populated.exist process (List.mem_cons_of_mem _ (selected.system_perm.mem_iff.mp member))
  once := selected.system_perm.nodup_iff.mpr populated.once.of_cons

theorem Populated.spawned (populated : Populated before) (spawned : Spawned pid before after) :
    Populated after where
  exist := by
    intro process member
    rw [spawned.nrProcesses]
    rcases List.mem_cons.mp (spawned.system_perm.mem_iff.mp member) with rfl | old
    · exact Nat.lt_succ_self _
    · exact Nat.lt_succ_of_lt (populated.exist process old)
  once := by
    refine spawned.system_perm.nodup_iff.mpr (List.nodup_cons.mpr ⟨fun member => ?_, populated.once⟩)
    exact Nat.lt_irrefl _ (populated.exist _ member)

private theorem Spawned.conserved (populated : Populated before) (unlisted : ¬ before.Listed pid)
    (spawned : Spawned pid before after) : Conserved pid before after where
  kept := fun listed => absurd listed unlisted
  joined := fun _ => spawned.system_perm
  outgoing := by
    have detached : before.current ∉ before.processes := (List.nodup_cons.mp populated.once).1
    rw [spawned.processes, List.count_append, List.count_eq_zero.mpr detached, List.count_singleton_self]
  incoming := (List.nodup_cons.mp (populated.spawned spawned).once).1

private theorem Selected.not_conserved {change : Nat} (populated : Populated before)
    (selected : Selected pid change before after) : ¬ Conserved pid before after := by
  intro conserved
  have absent : before.current ∉ after.processes := by
    rw [selected.processes]
    exact fun member => (List.nodup_cons.mp populated.once).1 (List.mem_of_mem_erase member)
  have once := conserved.outgoing
  rw [List.count_eq_zero.mpr absent] at once
  cases once

/-- A switch conserves the processes just when it forks. -/
private theorem Populated.conserved_iff {heap : Heap} (populated : Populated before)
    (ran : switchProcess heap pid before = .ok after) : Conserved pid before after ↔ ¬ before.Listed pid := by
  rcases (switchProcess_any ran).1 with ⟨change, selected⟩ | ⟨unlisted, spawned⟩
  · exact iff_of_false (selected.not_conserved populated) fun unlisted => unlisted selected.listed
  · exact iff_of_true (spawned.conserved populated unlisted) unlisted

end Steps

/-! ## Returning to a process -/

/-- The process runs, on its own page table, and no page table has changed. -/
structure Returned (process : Nat) (before after : State) : Prop where
  current : after.current = process
  ptbr : after.ptbr = some process
  process : after.process = before.process

/-- A switch to the pid of a listed process selects the first one listed. -/
private theorem switchProcess_selected {pid : Nat} {state : State} (heap : Heap) (listed : state.Listed pid) :
    Exists fun change => Exists fun after =>
      switchProcess heap pid state = .ok after ∧ Selected pid change state after := by
  cases found : state.processes.find? fun process => (state.process process).pid == pid with
  | none =>
      rcases listed with ⟨process, member, same⟩
      exact absurd (beq_iff_eq.mpr same) (List.find?_eq_none.mp found process member)
  | some change =>
      unfold switchProcess
      rw [found]
      exact ⟨change, _, rfl, ⟨found, rfl, rfl, rfl, rfl, rfl, rfl⟩⟩

/-- Every listed process is reached by switching to its pid often enough.  Each
switch takes the first process with that pid from the list. -/
private theorem return_to_listed (heap : Heap) (printTlbResult : Bool) {process : Nat} {state : State}
    (listed : process ∈ state.processes) :
    Exists fun switches => Exists fun events => Exists fun after =>
      (simulator heap printTlbResult).run
        (List.replicate switches (.switch (state.process process).pid)) state = .ok (events, after) ∧
      Returned process state after := by
  have general : forall (length : Nat) (state : State), state.processes.length = length ->
      process ∈ state.processes -> Exists fun switches => Exists fun events => Exists fun after =>
        (simulator heap printTlbResult).run
          (List.replicate switches (.switch (state.process process).pid)) state = .ok (events, after) ∧
        Returned process state after := by
    intro length
    induction length with
    | zero =>
        intro state empty member
        rw [List.length_eq_zero_iff.mp empty] at member
        cases member
    | succ length inductionHypothesis =>
        intro state sized member
        rcases switchProcess_selected heap ⟨process, member, rfl⟩ with ⟨change, next, ran, selected⟩
        have stepped : (simulator heap printTlbResult).step
            (.switch (state.process process).pid) state = .ok (.switched, next) := by
          simp only [simulator, command, ran]
        by_cases here : change = process
        · subst change
          refine ⟨1, [.switched], next, ?_, selected.current, selected.ptbr, selected.process⟩
          simp only [List.replicate, Machine.run, stepped]
          rfl
        · have remains : process ∈ next.processes := by
            rw [selected.processes]
            exact (List.mem_erase_of_ne fun same => here same.symm).mpr member
          have shorter : next.processes.length = length := by
            rw [selected.processes, List.length_erase_of_mem selected.mem, sized]
            rfl
          rcases inductionHypothesis next shorter remains with ⟨switches, events, after, rest, returned⟩
          rw [selected.process] at rest
          refine ⟨switches + 1, .switched :: events, after, ?_,
            returned.current, returned.ptbr, returned.process.trans selected.process⟩
          simp only [List.replicate, Machine.run, stepped, rest]
          rfl
  exact general _ state rfl listed

/-! ## Runs -/

section Commands

variable {heap : Heap} {printTlbResult : Bool} {input : Command} {event : Event} {before after : State}

theorem Populated.command (populated : Populated before) (seated : Seated before)
    (ran : Vm.command heap printTlbResult input before = .ok (event, after)) : Populated after := by
  by_cases switches : Exists fun pid => input = .switch pid
  · rcases switches with ⟨pid, rfl⟩
    rcases (switchProcess_any (switch_event ran).2).1 with ⟨change, selected⟩ | ⟨_, spawned⟩
    · exact populated.selected selected
    · exact populated.spawned spawned
  · have same := (command_steady seated ran fun pid is => switches ⟨pid, is⟩).same
    refine ⟨?_, ?_⟩
    · rw [same.system, same.nrProcesses]
      exact populated.exist
    · rw [same.system]
      exact populated.once

/-- A switch that the command makes will fork. -/
def ForksIfSwitch (input : Command) (state : State) : Prop :=
  forall pid, input = .switch pid -> ¬ state.Listed pid

/-- The system consists of all processes ever created. -/
def State.Complete (state : State) : Prop := state.system.Perm (List.range state.nrProcesses)

private theorem State.Complete.command (complete : before.Complete) (seated : Seated before)
    (forks : ForksIfSwitch input before)
    (ran : Vm.command heap printTlbResult input before = .ok (event, after)) : after.Complete := by
  by_cases switches : Exists fun pid => input = .switch pid
  · rcases switches with ⟨pid, rfl⟩
    have unlisted := forks pid rfl
    rcases (switchProcess_any (switch_event ran).2).1 with ⟨change, selected⟩ | ⟨_, spawned⟩
    · exact absurd selected.listed unlisted
    · unfold State.Complete
      rw [spawned.nrProcesses, List.range_succ]
      exact spawned.system_perm.trans ((complete.cons _).trans (List.perm_append_singleton _ _).symm)
  · have same := (command_steady seated ran fun pid is => switches ⟨pid, is⟩).same
    unfold State.Complete
    rw [same.system, same.nrProcesses]
    exact complete

end Commands

/-- After every run, whatever `malloc` returns, a switch keeps all processes of the
system and lists the outgoing one just when no listed process has the pid.  Blocks
filled with zeros let each switch return.  Where all switches of the run fork, every
process ever created is in the system exactly once, and each that is not running can
be returned to with its own page table. -/
theorem switch_conserves_iff_forks {heap : Heap} {printTlbResult : Bool} {commands : List Command}
    {events : List Event} {state : State}
    (ran : (simulator heap printTlbResult).run commands initSystem = .ok (events, state)) :
    (forall pid after, switchProcess heap pid state = .ok after ->
      (Conserved pid state after ↔ ¬ state.Listed pid)) ∧
    (heap = Heap.zeroed -> forall pid, Exists fun after => switchProcess heap pid state = .ok after) ∧
    ((simulator heap printTlbResult).Within ForksIfSwitch commands initSystem ->
      (forall process, process < state.nrProcesses -> state.system.count process = 1) ∧
      forall process, process < state.nrProcesses -> process ≠ state.current ->
        Exists fun switches => Exists fun later => Exists fun after =>
          (simulator heap printTlbResult).run
            (List.replicate switches (.switch (state.process process).pid)) state = .ok (later, after) ∧
          Returned process state after) := by
  have all : (simulator heap printTlbResult).Within (fun _ _ => True) commands initSystem :=
    Machine.within_of_forall_mem _ (fun _ _ _ => trivial) initSystem
  have populated := (simulator heap printTlbResult).run_invariant (fun reached => Seated reached ∧ Populated reached)
    (fun _ _ _ _ _ holds stepped => ⟨holds.1.command stepped, holds.2.command holds.1 stepped⟩)
    all ⟨initSystem_seated, initSystem_populated⟩ ran
  refine ⟨fun pid after switched => populated.2.conserved_iff switched, ?_, fun within => ?_⟩
  · rintro rfl pid
    exact (run_wellFormed initSystem_wellFormed ran).switchProcess_ok pid
  · have kept := (simulator heap printTlbResult).run_invariant (fun reached => Seated reached ∧ reached.Complete)
      (fun _ _ _ _ forks holds stepped => ⟨holds.1.command stepped, holds.2.command holds.1 forks stepped⟩)
      within ⟨initSystem_seated, List.Perm.refl _⟩ ran
    have once : forall process, process < state.nrProcesses -> state.system.count process = 1 := by
      intro process exists_
      rw [kept.2.count_eq]
      exact List.count_eq_one_of_mem List.nodup_range (List.mem_range.mpr exists_)
    refine ⟨once, fun process exists_ other => ?_⟩
    have member : process ∈ state.system := List.one_le_count_iff.mp (Nat.le_of_eq (once process exists_).symm)
    exact return_to_listed heap printTlbResult ((List.mem_cons.mp member).resolve_left other)

/-- The running process forks, and each process is in the system. -/
theorem switch_conserves_iff_forks_one : Exists fun events => Exists fun state =>
    (simulator Heap.zeroed false).run [.switch 1] initSystem = .ok (events, state) ∧
      (Exists fun after => switchProcess Heap.zeroed 2 state = .ok after ∧ Conserved 2 state after) ∧
      state.system.count 0 = 1 := by
  have within : (simulator Heap.zeroed false).Within ForksIfSwitch [.switch 1] initSystem := by
    refine ⟨?_, fun _ => trivial⟩
    rintro pid _ ⟨listed, member, _⟩
    cases member
  have ran : Exists fun events => Exists fun state =>
      (simulator Heap.zeroed false).run [.switch 1] initSystem = .ok (events, state) ∧ state.processes = [0] ∧
        (state.process 0).pid = 0 ∧ state.nrProcesses = 2 := ⟨_, _, rfl, rfl, rfl, rfl⟩
  rcases ran with ⟨events, state, ran, processes, pid, created⟩
  have unlisted : ¬ state.Listed 2 := by
    rintro ⟨listed, member, same⟩
    rw [processes] at member
    rw [List.mem_singleton.mp member, pid] at same
    cases same
  rcases switch_conserves_iff_forks ran with ⟨conserved, returns, kept⟩
  rcases returns rfl 2 with ⟨after, switched⟩
  refine ⟨events, state, ran, ⟨after, switched, (conserved 2 after switched).mpr unlisted⟩, ?_⟩
  exact (kept within).1 0 (created ▸ by decide)

/-- Process 1 is forked and then switched away from, to the listed process 0. -/
theorem switch_back_loses_process : Exists fun state => Exists fun after => Reached false state ∧
    switchProcess Heap.zeroed 0 state = .ok after ∧ ¬ Conserved 0 state after := by
  refine ⟨_, _, ⟨[.switch 1], fun command member => ?_, _, rfl⟩, rfl, fun conserved => ?_⟩
  · rw [List.mem_singleton.mp member]
    trivial
  · have once := conserved.outgoing
    revert once
    decide

end Vm
end OsPa
