import OsPa.Vm.Switching

namespace OsPa
namespace Vm

open Library Framework

/-!
# Process ids

A switch looks for the pid in the list `processes`, where the running process is
not.  The pid of the running process is therefore never found as long as the pids
are distinct, and a switch to it forks a second process with the same pid.
-/

/-- No two processes of the system have the same pid. -/
def State.PidsDistinct (state : State) : Prop :=
  forall left right, left ∈ state.system -> right ∈ state.system ->
    (state.process left).pid = (state.process right).pid -> left = right

/-- A switch that the command makes is to another pid than that of the running
process. -/
def SwitchesAway (input : Command) (state : State) : Prop :=
  forall pid, input = .switch pid -> pid ≠ (state.process state.current).pid

private theorem initSystem_pidsDistinct : initSystem.PidsDistinct := by
  intro left right leftMember rightMember _
  exact (List.mem_singleton.mp leftMember).trans (List.mem_singleton.mp rightMember).symm

section Steps

variable {pid : Nat} {before after : State}

private theorem SameProcesses.pidsDistinct_iff (same : SameProcesses before after) :
    after.PidsDistinct ↔ before.PidsDistinct := by
  simp only [State.PidsDistinct, same.system, same.pid]

/-- Where the pids are distinct, a process that is selected is not the running one. -/
private theorem Selected.pid_ne {change : Nat} (populated : Populated before) (distinct : before.PidsDistinct)
    (selected : Selected pid change before after) : pid ≠ (before.process before.current).pid := by
  intro own
  have same := distinct change before.current (List.mem_cons_of_mem _ selected.mem) List.mem_cons_self
    (selected.pid_eq.trans own)
  exact (List.nodup_cons.mp populated.once).1 (same ▸ selected.mem)

private theorem Selected.pidsDistinct {change : Nat} (distinct : before.PidsDistinct)
    (selected : Selected pid change before after) : after.PidsDistinct := by
  intro left right leftMember rightMember same
  rw [selected.process] at same
  exact distinct left right (List.mem_cons_of_mem _ (selected.system_perm.mem_iff.mp leftMember))
    (List.mem_cons_of_mem _ (selected.system_perm.mem_iff.mp rightMember)) same

/-- A fork gives a pid that no process of the system had, just if it is not that of
the parent. -/
private theorem Spawned.pidsDistinct_iff (populated : Populated before) (distinct : before.PidsDistinct)
    (unlisted : ¬ before.Listed pid) (spawned : Spawned pid before after) :
    after.PidsDistinct ↔ pid ≠ (before.process before.current).pid := by
  have child : (after.process before.nrProcesses).pid = pid := by
    rw [spawned.pid, if_pos rfl]
  have old : forall process, process ∈ before.system -> (after.process process).pid = (before.process process).pid := by
    intro process member
    rw [spawned.pid, if_neg (Nat.ne_of_lt (populated.exist process member))]
  constructor
  · intro after_ own
    have same := after_ before.nrProcesses before.current
      (spawned.system_perm.mem_iff.mpr List.mem_cons_self)
      (spawned.system_perm.mem_iff.mpr (List.mem_cons_of_mem _ List.mem_cons_self))
      (child.trans (own.trans (old before.current List.mem_cons_self).symm))
    exact Nat.lt_irrefl before.nrProcesses (same ▸ populated.exist before.current List.mem_cons_self)
  · intro other
    -- The child's pid differs from that of each process there was.
    have fresh : forall process, process ∈ before.system -> (after.process process).pid ≠ pid := by
      intro process member same
      rw [old process member] at same
      rcases List.mem_cons.mp member with rfl | listed
      · exact other same.symm
      · exact unlisted ⟨process, listed, same⟩
    intro left right leftMember rightMember same
    rcases List.mem_cons.mp (spawned.system_perm.mem_iff.mp leftMember) with rfl | leftOld
    · rcases List.mem_cons.mp (spawned.system_perm.mem_iff.mp rightMember) with rfl | rightOld
      · rfl
      · exact absurd (same.symm.trans child) (fresh right rightOld)
    · rcases List.mem_cons.mp (spawned.system_perm.mem_iff.mp rightMember) with rfl | rightOld
      · exact absurd (same.trans child) (fresh left leftOld)
      · rw [old left leftOld, old right rightOld] at same
        exact distinct left right leftOld rightOld same

end Steps

section Commands

variable {heap : Heap} {printTlbResult : Bool} {input : Command} {event : Event} {before after : State}

/-- A command keeps the pids distinct just if it does not switch to the running
process. -/
private theorem command_pidsDistinct_iff (populated : Populated before) (seated : Seated before)
    (distinct : before.PidsDistinct) (ran : Vm.command heap printTlbResult input before = .ok (event, after)) :
    after.PidsDistinct ↔ SwitchesAway input before := by
  by_cases switches : Exists fun pid => input = .switch pid
  · rcases switches with ⟨pid, rfl⟩
    have away : SwitchesAway (.switch pid) before ↔ pid ≠ (before.process before.current).pid := by
      constructor
      · intro switchesAway
        exact switchesAway pid rfl
      · rintro other _ ⟨⟩
        exact other
    rw [away]
    rcases (switchProcess_any (switch_event ran).2).1 with ⟨change, selected⟩ | ⟨unlisted, spawned⟩
    · exact iff_of_true (selected.pidsDistinct distinct) (selected.pid_ne populated distinct)
    · exact spawned.pidsDistinct_iff populated distinct unlisted
  · have same := (command_steady seated ran fun pid is => switches ⟨pid, is⟩).same
    exact iff_of_true (same.pidsDistinct_iff.mpr distinct) fun pid is => absurd ⟨pid, is⟩ switches

end Commands

/-- In all states of a run the pids are distinct, just if none of its commands
switches to the process that is running. -/
theorem pids_distinct_iff {heap : Heap} {printTlbResult : Bool} {commands : List Command} {events : List Event}
    {state : State} (ran : (simulator heap printTlbResult).run commands initSystem = .ok (events, state)) :
    (forall executed, executed <+: commands -> forall events reached,
      (simulator heap printTlbResult).run executed initSystem = .ok (events, reached) -> reached.PidsDistinct) ↔
        (simulator heap printTlbResult).Within SwitchesAway commands initSystem :=
  (simulator heap printTlbResult).always_iff_within (fun state => Populated state ∧ Seated state)
    (fun _ _ _ _ holds stepped => ⟨holds.1.command holds.2 stepped, holds.2.command stepped⟩)
    (fun _ _ _ _ holds distinct stepped => command_pidsDistinct_iff holds.1 holds.2 distinct stepped)
    ⟨initSystem_populated, initSystem_seated⟩ initSystem_pidsDistinct ran

/-- Process 1 is forked by process 0 and forks process 2. -/
theorem pids_distinct_two : Exists fun state => State.PidsDistinct state ∧ state.system = [2, 0, 1] := by
  have within : (simulator Heap.zeroed false).Within SwitchesAway [.switch 1, .switch 2] initSystem := by
    refine ⟨?_, fun _ => ⟨?_, fun _ => trivial⟩⟩
    · rintro _ ⟨⟩
      decide
    · rintro _ ⟨⟩
      decide
  exact ⟨_, (pids_distinct_iff rfl).mpr within _ (List.prefix_refl _) _ _ rfl, rfl⟩

/-- The first command switches to process 0, which is running. -/
theorem switch_to_self_duplicates : Exists fun events => Exists fun state =>
    (simulator Heap.zeroed false).run [.switch 0] initSystem = .ok (events, state) ∧
      state.system = [1, 0] ∧ (state.process 1).pid = 0 ∧ (state.process 0).pid = 0 ∧ ¬ state.PidsDistinct := by
  refine ⟨_, _, rfl, rfl, rfl, rfl, fun distinct => ?_⟩
  have same := distinct 1 0 (by decide) (by decide) rfl
  cases same

end Vm
end OsPa
