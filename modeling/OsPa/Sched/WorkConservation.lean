import OsPa.Sched.Plain

namespace OsPa
namespace Sched

open Library

/-!
# Work is conserved

Without acquires a process that could run is never kept waiting while nobody
runs.  What is left to do together then depends on the start ticks and lifespans
only, so that all schedulers are idle in the same ticks and come to the end in
the same tick.
-/

section Idle

variable {script : Script} {sched : Scheduler} {state forked after : State} {left : Bool} {last : List Event}

/-- The forks and the exit print nothing about idleness. -/
theorem Calm.idle_mem (calm : Calm script state) (round : Round sched (forkOnSchedule state) left last after)
    (tick : Nat) : (tick, Event.idle) ∈ after.stderr ↔
      (tick, Event.idle) ∈ state.stderr ∨ tick = state.ticks ∧ left = false ∧ servedBy last = none := by
  have final : Event.idle ∈ last ↔ left = false ∧ servedBy last = none := by
    cases round with
    | leave prio ready forks => exact iff_of_false List.not_mem_nil fun both => Bool.noConfusion both.1
    | idle prio ready forks => exact iff_of_true List.mem_cons_self ⟨rfl, rfl⟩
    | run prio chosen moved =>
        exact iff_of_false (fun member => Event.noConfusion (List.mem_singleton.mp member))
          fun both => absurd both.2 (Option.some_ne_none _)
  rw [calm.printed round, List.mem_append, ← final]
  apply or_congr_right
  constructor
  · intro printed
    rcases List.mem_map.mp printed with ⟨event, member, same⟩
    cases same
    refine ⟨rfl, ?_⟩
    rcases List.mem_append.mp member with forked | exitedOrLast
    · rcases List.mem_map.mp forked with ⟨process, _, same⟩
      cases same
    · rcases List.mem_append.mp exitedOrLast with exited | member
      · rcases List.mem_map.mp exited with ⟨process, _, same⟩
        cases same
      · exact member
  · rintro ⟨rfl, member⟩
    exact List.mem_map_of_mem (List.mem_append_right _ (List.mem_append_right _ member))

/-- A round makes one process older, unless nobody runs. -/
theorem Calm.ages (plain : script.Plain) (calm : Calm script state)
    (round : Round sched (forkOnSchedule state) left last after) :
    if servedBy last = none then after.age = state.age
    else Exists fun process => process < script.length ∧
      after.age = Function.update state.age process (state.age process + 1) := by
  have serves := calm.serves plain round
  generalize after.age = age at serves ⊢
  generalize servedBy last = chosen at serves ⊢
  cases serves with
  | idle nothing => rfl
  | serve process isJob works => exact ⟨process, Finset.mem_range.mp isJob, rfl⟩

/-- Idle ticks are over. -/
private theorem Simulates.idle_lt (plain : script.Plain) (lawful : Lawful sched) {rounds : Nat}
    (simulates : Simulates sched script rounds left state) {tick : Nat} (idle : (tick, Event.idle) ∈ state.stderr) :
    tick < state.ticks := by
  let past := fun state : State => Calm script state ∧
    forall tick, (tick, Event.idle) ∈ state.stderr -> tick < state.ticks
  have round : forall state, past state -> Exists fun left => Exists fun after =>
      iteration sched state = .ok (left, after) ∧ past after ∧ (left = true -> True) := by
    rintro state ⟨calm, earlier⟩
    rcases calm.round plain lawful with ⟨left, last, after, ran, round, later⟩
    refine ⟨left, after, ran, ⟨later, ?_⟩, fun _ => trivial⟩
    intro tick member
    have forks := forkOnSchedule_forks state calm.between.invariant.placed.forkqueue_nodup
    have clock := round.ticks
    rw [forks.ticks] at clock
    rcases (calm.idle_mem round tick).mp member with before | ⟨rfl, rfl, _⟩
    · exact Nat.lt_of_lt_of_le (earlier tick before) (clock ▸ Nat.le_add_right _ _)
    · rw [clock, if_neg Bool.false_ne_true]
      exact Nat.lt_succ_self _
  have start : past script.initial := ⟨Calm.initial plain, fun _ never => absurd never List.not_mem_nil⟩
  exact (simulates.invariant past round start).1.2 tick idle

end Idle

/-- Two runs with the same work left to do. -/
structure Abreast (script : Script) (state state' : State) : Prop where
  calm : Calm script state
  calm' : Calm script state'
  ticks : state'.ticks = state.ticks
  work : ∑ process ∈ script.workload.jobs, script.workload.left state.ticks state.age process =
    ∑ process ∈ script.workload.jobs, script.workload.left state.ticks state'.age process
  idle : forall tick, (tick, Event.idle) ∈ state'.stderr ↔ (tick, Event.idle) ∈ state.stderr

section Abreast

variable {script : Script} {sched sched' : Scheduler} {state state' after after' : State} {left left' : Bool}
  {last last' : List Event}

/-- The rounds of two runs with the same work left. -/
theorem Abreast.round (plain : script.Plain) (abreast : Abreast script state state')
    (round : Round sched (forkOnSchedule state) left last after)
    (round' : Round sched' (forkOnSchedule state') left' last' after') (later : Calm script after)
    (later' : Calm script after') : left = left' ∧ (servedBy last = none ↔ servedBy last' = none) ∧
      Abreast script after after' := by
  have serves := abreast.calm.serves plain round
  have serves' := abreast.calm'.serves plain round'
  have within' := abreast.calm'.within
  rw [abreast.ticks] at serves' within'
  have together := serves.idle_together serves' abreast.work
  have leaves := abreast.calm.left_iff round
  have leaves' := abreast.calm'.left_iff round'
  rw [abreast.ticks, ← together, ← leaves] at leaves'
  have same : left = left' := Bool.eq_iff_iff.mpr leaves'.symm
  subst left'
  have forks := forkOnSchedule_forks state abreast.calm.between.invariant.placed.forkqueue_nodup
  have forks' := forkOnSchedule_forks state' abreast.calm'.between.invariant.placed.forkqueue_nodup
  have clock := round.ticks
  have clock' := round'.ticks
  rw [forks.ticks] at clock
  rw [forks'.ticks, abreast.ticks, ← clock] at clock'
  refine ⟨rfl, together, later, later', clock', ?_, ?_⟩
  · rw [clock]
    cases left with
    | false => exact serves.same_left serves' abreast.calm.within within' abreast.work
    | true =>
        have idle := (leaves.mp rfl).1
        have age := abreast.calm.ages plain round
        have age' := abreast.calm'.ages plain round'
        rw [if_pos idle] at age
        rw [if_pos (together.mp idle)] at age'
        rw [age, age']
        exact abreast.work
  · intro tick
    rw [abreast.calm.idle_mem round, abreast.calm'.idle_mem round', abreast.idle tick, abreast.ticks, together]

theorem Abreast.initial (plain : script.Plain) : Abreast script script.initial script.initial :=
  ⟨Calm.initial plain, Calm.initial plain, rfl, rfl, fun _ => Iff.rfl⟩

/-- A run under another scheduler keeps abreast. -/
private theorem Simulates.abreast (plain : script.Plain) (lawful : Lawful sched) (lawful' : Lawful sched')
    {rounds : Nat} (simulates : Simulates sched script rounds left state) :
    Exists fun state' => Simulates sched' script rounds left state' ∧ Abreast script state state' := by
  apply simulates.lockstep (Abreast script) _ (Abreast.initial plain)
  intro state state' abreast
  rcases abreast.calm.round plain lawful with ⟨left, last, after, ran, round, later⟩
  rcases abreast.calm'.round plain lawful' with ⟨left', last', after', ran', round', later'⟩
  rcases abreast.round plain round round' later later' with ⟨rfl, _, still⟩
  exact ⟨left, after, after', ran, ran', still⟩

end Abreast

/-- Without acquires all schedulers leave the loop in the same tick and have the
same idle ticks.  In every other tick one process becomes older by one, and the
others do not. -/
theorem work_conserved {script : Script} (plain : script.Plain) (name name' : SchedulerName) {rounds : Nat}
    {left : Bool} {state : State} (simulates : Simulates name.scheduler script rounds left state) :
    (Exists fun state' => Simulates name'.scheduler script rounds left state' ∧ state'.ticks = state.ticks ∧
      forall tick, (tick, Event.idle) ∈ state'.stderr ↔ (tick, Event.idle) ∈ state.stderr) ∧
    (left = false -> Exists fun left' => Exists fun after => Simulates name.scheduler script (rounds + 1) left' after ∧
      if left' = true ∨ (state.ticks, Event.idle) ∈ after.stderr then after.age = state.age
      else Exists fun process => process < script.length ∧
        after.age = Function.update state.age process (state.age process + 1)) := by
  have calm := simulates.calm plain name.lawful
  constructor
  · rcases simulates.abreast plain name.lawful name'.lawful with ⟨state', simulates', abreast⟩
    exact ⟨state', simulates', abreast.ticks, abreast.idle⟩
  · rintro rfl
    rcases calm.round plain name.lawful with ⟨left, last, after, ran, round, _⟩
    refine ⟨left, after, simulates.next ran, ?_⟩
    have ages := calm.ages plain round
    have notYet : (state.ticks, Event.idle) ∉ state.stderr :=
      fun member => Nat.lt_irrefl _ (simulates.idle_lt plain name.lawful member)
    have nobody : left = true ∨ (state.ticks, Event.idle) ∈ after.stderr ↔ servedBy last = none := by
      rw [calm.idle_mem round, or_iff_right notYet]
      cases left with
      | true => exact iff_of_true (Or.inl rfl) ((calm.left_iff round).mp rfl).1
      | false =>
          constructor
          · rintro (never | ⟨_, _, idle⟩)
            · exact absurd never Bool.false_ne_true
            · exact idle
          · exact fun idle => Or.inr ⟨rfl, rfl, idle⟩
    rw [if_congr nobody rfl rfl]
    exact ages

/-- A short process, one that starts meanwhile, and one that starts late. -/
def staggered : Script := [⟨1, 3, 1, 0, []⟩, ⟨2, 1, 5, 1, []⟩, ⟨3, 2, 3, 7, []⟩]

theorem staggered_plain : staggered.Plain := ⟨by decide, by decide⟩

theorem work_conserved_staggered : Exists fun state =>
    Simulates fcfsScheduler staggered 6 false state ∧ (4, Event.idle) ∈ state.stderr ∧
      Exists fun state' => Simulates stcfScheduler staggered 6 false state' ∧ (4, Event.idle) ∈ state'.stderr := by
  have simulates : Simulates fcfsScheduler staggered 6 false _ := ⟨_, rfl, rfl⟩
  have found : Exists fun state => Simulates fcfsScheduler staggered 6 false state ∧ (4, Event.idle) ∈ state.stderr :=
    ⟨_, simulates, by decide⟩
  rcases found with ⟨state, simulates, idle⟩
  rcases (work_conserved staggered_plain .fcfs .stcf simulates).1 with ⟨state', simulates', _, same⟩
  exact ⟨state, simulates, idle, state', simulates', (same 4).mpr idle⟩

end Sched
end OsPa
