import OsPa.Library.Patience
import OsPa.Sched.Boost
import OsPa.Sched.Termination

namespace OsPa
namespace Sched

open Library

/-!
# How long a ready process waits

The loop is left with an empty ready queue, and it is left in every run of a valid
script.  Whoever is in the ready queue is therefore chosen at some time, whatever
the scheduler.  Round robin chooses the processes in the order of the queue.
Aging chooses a process of priority `prio` before it has chosen others as often as
the largest priority exceeds `prio` and there are processes, and no priority gets
as far as the largest priority and the number of processes together.
-/

section Runs

variable {sched : Scheduler} {script : Script} {before after start final : Configuration} {process : Nat}

private theorem picks_length (before after : Configuration) : (picks before after).length ≤ 1 := by
  unfold picks
  split
  · exact Nat.le_refl 1
  · exact Nat.zero_le 1

/-- Who is chosen has been in the line and leaves it, and otherwise it is empty. -/
theorem Step.line_scheduled (lawful : Lawful sched) {state : State} (step : Step sched (.forking [], state) after) :
    (line (.forking [], state) = [] ∧ line after = [] ∧ picks (.forking [], state) after = []) ∨
    Exists fun best => picks (.forking [], state) after = [best] ∧
      (best :: line after).Perm (line (.forking [], state)) := by
  have law := lawful.schedule state
  cases step with
  | leave chosen retired empty =>
      rw [chosen] at law
      have nobody := law.idle rfl
      have moved := law.moved
      rw [nobody] at moved
      exact Or.inl ⟨moved.nil_eq.symm, empty.1, rfl⟩
  | idle chosen retired waits =>
      rw [chosen] at law
      have nobody := law.idle rfl
      have moved := law.moved
      rw [nobody] at moved
      exact Or.inl ⟨moved.nil_eq.symm, (retire_kept retired).readyqueue.trans nobody, rfl⟩
  | @choose state scheduled updated current chosen retired unlinked =>
      rw [chosen] at law
      refine Or.inr ⟨current, rfl, ?_⟩
      have same : updated.readyqueue = scheduled.readyqueue := (retire_kept retired).readyqueue
      have moved : (current :: scheduled.readyqueue).Perm (state.readyqueue ++ state.runnable.toList) := law.moved
      rw [← same] at moved
      exact moved

/-- As long as a process is not chosen, it stays in the line. -/
theorem Trace.stays (lawful : Lawful sched) (guarded : Guarded sched) {chosen : List Nat}
    (reaches : Reaches sched script start) (queued : process ∈ line start)
    (trace : Trace (Step sched) picks start chosen final) (notChosen : process ∉ chosen) : process ∈ line final := by
  have along := trace.invariant (fun chosen reached => Tied reached ∧ (process ∉ chosen -> process ∈ line reached))
    ⟨reaches.tied lawful guarded, fun _ => queued⟩ (by
      rintro labels before after ⟨tied, stays⟩ step
      refine ⟨tied.step lawful guarded step, fun absent => ?_⟩
      have earlier := stays fun member => absent (List.mem_append_left _ member)
      by_cases scheduling : Exists fun state => before = (.forking [], state)
      · rcases scheduling with ⟨state, rfl⟩
        rcases step.line_scheduled lawful with ⟨empty, _, _⟩ | ⟨best, picked, moved⟩
        · rw [empty] at earlier
          cases earlier
        · rw [picked] at absent
          rcases List.mem_cons.mp (moved.mem_iff.mpr earlier) with same | later
          · exact absurd (List.mem_append_right _ (List.mem_singleton.mpr same)) absent
          · exact later
      · rcases (step.line_joined lawful guarded tied fun state same => scheduling ⟨state, same⟩).2 with ⟨more, joined⟩
        rw [joined]
        exact List.mem_append_left _ earlier)
  exact along.2 notChosen

/-- Whoever is in the ready queue is chosen, whatever the scheduler. -/
theorem Reaches.chosen (valid : script.Valid) (lawful : Lawful sched) (guarded : Guarded sched)
    (reaches : Reaches sched script start) (queued : process ∈ line start) :
    Exists fun earlier => Exists fun middle => Exists fun reached =>
      process ∉ earlier ∧ Trace (Step sched) picks start earlier middle ∧ Step sched middle reached ∧
        picks middle reached = [process] := by
  rcases lawful.exists_left valid with ⟨rounds, state, simulates⟩
  have ended : line (.closing true, state) = [] :=
    ((simulates.invariant (Between script) (fun _ between => between.iteration valid lawful) valid.initial).2
      rfl).readyqueue
  have onward : Relation.ReflTransGen (Step sched) start (.closing true, state) := by
    rcases Relation.ReflTransGen.total_of_right_unique Step.unique reaches simulates.reaches with onward | back
    · exact onward
    · -- Nothing follows when the loop has been left.
      cases back.cases_head with
      | inl same => exact same ▸ .refl
      | inr further =>
          rcases further with ⟨next, step, _⟩
          cases step
  rcases Trace.of_reflTransGen picks onward with ⟨chosen, trace⟩
  have member : process ∈ chosen := by
    by_contra notChosen
    have still := Trace.stays lawful guarded reaches queued trace notChosen
    rw [ended] at still
    cases still
  exact trace.cut picks_length member

end Runs

/-! ## Round robin -/

section RoundRobin

variable {script : Script} {start final : Configuration} {chosen : List Nat}

/-- The first in the line is chosen. -/
private theorem Step.rr_scheduled {state : State} {after : Configuration} (tied : Tied (.forking [], state))
    (step : Step rrScheduler (.forking [], state) after) :
    picks (.forking [], state) after ++ line after = line (.forking [], state) := by
  rcases step.line_scheduled SchedulerName.rr.lawful with ⟨empty, left, none⟩ | ⟨best, picked, moved⟩
  · rw [none, left, empty, List.append_nil]
  · rcases rrScheduler_rotating.line_step tied step with ⟨none, _⟩ | ⟨first, picked', earliest, served⟩ | empty
    · rw [picked] at none
      cases none
    · rw [picked', served]
      cases waiting : line (.forking [], state) with
      | nil =>
          rw [waiting] at moved
          exact absurd moved.eq_nil (List.cons_ne_nil _ _)
      | cons head rest =>
          rw [waiting] at earliest
          rw [earliest.eq_head fun _ _ => Nat.le_refl 0, List.erase_cons_head]
          rfl
    · rw [empty] at moved
      exact absurd moved.eq_nil (List.cons_ne_nil _ _)

/-- Those who have been chosen and the line behind them are the line there was and
those who have joined it. -/
private theorem rr_line (reaches : Reaches rrScheduler script start)
    (trace : Trace (Step rrScheduler) picks start chosen final) :
    Exists fun joined => chosen ++ line final = line start ++ joined := by
  have along := trace.invariant
    (fun chosen reached => Tied reached ∧ Exists fun joined => chosen ++ line reached = line start ++ joined)
    ⟨reaches.tied SchedulerName.rr.lawful SchedulerName.rr.guarded, [], (List.append_nil _).symm⟩ (by
      rintro labels before after ⟨tied, joined, books⟩ step
      refine ⟨tied.step SchedulerName.rr.lawful SchedulerName.rr.guarded step, ?_⟩
      by_cases scheduling : Exists fun state => before = (.forking [], state)
      · rcases scheduling with ⟨state, rfl⟩
        refine ⟨joined, ?_⟩
        rw [List.append_assoc, step.rr_scheduled tied, books]
      · rcases step.line_joined SchedulerName.rr.lawful SchedulerName.rr.guarded tied
          fun state same => scheduling ⟨state, same⟩ with ⟨none, more, later⟩
        refine ⟨joined ++ more, ?_⟩
        rw [none, later, List.append_nil, ← List.append_assoc, books, List.append_assoc])
  exact along.2

/-- Round robin serves the ready queue in its order.  Whoever is in it is chosen when
those in front of it have been chosen, each of them once. -/
theorem rr_serves_in_order (valid : script.Valid) (reaches : Reaches rrScheduler script start) :
    (forall chosen final, Trace (Step rrScheduler) picks start chosen final ->
      Exists fun joined => chosen ++ line final = line start ++ joined) ∧
    forall front process behind, line start = front ++ process :: behind ->
      Exists fun reached => Trace (Step rrScheduler) picks start (front ++ [process]) reached := by
  refine ⟨fun chosen final trace => rr_line reaches trace, ?_⟩
  intro front process behind split
  have queued : process ∈ line start := split ▸ List.mem_append_right _ List.mem_cons_self
  rcases reaches.chosen valid SchedulerName.rr.lawful SchedulerName.rr.guarded queued with
    ⟨earlier, middle, reached, absent, trace, step, picked⟩
  have whole := trace.tail step
  rw [picked] at whole
  rcases rr_line reaches whole with ⟨joined, books⟩
  have alone := (reaches.tied SchedulerName.rr.lawful SchedulerName.rr.guarded).line_nodup
  rw [split] at books alone
  have notInFront : process ∉ front := fun member =>
    (List.nodup_append.mp alone).2.2 process member process List.mem_cons_self rfl
  rw [List.append_assoc, List.append_assoc, List.singleton_append, List.cons_append] at books
  -- Both lists have their first occurrence of the process at the same place.
  have places := congrArg (List.idxOf process) books
  rw [List.idxOf_append_of_notMem absent, List.idxOf_append_of_notMem notInFront, List.idxOf_cons_self,
    List.idxOf_cons_self] at places
  have same : earlier = front := List.append_inj_left books (Nat.add_right_cancel places)
  exact ⟨reached, same ▸ whole⟩

/-- Two processes that have been forked are chosen one after the other. -/
theorem rr_serves_in_order_crossing : Exists fun start => Exists fun reached =>
    Reaches rrScheduler crossing start ∧ line start = [0, 1] ∧
      Trace (Step rrScheduler) picks start [0, 1] reached := by
  have reaches : Reaches rrScheduler crossing (.forking [], forkOnSchedule crossing.initial) :=
    .head (.begin crossing.initial) (forking_steps _ crossing.initial)
  rcases (rr_serves_in_order crossing_valid reaches).2 [0] 1 [] rfl with ⟨reached, trace⟩
  exact ⟨_, reached, reaches, rfl, trace⟩

end RoundRobin

/-! ## Aging -/

/-- Nobody outside the line has more than `MAX_PRIO`, and above it the line thins
out. -/
structure Aging (script : Script) (configuration : Configuration) : Prop where
  outside : forall process, process ∉ line configuration -> (configuration.2.process process).prio ≤ maxPrio
  thinned : Thinned maxPrio script.length (fun process => (configuration.2.process process).prio) (line configuration)

section Aging

variable {script : Script} {before after start final : Configuration} {process : Nat} {chosen : List Nat}

/-- Only processes of the script are in the line. -/
theorem Sound.line_length (sound : Sound script before) (tied : Tied before) :
    (line before).length ≤ script.length := by
  have inside : forall process, process ∈ line before -> process ∈ List.range script.length := by
    intro process member
    apply List.mem_range.mpr
    cases sound with
    | closing between ended => exact between.invariant.placed.lt_length (State.queued_of_ready member)
    | @forking todo state between nodup members passed =>
        cases todo with
        | cons next todo => exact between.invariant.placed.lt_length (State.queued_of_ready member)
        | nil =>
            have sound := Sound.forking between nodup members passed
            apply sound.requeue_lt tied
            rw [State.requeue_readyqueue]
            exact member
    | acquiring acquiring => exact acquiring.invariant.placed.lt_length (State.queued_of_ready member)
    | releasing releasing => exact releasing.invariant.placed.lt_length (State.queued_of_ready member)
  have fewer := (List.subperm_of_subset tied.line_nodup inside).length_le
  rwa [List.length_range] at fewer

/-- What a moment of scheduling does to the priorities. -/
theorem Step.pa_scheduled {state : State} (tied : Tied (.forking [], state))
    (room : forall process, process ∈ line (.forking [], state) -> (state.process process).prio + 1 < Word.size)
    (step : Step paScheduler (.forking [], state) after) :
    (line (.forking [], state) = [] ∧ picks (.forking [], state) after = [] ∧ line after = [] ∧
      forall process, (after.2.process process).prio = (state.process process).prio) ∨
    Exists fun best => picks (.forking [], state) after = [best] ∧
      EarliestMax (fun process => (state.process process).prio) (line (.forking [], state)) best ∧
      line after = (line (.forking [], state)).erase best ∧
      (after.2.process best).prio = (state.process best).prioOrig ∧
      forall process, process ≠ best -> (after.2.process process).prio =
        boosted (line (.forking [], state)) (fun other => (state.process other).prio) process := by
  have queue : line (.forking [], state) = state.requeue.readyqueue := state.requeue_readyqueue.symm
  have prio := step.field_scheduled Process.prio_standing
  have answer : paScheduler.schedule state = paSchedule state := rfl
  rw [answer] at prio
  by_cases empty : state.requeue.readyqueue = []
  · left
    rw [paSchedule_idle empty] at prio
    refine ⟨queue.trans empty, ?_⟩
    rcases step.line_scheduled SchedulerName.pa.lawful with ⟨_, left, none⟩ | ⟨best, _, moved⟩
    · refine ⟨none, left, fun process => (prio process).trans ?_⟩
      dsimp only
      rw [State.requeue_process]
    · rw [queue, empty] at moved
      exact absurd moved.eq_nil (List.cons_ne_nil _ _)
  · right
    rcases paSchedule_promotes empty tied.requeue_nodup (queue ▸ room) with ⟨best, earliest, ran⟩
    rw [ran] at prio answer
    rw [queue]
    have effect : picks (.forking [], state) after = [best] ∧ line after = state.requeue.readyqueue.erase best := by
      cases step with
      | leave chosen retired empty => cases answer.symm.trans chosen
      | idle chosen retired waits => cases answer.symm.trans chosen
      | choose chosen retired unlinked =>
          cases answer.symm.trans chosen
          exact ⟨rfl, (retire_kept retired).readyqueue⟩
    refine ⟨best, effect.1, earliest, effect.2, ?_, ?_⟩
    · rw [prio]
      simp only [State.reprioritized, Function.update_self]
    · intro process different
      rw [prio]
      simp only [State.reprioritized, Function.update_of_ne different]

/-- One step, and what it does to somebody who waits and is not chosen. -/
theorem Aging.step (few : maxPrio + script.length < Word.size)
    (original : forall process, (before.2.process process).prioOrig ≤ maxPrio) (sound : Sound script after)
    (tied : Tied before) (tied' : Tied after) (aging : Aging script before) (step : Step paScheduler before after) :
    Aging script after ∧ forall process, process ∈ line before -> process ∉ picks before after ->
      (after.2.process process).prio = (before.2.process process).prio + (picks before after).length := by
  have short := sound.line_length tied'
  by_cases scheduling : Exists fun state => before = (.forking [], state)
  · rcases scheduling with ⟨state, rfl⟩
    have room : forall process, process ∈ line (.forking [], state) ->
        (state.process process).prio + 1 < Word.size := by
      intro process member
      have small := aging.thinned.key_lt member
      dsimp only at small
      omega
    rcases step.pa_scheduled tied room with
      ⟨empty, none, left, same⟩ | ⟨best, picked, earliest, served, reset, promoted⟩
    · refine ⟨⟨fun process _ => ?_, ?_⟩, fun process member => ?_⟩
      · rw [same]
        apply aging.outside process
        rw [empty]
        exact List.not_mem_nil
      · rw [left]
        exact .nil ..
      · rw [empty] at member
        cases member
    · refine ⟨⟨fun process absent => ?_, ?_⟩, fun process member absent => ?_⟩
      · by_cases same : process = best
        · rw [same, reset]
          exact original best
        · have outside : process ∉ line (.forking [], state) := fun member =>
            absent (served ▸ (List.mem_erase_of_ne same).mpr member)
          rw [promoted process same, boosted, if_neg outside]
          exact aging.outside process outside
      · rw [served]
        apply aging.thinned.serve earliest.mem fun process member => earliest.le process member
        intro process stays
        have different : process ≠ best := fun same => tied.line_nodup.not_mem_erase (same ▸ stays)
        rw [promoted process different, boosted, if_pos (List.mem_of_mem_erase stays)]
      · rw [picked] at absent ⊢
        rw [promoted process fun same => absent (List.mem_singleton.mpr same), boosted, if_pos member]
        rfl
  · have kept := step.field_kept Process.prio_standing (paScheduler_acquire Process.prio_standing)
      (paScheduler_release Process.prio_standing) fun state same => scheduling ⟨state, same⟩
    rcases step.line_joined SchedulerName.pa.lawful SchedulerName.pa.guarded tied
      fun state same => scheduling ⟨state, same⟩ with ⟨none, more, joined⟩
    refine ⟨⟨fun process absent => ?_, ?_⟩, fun process member absent => ?_⟩
    · rw [kept]
      exact aging.outside process fun member => absent (joined ▸ List.mem_append_left _ member)
    · have distinct := tied'.line_nodup
      rw [joined] at short distinct ⊢
      refine (aging.thinned.congr fun process _ => kept process).join short fun process later => ?_
      rw [kept]
      exact aging.outside process fun member => (List.nodup_append.mp distinct).2.2 process member process later rfl
    · rw [none, kept]
      rfl

/-- What is kept along the runs of the aging scheduler. -/
theorem Reaches.aging (valid : script.Valid)
    (prios : forall description, description ∈ script -> description.prio ≤ maxPrio)
    (few : maxPrio + script.length < Word.size) (reaches : Reaches paScheduler script start) :
    Aging script start := by
  induction reaches with
  | refl =>
      refine ⟨fun process _ => Script.description_prio prios process, ?_⟩
      exact .nil ..
  | @tail before after earlier step inductionHypothesis =>
      have reaches : Reaches paScheduler script before := earlier
      have further : Reaches paScheduler script after := earlier.tail step
      have sound := further.sound valid SchedulerName.pa.lawful
      have tied := reaches.tied SchedulerName.pa.lawful SchedulerName.pa.guarded
      have original := fun process => reaches.prioOrig process ▸ Script.description_prio prios process
      exact (inductionHypothesis.step few original
        sound tied (tied.step SchedulerName.pa.lawful SchedulerName.pa.guarded step) step).1

/-- While others are chosen, the priority of a process in the line goes up. -/
private theorem Trace.aging (valid : script.Valid)
    (prios : forall description, description ∈ script -> description.prio ≤ maxPrio)
    (few : maxPrio + script.length < Word.size) (reaches : Reaches paScheduler script start)
    (queued : process ∈ line start) (trace : Trace (Step paScheduler) picks start chosen final)
    (notChosen : process ∉ chosen) :
    (final.2.process process).prio = (start.2.process process).prio + chosen.length ∧
      (start.2.process process).prio + chosen.length < maxPrio + script.length := by
  have along := trace.invariant (fun chosen reached => Reaches paScheduler script reached ∧ (process ∉ chosen ->
      process ∈ line reached ∧
        (reached.2.process process).prio = (start.2.process process).prio + chosen.length))
    ⟨reaches, fun _ => ⟨queued, rfl⟩⟩ (by
      rintro labels before after ⟨reaches, grown⟩ step
      have further : Reaches paScheduler script after := Relation.ReflTransGen.tail reaches step
      refine ⟨further, fun absent => ?_⟩
      have unpicked : process ∉ picks before after := fun member => absent (List.mem_append_right _ member)
      rcases grown fun member => absent (List.mem_append_left _ member) with ⟨waits, prio⟩
      have sound := further.sound valid SchedulerName.pa.lawful
      have tied := reaches.tied SchedulerName.pa.lawful SchedulerName.pa.guarded
      have tied' := further.tied SchedulerName.pa.lawful SchedulerName.pa.guarded
      have original := fun process => reaches.prioOrig process ▸ Script.description_prio prios process
      have aging := reaches.aging valid prios few
      have promoted := (aging.step few original sound tied tied' step).2 process waits unpicked
      have stays := Trace.stays SchedulerName.pa.lawful SchedulerName.pa.guarded reaches waits
        (.tail .refl step) ((List.nil_append _).symm ▸ unpicked)
      refine ⟨stays, ?_⟩
      rw [promoted, prio, List.length_append, Nat.add_assoc])
  rcases along.2 notChosen with ⟨waits, prio⟩
  have small := (along.1.aging valid prios few).thinned.key_lt waits
  exact ⟨prio, prio ▸ small⟩

/-- Under aging nobody starves.  With priorities up to `MAX_PRIO` in the script no
priority reaches `MAX_PRIO` and the number of processes together.  A process in the
ready queue goes up by one for each other process that is chosen, so that it is
chosen before that happens. -/
theorem aging_serves (valid : script.Valid)
    (prios : forall description, description ∈ script -> description.prio ≤ maxPrio)
    (few : maxPrio + script.length < Word.size) (reaches : Reaches paScheduler script start) :
    (forall process, process < script.length -> (start.2.process process).prio < maxPrio + script.length) ∧
    forall process, process ∈ line start ->
      (forall chosen final, Trace (Step paScheduler) picks start chosen final -> process ∉ chosen ->
        (final.2.process process).prio = (start.2.process process).prio + chosen.length) ∧
      Exists fun earlier => Exists fun reached => process ∉ earlier ∧
        Trace (Step paScheduler) picks start (earlier ++ [process]) reached ∧
          (start.2.process process).prio + earlier.length < maxPrio + script.length := by
  have aging := reaches.aging valid prios few
  refine ⟨fun process inside => ?_, fun process queued => ⟨fun chosen final trace notChosen => ?_, ?_⟩⟩
  · by_cases waits : process ∈ line start
    · exact aging.thinned.key_lt waits
    · have small := aging.outside process waits
      omega
  · exact (Trace.aging valid prios few reaches queued trace notChosen).1
  · rcases reaches.chosen valid SchedulerName.pa.lawful SchedulerName.pa.guarded queued with
      ⟨earlier, middle, reached, absent, trace, step, picked⟩
    have whole := trace.tail step
    rw [picked] at whole
    exact ⟨earlier, reached, absent, whole, (Trace.aging valid prios few reaches queued trace absent).2⟩

/-- A long process of the largest priority and a short one of the smallest. -/
def starving : Script := [⟨1, 100, 64, 0, []⟩, ⟨2, 2, 0, 0, []⟩]

theorem aging_serves_starving : Exists fun start => Exists fun earlier => Exists fun reached =>
    Reaches paScheduler starving start ∧ 1 ∈ line start ∧ 1 ∉ earlier ∧
      Trace (Step paScheduler) picks start (earlier ++ [1]) reached ∧ earlier.length < 66 := by
  have reaches : Reaches paScheduler starving (.forking [], forkOnSchedule starving.initial) :=
    .head (.begin starving.initial) (forking_steps _ starving.initial)
  have queued : 1 ∈ line (.forking [], forkOnSchedule starving.initial) := by decide
  have serves := aging_serves (by decide) (by decide) (by decide) reaches
  rcases (serves.2 1 queued).2 with ⟨earlier, reached, absent, trace, soon⟩
  exact ⟨_, earlier, reached, reaches, queued, absent, trace, Nat.lt_of_le_of_lt (Nat.le_add_left _ _) soon⟩

end Aging

end Sched
end OsPa
