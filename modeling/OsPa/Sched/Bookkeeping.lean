import OsPa.Sched.Steps
import OsPa.Sched.WakeUp

namespace OsPa
namespace Sched

open Library

/-!
# The accounts of the resources

Each entry of a script is to be acquired, or held, or over.  The two lists of a
process account for the first two, and what has been printed accounts for the
last.  An entry that is held is compared with the script by adding up what is
left of it and the age of the process.  In the middle of the release loop this is
the new age for the entries that have been counted down and the old one for the
others.
-/

/-- How often a process was granted a resource. -/
def State.granted (state : State) (process resourceId : Nat) : Nat :=
  state.stderr.countP fun printed => printed.2 = .acquired process resourceId

/-- How often a process gave a resource back. -/
def State.returned (state : State) (process resourceId : Nat) : Nat :=
  state.stderr.countP fun printed => printed.2 = .released process resourceId

/-- How often a resource occurs in a list of entries. -/
def occurrences (resourceId : Nat) (entries : List ResourceSchedule) : Nat :=
  entries.countP fun rs => rs.resourceId = resourceId

/-- The entries of a script by what has become of them. -/
structure Booked (acquires : List ResourceSchedule) (age : Nat) (granted returned : Nat -> Nat)
    (pending holding spent : List ResourceSchedule) : Prop where
  entries : (pending ++ (holding ++ spent)).Perm acquires
  elapsed : forall rs, rs ∈ spent -> rs.at_ + rs.duration ≤ age
  granted : forall resourceId, granted resourceId = occurrences resourceId holding + occurrences resourceId spent
  returned : forall resourceId, returned resourceId = occurrences resourceId spent

/-- The entries of the script that a process holds. -/
def Phase.holding (phase : Phase) (process : Nat) (record : Process) : List ResourceSchedule :=
  match phase with
  | .releasing current kept todo =>
      if process = current then
        kept.map (ResourceSchedule.restore record.age) ++ todo.map (ResourceSchedule.restore (record.age - 1))
      else record.resourcesHolding.map (ResourceSchedule.restore record.age)
  | _ => record.resourcesHolding.map (ResourceSchedule.restore record.age)

def Balanced (script : Script) (configuration : Configuration) : Prop :=
  forall process, Exists fun spent =>
    Booked (script.description process).acquires (configuration.2.process process).age
      (configuration.2.granted process) (configuration.2.returned process)
      (configuration.2.process process).resourcesToAcquire
      (configuration.1.holding process (configuration.2.process process)) spent

section Occurrences

variable (resourceId : Nat) (first second : List ResourceSchedule) (rs : ResourceSchedule)

theorem occurrences_append :
    occurrences resourceId (first ++ second) = occurrences resourceId first + occurrences resourceId second :=
  List.countP_append

private theorem occurrences_singleton : occurrences resourceId [rs] = if rs.resourceId = resourceId then 1 else 0 := by
  unfold occurrences
  rw [List.countP_singleton]
  simp only [decide_eq_true_eq]

end Occurrences

section Printed

variable {before after : Configuration} {events : List Event}

theorem Move.granted (move : Move before events after) (process resourceId : Nat) :
    after.2.granted process resourceId =
      before.2.granted process resourceId + events.count (.acquired process resourceId) := by
  unfold State.granted
  rw [move.stderr, List.countP_append, List.countP_map, List.count_eq_countP]
  rfl

theorem Move.returned (move : Move before events after) (process resourceId : Nat) :
    after.2.returned process resourceId =
      before.2.returned process resourceId + events.count (.released process resourceId) := by
  unfold State.returned
  rw [move.stderr, List.countP_append, List.countP_map, List.count_eq_countP]
  rfl

end Printed

section Preservation

variable {script : Script} {before after : Configuration} {events : List Event}

/-- The accounts do not change, but for the age of the process. -/
theorem Booked.quiet {acquires pending holding spent : List ResourceSchedule} {age older : Nat}
    {granted returned : Nat -> Nat} (booked : Booked acquires age granted returned pending holding spent)
    (grows : age ≤ older) : Booked acquires older granted returned pending holding spent :=
  ⟨booked.entries, fun rs member => Nat.le_trans (booked.elapsed rs member) grows, booked.granted, booked.returned⟩

/-- A due entry moves from what is pending to what is held. -/
theorem Booked.take {acquires kept todo holding spent : List ResourceSchedule} {age : Nat}
    {granted returned granted' : Nat -> Nat} {rs : ResourceSchedule}
    (booked : Booked acquires age granted returned (kept ++ rs :: todo) holding spent)
    (counts : forall resourceId, granted' resourceId = granted resourceId + occurrences resourceId [rs]) :
    Booked acquires age granted' returned (kept ++ todo) (holding ++ [rs]) spent := by
  refine ⟨?_, booked.elapsed, ?_, booked.returned⟩
  · have moved : (kept ++ todo ++ (holding ++ [rs] ++ spent)).Perm (kept ++ rs :: todo ++ (holding ++ spent)) := by
      have last : (holding ++ rs :: spent).Perm (rs :: (holding ++ spent)) := List.perm_middle
      rw [List.append_assoc holding, List.singleton_append]
      apply (last.append_left (kept ++ todo)).trans
      apply List.perm_middle.trans
      rw [← List.cons_append]
      exact (List.perm_middle.symm).append_right _
    exact moved.trans booked.entries
  · intro resourceId
    rw [counts, booked.granted, occurrences_append]
    omega

/-- An entry whose time has come is over. -/
theorem Booked.expire {acquires pending kept todo spent : List ResourceSchedule} {age : Nat}
    {granted returned returned' : Nat -> Nat} {rs : ResourceSchedule}
    (booked : Booked acquires age granted returned pending (kept ++ rs :: todo) spent)
    (elapsed : rs.at_ + rs.duration ≤ age)
    (counts : forall resourceId, returned' resourceId = returned resourceId + occurrences resourceId [rs]) :
    Booked acquires age granted returned' pending (kept ++ todo) (rs :: spent) := by
  have split : rs :: spent = [rs] ++ spent := rfl
  refine ⟨?_, ?_, ?_, ?_⟩
  · apply List.Perm.trans _ booked.entries
    apply List.Perm.append_left
    apply List.perm_middle.trans
    rw [← List.cons_append]
    exact (List.perm_middle.symm).append_right _
  · intro other member
    rcases List.mem_cons.mp member with same | earlier
    · rw [same]
      exact elapsed
    · exact booked.elapsed other earlier
  · intro resourceId
    have middle : kept ++ rs :: todo = kept ++ ([rs] ++ todo) := rfl
    rw [booked.granted, middle, split]
    simp only [occurrences_append]
    omega
  · intro resourceId
    rw [counts, booked.returned, split, occurrences_append]
    omega

/-- What is said about others is about nobody's resources. -/
private theorem State.farewell_quiet (state : State) (process resourceId : Nat) :
    state.farewell.count (.acquired process resourceId) = 0 ∧
      state.farewell.count (.released process resourceId) = 0 := by
  unfold State.farewell
  split
  · exact ⟨rfl, rfl⟩
  · split <;> exact ⟨rfl, rfl⟩

/-- Only the process that acts acquires or releases something. -/
theorem Move.unbooked (move : Move before events after) {process : Nat} (other : before.1.actor ≠ some process)
    (resourceId : Nat) :
    events.count (.acquired process resourceId) = 0 ∧ events.count (.released process resourceId) = 0 := by
  have notActor : forall {current : Nat}, some current ≠ some process -> current ≠ process :=
    fun different same => different (congrArg some same)
  cases move with
  | begin state => exact ⟨rfl, rfl⟩
  | wait early => exact ⟨rfl, rfl⟩
  | fork arrived => exact ⟨rfl, rfl⟩
  | @leave prio state ready forks => exact state.farewell_quiet process resourceId
  | @idle prio state ready forks =>
      rw [List.count_append, List.count_append]
      exact state.farewell_quiet process resourceId
  | @choose prio state current readyqueue moved => exact state.farewell_quiet process resourceId
  | pass notDue => exact ⟨rfl, rfl⟩
  | grant prio isDue indexed free => exact ⟨by simp [notActor other], rfl⟩
  | refuse prio isDue indexed owned => exact ⟨rfl, rfl⟩
  | grow current kept state => exact ⟨rfl, rfl⟩
  | keep remains => exact ⟨rfl, rfl⟩
  | release expires indexed released => exact ⟨rfl, by simp [notActor other]⟩
  | finish current kept state => exact ⟨rfl, rfl⟩

theorem Phase.holding_of_other {phase : Phase} {process : Nat} (other : phase.actor ≠ some process)
    (record : Process) :
    phase.holding process record = record.resourcesHolding.map (ResourceSchedule.restore record.age) := by
  cases phase with
  | closing left => rfl
  | forking todo => rfl
  | acquiring current kept todo => rfl
  | releasing current kept todo => exact if_neg fun same => other (congrArg some same.symm)

/-- After a step, too. -/
theorem Move.holding_of_other (move : Move before events after) {process : Nat}
    (other : before.1.actor ≠ some process) (record : Process) :
    after.1.holding process record = record.resourcesHolding.map (ResourceSchedule.restore record.age) := by
  cases move with
  | choose prio moved => rfl
  | pass notDue => rfl
  | grant prio isDue indexed free => rfl
  | grow current kept state => exact if_neg fun same => other (congrArg some same.symm)
  | keep remains => exact if_neg fun same => other (congrArg some same.symm)
  | release expires indexed released => exact if_neg fun same => other (congrArg some same.symm)
  | _ => exact Phase.holding_of_other (fun never => Option.some_ne_none _ never.symm) record

/-- The entries in front of the release loop are those of one tick before. -/
theorem Phase.holding_releasing (current : Nat) (kept todo : List ResourceSchedule) (record : Process) :
    (Phase.releasing current kept todo).holding current record =
      kept.map (ResourceSchedule.restore record.age) ++ todo.map (ResourceSchedule.restore (record.age - 1)) :=
  if_pos rfl

private theorem count_event (event : Event) (rs : ResourceSchedule) (make : Nat -> Event) (resourceId : Nat)
    (made : event = make rs.resourceId) (injective : make.Injective) :
    [event].count (make resourceId) = occurrences resourceId [rs] := by
  rw [made, occurrences_singleton, List.count_singleton]
  simp only [beq_iff_eq, injective.eq_iff]

/-- What a process has to acquire and what it holds is only changed by granting it a
resource and by releasing one. -/
inductive Transfer (process : Nat) : Configuration -> List Event -> Configuration -> Prop
  | same {before after : Configuration} {events : List Event}
      (pending : (after.2.process process).resourcesToAcquire = (before.2.process process).resourcesToAcquire)
      (holding : after.1.holding process (after.2.process process) =
        before.1.holding process (before.2.process process))
      (unbooked : forall resourceId, events.count (.acquired process resourceId) = 0 ∧
        events.count (.released process resourceId) = 0) : Transfer process before events after
  | grant {kept todo : List ResourceSchedule} {rs : ResourceSchedule} {state after : State}
      (isDue : rs.at_ = (state.process process).age)
      (asked : (state.process process).resourcesToAcquire = kept ++ rs :: todo)
      (pending : (after.process process).resourcesToAcquire = kept ++ todo)
      (holding : (Phase.acquiring process kept todo).holding process (after.process process) =
        (Phase.acquiring process kept (rs :: todo)).holding process (state.process process) ++ [rs]) :
      Transfer process (.acquiring process kept (rs :: todo), state) [.acquired process rs.resourceId]
        (.acquiring process kept todo, after)
  | release {kept todo earlier later : List ResourceSchedule} {rs entry : ResourceSchedule} {state after : State}
      (expires : rs.countDown.duration = 0)
      (elapsed : entry.at_ + entry.duration = (state.process process).age)
      (same : entry.resourceId = rs.resourceId)
      (pending : (after.process process).resourcesToAcquire = (state.process process).resourcesToAcquire)
      (held : (Phase.releasing process kept (rs :: todo)).holding process (state.process process) =
        earlier ++ entry :: later)
      (holding : (Phase.releasing process kept todo).holding process (after.process process) = earlier ++ later) :
      Transfer process (.releasing process kept (rs :: todo), state) [.released process rs.resourceId]
        (.releasing process kept todo, after)

theorem Move.transfer (sound : Sound script before) (move : Move before events after) (process : Nat) :
    Transfer process before events after := by
  cases move.change process with
  | other idle changed =>
      refine .same (by rw [changed]) ?_ (move.unbooked idle)
      rw [Phase.holding_of_other idle, move.holding_of_other idle, changed]
  | pass changed => exact .same (by rw [changed]) (by rw [changed]; rfl) fun _ => ⟨rfl, rfl⟩
  | refuse changed => exact .same (by rw [changed]) (by rw [changed]; rfl) fun _ => ⟨rfl, rfl⟩
  | @grant kept todo rs state after prio isDue changed =>
      cases sound with
      | acquiring acquiring =>
          refine .grant isDue acquiring.resources (by rw [changed]; rfl) ?_
          have held : ((state.process process).resourcesHolding ++ [rs]).map
              (ResourceSchedule.restore (state.process process).age) =
                (state.process process).resourcesHolding.map (ResourceSchedule.restore (state.process process).age) ++
                  [rs] := by
            rw [List.map_append, List.map_singleton, ResourceSchedule.restore_of_due isDue]
          rw [changed]
          exact held
  | grow changed =>
      refine .same (by rw [changed]; rfl) ?_ fun _ => ⟨rfl, rfl⟩
      rw [Phase.holding_releasing, changed]
      rfl
  | @keep kept todo rs state after changed =>
      cases sound with
      | releasing releasing =>
          have begun := releasing.counting.todo rs List.mem_cons_self
          refine .same (by rw [changed]; rfl) ?_ fun _ => ⟨rfl, rfl⟩
          have age : (after.process process).age = (state.process process).age := by rw [changed]; rfl
          rw [Phase.holding_releasing, Phase.holding_releasing, age, List.map_append, List.map_singleton,
            List.append_assoc, ResourceSchedule.restore_countDown begun.1 begun.2]
          rfl
  | @release kept todo rs state after status prio expires changed =>
      cases sound with
      | releasing releasing =>
          have begun := releasing.counting.todo rs List.mem_cons_self
          have last : rs.duration = 1 := by
            have counted : Word.pred rs.duration = 0 := expires
            rw [Word.pred_of_pos begun.2] at counted
            omega
          have elapsed : (rs.restore ((state.process process).age - 1)).at_ +
              (rs.restore ((state.process process).age - 1)).duration = (state.process process).age := by
            dsimp only [ResourceSchedule.restore]
            omega
          have age : (after.process process).age = (state.process process).age := by rw [changed]; rfl
          refine .release expires elapsed rfl (by rw [changed]; rfl) (Phase.holding_releasing ..) ?_
          rw [Phase.holding_releasing, age]
  | @finish kept state after changed =>
      cases sound with
      | releasing releasing =>
          have holding := releasing.resources
          rw [List.append_nil] at holding
          refine .same (by rw [changed]) ?_ fun _ => ⟨rfl, rfl⟩
          rw [Phase.holding_releasing, changed, List.map_nil, List.append_nil, ← holding]
          rfl

theorem Balanced.move (sound : Sound script before) (balanced : Balanced script before)
    (move : Move before events after) : Balanced script after := by
  intro process
  rcases balanced process with ⟨spent, booked⟩
  have granted : after.2.granted process = fun resourceId =>
      before.2.granted process resourceId + events.count (.acquired process resourceId) :=
    funext (move.granted process)
  have returned : after.2.returned process = fun resourceId =>
      before.2.returned process resourceId + events.count (.released process resourceId) :=
    funext (move.returned process)
  have older : (before.2.process process).age ≤ (after.2.process process).age :=
    (move.aged process).age ▸ Nat.le_add_right _ _
  have transfer := move.transfer sound process
  rw [granted, returned]
  cases transfer with
  | same pending holding unbooked =>
      refine ⟨spent, ?_⟩
      simp only [pending, holding, unbooked, Nat.add_zero]
      exact booked.quiet older
  | @grant kept todo rs state _ isDue asked pending holding =>
      refine ⟨spent, ?_⟩
      dsimp only at booked older ⊢
      rw [asked] at booked
      rw [pending, holding]
      have taken := (booked.quiet older).take fun resourceId => congrArg (state.granted process resourceId + ·)
        (count_event _ rs (Event.acquired process) resourceId rfl fun _ _ same => (Event.acquired.inj same).2)
      exact taken
  | @release kept todo earlier later rs entry state _ expires elapsed same pending held holding =>
      refine ⟨entry :: spent, ?_⟩
      dsimp only at booked older ⊢
      rw [held] at booked
      rw [pending, holding]
      have expired := (booked.quiet older).expire (elapsed.le.trans older) fun resourceId =>
        congrArg (state.returned process resourceId + ·)
          (count_event _ entry (Event.released process) resourceId (congrArg _ same.symm)
            fun _ _ same => (Event.released.inj same).2)
      exact expired

theorem Balanced.initial (script : Script) : Balanced script (.closing false, script.initial) := by
  intro process
  have pending : (script.initial.process process).resourcesToAcquire ++ (([] : List ResourceSchedule) ++ []) =
      (script.description process).acquires := List.append_nil _
  refine ⟨[], ?_, fun _ never => absurd never List.not_mem_nil, fun _ => rfl, fun _ => rfl⟩
  exact List.Perm.of_eq pending

end Preservation

/-! ## Between the rounds -/

/-- The accounts at the beginning of a round. -/
structure Accounted (script : Script) (state : State) : Prop where
  owner : forall (r : Fin nrResources) process, state.owner r = some process ↔
    Exists fun rs => rs ∈ (state.process process).resourcesHolding ∧ rs.resourceId = r.val
  unique : forall (r : Fin nrResources) process, (state.process process).holds r ≤ 1 ∧
    forall other, 0 < (state.process process).holds r -> 0 < (state.process other).holds r -> other = process
  lasting : forall process rs, rs ∈ (state.process process).resourcesHolding ->
    rs.resourceId < nrResources ∧ rs.at_ ≤ (state.process process).age ∧ 0 < rs.duration ∧
      Exists fun scripted => scripted ∈ (script.description process).acquires ∧
        scripted.resourceId = rs.resourceId ∧ scripted.at_ = rs.at_ ∧
          rs.duration = scripted.at_ + scripted.duration - (state.process process).age
  pending : forall process rs, rs ∈ (state.process process).resourcesToAcquire -> (state.process process).age ≤ rs.at_
  booked : forall process, Booked (script.description process).acquires (state.process process).age
    (state.granted process) (state.returned process) (state.process process).resourcesToAcquire
    ((state.process process).resourcesHolding.map (ResourceSchedule.restore (state.process process).age))
    ((script.description process).acquires.filter fun rs => rs.at_ + rs.duration ≤ (state.process process).age)

section Rounds

variable {script : Script} {state : State}

/-- Who owns a resource holds it, and who holds it owns it. -/
theorem Owned.iff (owned : Owned state) (r : Fin nrResources) (process : Nat) :
    state.owner r = some process ↔
      Exists fun rs => rs ∈ (state.process process).resourcesHolding ∧ rs.resourceId = r.val := by
  constructor
  · exact fun owns => owned.holding owns
  · rintro ⟨rs, member, same⟩
    have positive : 0 < (state.process process).holds r := List.countP_pos_iff.mpr ⟨rs, member, decide_eq_true same⟩
    have holds := owned r process
    by_contra unowned
    rw [if_neg unowned] at holds
    omega

private theorem Owned.unique (owned : Owned state) (r : Fin nrResources) (process : Nat) :
    (state.process process).holds r ≤ 1 ∧
      forall other, 0 < (state.process process).holds r -> 0 < (state.process other).holds r -> other = process := by
  have owner : forall {process}, 0 < (state.process process).holds r -> state.owner r = some process := by
    intro process positive
    by_contra unowned
    rw [owned r process, if_neg unowned] at positive
    exact Nat.lt_irrefl 0 positive
  constructor
  · rw [owned r process]
    split
    · exact Nat.le_refl 1
    · exact Nat.zero_le 1
  · intro other holds holds'
    exact Option.some.inj ((owner holds').symm.trans (owner holds))

/-- The entries that are over are the ones whose time has come. -/
private theorem Booked.spent_perm {description : Description} (valid : description.Valid) {age : Nat}
    {granted returned : Nat -> Nat} {held pending spent : List ResourceSchedule}
    (punctual : Punctual description.acquires age held pending)
    (booked : Booked description.acquires age granted returned pending
      (held.map (ResourceSchedule.restore age)) spent) :
    spent.Perm (description.acquires.filter fun rs => rs.at_ + rs.duration ≤ age) := by
  have filtered := booked.entries.filter fun rs => rs.at_ + rs.duration ≤ age
  rw [List.filter_append, List.filter_append] at filtered
  have noPending : pending.filter (fun rs => rs.at_ + rs.duration ≤ age) = [] := by
    apply List.filter_eq_nil_iff.mpr
    intro rs member elapsed
    have ahead := punctual.pending rs member
    have lasts := valid.duration rs (punctual.pending_mem member)
    have before := of_decide_eq_true elapsed
    omega
  have noHeld : (held.map (ResourceSchedule.restore age)).filter (fun rs => rs.at_ + rs.duration ≤ age) = [] := by
    apply List.filter_eq_nil_iff.mpr
    intro rs member elapsed
    rcases List.mem_map.mp member with ⟨left, holds, rfl⟩
    have begun := punctual.held left holds
    have before := of_decide_eq_true elapsed
    dsimp only [ResourceSchedule.restore] at before
    omega
  have all : spent.filter (fun rs => rs.at_ + rs.duration ≤ age) = spent := by
    apply List.filter_eq_self.mpr
    exact fun rs member => decide_eq_true (booked.elapsed rs member)
  rw [noPending, noHeld, all, List.nil_append, List.nil_append] at filtered
  exact filtered

/-- What is over may be listed in another order. -/
private theorem Booked.perm {acquires pending holding spent spent' : List ResourceSchedule} {age : Nat}
    {granted returned : Nat -> Nat} (booked : Booked acquires age granted returned pending holding spent)
    (same : spent.Perm spent') : Booked acquires age granted returned pending holding spent' := by
  refine ⟨?_, ?_, ?_, ?_⟩
  · exact ((same.symm.append_left holding).append_left pending).trans booked.entries
  · exact fun rs member => booked.elapsed rs (same.symm.subset member)
  · intro resourceId
    rw [booked.granted]
    exact congrArg _ (same.countP_eq _)
  · intro resourceId
    rw [booked.returned]
    exact same.countP_eq _

/-- A process outside of the script has no accounts. -/
private theorem Script.description_valid (valid : script.Valid) (process : Nat) :
    (script.description process).acquires = [] ∨ (script.description process).Valid := by
  by_cases inside : process < script.length
  · exact Or.inr (valid.description inside)
  · refine Or.inl ?_
    apply List.eq_nil_iff_forall_not_mem.mpr
    exact fun rs member => inside (Script.lt_length_of_acquire member)

private theorem Between.accounted (valid : script.Valid) {left : Bool} (between : Between script state)
    (balanced : Balanced script (.closing left, state)) : Accounted script state := by
  constructor
  case owner => exact between.invariant.owned.iff
  case unique => exact between.invariant.owned.unique
  case pending => exact fun process => (between.punctual process).pending
  case lasting =>
    intro process rs member
    have punctual := between.punctual process
    have begun := punctual.held rs member
    have scripted := punctual.restore_mem member
    have description := valid.description (Script.lt_length_of_acquire scripted)
    refine ⟨description.resourceId (rs.restore (state.process process).age) scripted, begun.1, begun.2, _, scripted,
      rfl, rfl, ?_⟩
    dsimp only [ResourceSchedule.restore]
    omega
  case booked =>
    intro process
    rcases balanced process with ⟨spent, booked⟩
    apply booked.perm
    rcases Script.description_valid valid process with none | description
    · have entries := booked.entries
      rw [none] at entries ⊢
      have empty := entries.eq_nil
      rw [List.append_eq_nil_iff, List.append_eq_nil_iff] at empty
      rw [empty.2.2]
      exact List.Perm.refl _
    · exact Booked.spent_perm description (between.punctual process) booked

end Rounds

/-- What a step grants was due, and what it gives back has lasted as long as the
script says. -/
private theorem Move.timely {script : Script} {before after : Configuration} {events : List Event}
    (sound : Sound script before) (balanced : Balanced script before) (move : Move before events after)
    (process resourceId : Nat) :
    (before.2.granted process resourceId < after.2.granted process resourceId ->
      Exists fun rs => rs ∈ (before.2.process process).resourcesToAcquire ∧ rs.resourceId = resourceId ∧
        rs.at_ = (before.2.process process).age) ∧
    (before.2.returned process resourceId < after.2.returned process resourceId ->
      Exists fun rs => rs ∈ (script.description process).acquires ∧ rs.resourceId = resourceId ∧
        rs.at_ + rs.duration = (before.2.process process).age) := by
  rcases balanced process with ⟨spent, booked⟩
  have transfer := move.transfer sound process
  rw [move.granted, move.returned]
  cases transfer with
  | same pending holding unbooked =>
      rw [(unbooked resourceId).1, (unbooked resourceId).2]
      exact ⟨fun never => absurd never (Nat.lt_irrefl _), fun never => absurd never (Nat.lt_irrefl _)⟩
  | @grant kept todo rs state _ isDue asked pending holding =>
      constructor
      · intro more
        have printed : Event.acquired process resourceId ∈ [Event.acquired process rs.resourceId] :=
          List.count_pos_iff.mp (by omega)
        refine ⟨rs, ?_, (Event.acquired.inj (List.mem_singleton.mp printed)).2.symm, isDue⟩
        exact asked ▸ List.mem_append_right _ List.mem_cons_self
      · exact fun never => absurd never (Nat.lt_irrefl _)
  | @release kept todo earlier later rs entry state _ expires elapsed same pending held holding =>
      constructor
      · exact fun never => absurd never (Nat.lt_irrefl _)
      · intro more
        have printed : Event.released process resourceId ∈ [Event.released process rs.resourceId] :=
          List.count_pos_iff.mp (by omega)
        refine ⟨entry, ?_, same.trans (Event.released.inj (List.mem_singleton.mp printed)).2.symm, elapsed⟩
        apply booked.entries.subset
        dsimp only
        rw [held]
        simp only [List.mem_append, List.mem_cons, true_or, or_true]

/-- At the beginning of each round the entries of the script are accounted for. -/
theorem resources_accounted (name : SchedulerName) {script : Script} (valid : script.Valid) :
    (forall rounds left state, Simulates name.scheduler script rounds left state -> Accounted script state) ∧
    forall before after, Reaches name.scheduler script before -> Step name.scheduler before after ->
      forall process resourceId,
        (before.2.granted process resourceId < after.2.granted process resourceId ->
          Exists fun rs => rs ∈ (before.2.process process).resourcesToAcquire ∧ rs.resourceId = resourceId ∧
            rs.at_ = (before.2.process process).age) ∧
        (before.2.returned process resourceId < after.2.returned process resourceId ->
          Exists fun rs => rs ∈ (script.description process).acquires ∧ rs.resourceId = resourceId ∧
            rs.at_ + rs.duration = (before.2.process process).age) := by
  constructor
  · intro rounds left state simulates
    have reached := simulates.reaches.invariant valid name.lawful (Balanced.initial script) Balanced.move
    exact (simulates.between name valid).1.accounted valid reached.2
  · intro before after reaches step process resourceId
    have reached := reaches.invariant valid name.lawful (Balanced.initial script) Balanced.move
    rcases step.move valid name.lawful reached.1 with ⟨events, move⟩
    exact move.timely reached.1 reached.2 process resourceId

theorem resources_accounted_crossing : Exists fun state =>
    Simulates rrScheduler crossing 4 false state ∧ Accounted crossing state := by
  have simulates : Simulates rrScheduler crossing 4 false _ := ⟨_, rfl, rfl⟩
  exact ⟨_, simulates, (resources_accounted .rr crossing_valid).1 4 false _ simulates⟩

end Sched
end OsPa
