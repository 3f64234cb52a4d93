import OsPa.Vm.Coherence
import OsPa.Vm.Permissions
import OsPa.Vm.Tlb

namespace OsPa
namespace Vm

open Library Framework

/-!
# Running with and without the TLB

While the TLB is coherent, a command has the same outcome with `-t` and without
it, and leaves the TLB coherent.  There is one exception: `free_page` clears
the first entry for the page only.  When there are two, the second one stays
valid and supplies the freed frame to later reads.
-/

/-- What an access comes to, whoever supplied the frame. -/
def Access.outcome : Access -> Access
  | .translated pfn _ => .translated pfn false
  | .handled => .handled
  | .denied => .denied

/-- What a command comes to, whoever supplied the frame. -/
def Event.outcome : Event -> Event
  | .accessed access => .accessed access.outcome
  | event => event

theorem Event.stops_outcome (event : Event) : event.outcome.stops = event.stops := by
  cases event <;> rfl

/-- Two states that a step with the TLB and one without it may lead to. -/
structure Alike (cached plain : State) : Prop where
  same : plain.withoutTlb = cached.withoutTlb
  coherent : FullyCoherent cached
  wellFormed : WellFormed cached

theorem Alike.refl {state : State} (coherent : FullyCoherent state) (wellFormed : WellFormed state) :
    Alike state state :=
  ⟨rfl, coherent, wellFormed⟩

/-- States that differ in the TLB only. -/
theorem Retagged.of_withoutTlb {before after : State} (same : after.withoutTlb = before.withoutTlb) :
    Retagged before after := by
  have process := congrArg State.process same
  have pid : forall index, (after.process index).pid = (before.process index).pid :=
    fun index => congrArg (fun blocks => Process.pid (blocks index)) process
  have nrProcesses := congrArg State.nrProcesses same
  have current := congrArg State.current same
  have processes := congrArg State.processes same
  have ptbr := congrArg State.ptbr same
  have mapcounts := congrArg State.mapcounts same
  exact ⟨⟨nrProcesses, current, processes, ptbr, pid⟩, process, mapcounts⟩

theorem insertTlb_withoutTlb (vpn rw pfn : Nat) (state : State) :
    (insertTlb vpn rw pfn state).withoutTlb = state.withoutTlb := by
  unfold insertTlb
  split
  · rfl
  · split <;> rfl

/-! ## Translations -/

/-- A translation with the TLB and one without it, from one state. -/
inductive TranslatedAlike (rw vpn : Nat) (state : State) : Prop
  | fault (fault : Fault) (cached : Framework.translate true rw vpn state = .error fault)
      (plain : Framework.translate false rw vpn state = .error fault)
  | missed (cached : Framework.translate true rw vpn state = .ok (none, state))
      (plain : Framework.translate false rw vpn state = .ok (none, state)) (notCached : lookupTlb vpn rw state = none)
  | served (pfn : Nat) (fromTlb : Bool) (after : State)
      (cached : Framework.translate true rw vpn state = .ok (some (pfn, fromTlb), after))
      (plain : Framework.translate false rw vpn state = .ok (some (pfn, false), state))
      (same : after.withoutTlb = state.withoutTlb) (coherent : FullyCoherent after)
      (single : rw = accessRead -> state.SingleEntry vpn -> after.SingleEntry vpn)

/-- A page walk after a failed lookup. -/
theorem translated_of_walk {rw vpn : Nat} {state : State} {directory : Fin nrPdesPerPage}
    (coherent : Coherent (· ≠ vpn) state) (wellFormed : WellFormed state)
    (readOnly : forall i, state.tags i = some vpn -> (state.tlb i).rw = 1)
    (indexed : pdeIndex vpn = some directory) (notCached : lookupTlb vpn rw state = none)
    (valid : (state.page state.current vpn).valid = true)
    (allowed : ¬ (rw &&& accessWrite ≠ 0 ∧ (state.page state.current vpn).rw &&& accessWrite = 0)) :
    TranslatedAlike rw vpn state := by
  have page := State.page_of_indexed indexed state state.current
  have flags := wellFormed.page_rw valid
  have inserted := coherent.inserted readOnly valid flags
  refine TranslatedAlike.served (state.page state.current vpn).pfn false _ ?_ ?_
    (insertTlb_withoutTlb vpn (state.page state.current vpn).rw _ state) inserted ?_
  · rw [translate_walk indexed wellFormed.ptbr fun _ => notCached, ← page, if_pos ⟨valid, allowed⟩, if_pos rfl]
  · rw [translate_uncached indexed wellFormed.ptbr, ← page, if_pos ⟨valid, allowed⟩]
  · rintro rfl _
    exact SingleEntry.insertTlb (coherent.ordered.untagged_of_read notCached) _ _

theorem translate_alike (rw vpn : Nat) {state : State} (coherent : FullyCoherent state)
    (wellFormed : WellFormed state) (flags : Flags rw) : TranslatedAlike rw vpn state := by
  cases lookup : lookupTlb vpn rw state with
  | some pfn =>
      rcases coherent.lookupTlb_some flags lookup with ⟨valid, rfl, writable⟩
      cases indexed : pdeIndex vpn with
      | none =>
          rw [State.page, indexed] at valid
          cases valid
      | some directory =>
          have page := State.page_of_indexed indexed state state.current
          have allowed : ¬ (rw &&& accessWrite ≠ 0 ∧ (state.page state.current vpn).rw &&& accessWrite = 0) := by
            rintro ⟨writing, denied⟩
            rw [writable writing] at denied
            cases denied
          refine TranslatedAlike.served (state.page state.current vpn).pfn true state ?_ ?_ rfl coherent
            fun _ single => single
          · unfold Framework.translate
            rw [if_pos rfl, lookup]
          · rw [translate_uncached indexed wellFormed.ptbr, ← page, if_pos ⟨valid, allowed⟩]
  | none =>
      cases indexed : pdeIndex vpn with
      | none =>
          refine TranslatedAlike.fault .pdesOutOfBounds ?_ ?_
          · unfold Framework.translate
            rw [if_pos rfl, lookup, wellFormed.ptbr, indexed]
          · unfold Framework.translate
            rw [if_neg Bool.false_ne_true, wellFormed.ptbr, indexed]
      | some directory =>
          have page := State.page_of_indexed indexed state state.current
          by_cases served : (state.page state.current vpn).valid = true ∧
            ¬ (rw &&& accessWrite ≠ 0 ∧ (state.page state.current vpn).rw &&& accessWrite = 0)
          · exact translated_of_walk (coherent.weaken fun _ _ => trivial) wellFormed
              (coherent.ordered.readOnly_of_missed flags lookup) indexed lookup served.1 served.2
          · refine TranslatedAlike.missed ?_ ?_ lookup
            · rw [translate_walk indexed wellFormed.ptbr fun _ => lookup, ← page, if_neg served]
            · rw [translate_uncached indexed wellFormed.ptbr, ← page, if_neg served]

/-! ## Accesses -/

/-- Where entries for the page allow reading only, a write is not supplied. -/
private theorem lookupTlb_eq_none {vpn rw : Nat} {state : State} (written : accessRead < rw)
    (readOnly : forall i, state.tags i = some vpn -> (state.tlb i).rw = 1) : lookupTlb vpn rw state = none := by
  unfold lookupTlb
  rw [Option.map_eq_none_iff, List.find?_eq_none]
  intro i _ matched
  simp only [Bool.and_eq_true, beq_iff_eq, decide_eq_true_eq] at matched
  have one := readOnly i (State.tags_eq_some.mpr matched.1)
  change 1 < rw at written
  omega

/-- A fault that has made the entry writable is followed by a translation. -/
theorem accessLoop_served {rw vpn : Nat} {state : State} {directory : Fin nrPdesPerPage} (retries : Nat)
    (coherent : Coherent (· ≠ vpn) state) (wellFormed : WellFormed state)
    (readOnly : forall i, state.tags i = some vpn -> (state.tlb i).rw = 1)
    (indexed : pdeIndex vpn = some directory) (written : accessRead < rw)
    (writable : (state.page state.current vpn).valid = true ∧ (state.page state.current vpn).rw = 3) :
    Machine.Agree Access.outcome Access.outcome Alike
      (accessLoop Heap.zeroed true vpn rw (retries + 1) state)
      (accessLoop Heap.zeroed false vpn rw (retries + 1) state) := by
  have notCached := lookupTlb_eq_none written readOnly
  have allowed : ¬ (rw &&& accessWrite ≠ 0 ∧ (state.page state.current vpn).rw &&& accessWrite = 0) := by
    rw [writable.2]
    exact fun denied => absurd denied.2 (by decide)
  rcases translated_of_walk coherent wellFormed readOnly indexed notCached writable.1 allowed with
    ⟨fault, cached, plain⟩ | ⟨cached, plain, _⟩ | ⟨pfn, fromTlb, after, cached, plain, same, full, _⟩
  · rw [translate_uncached indexed wellFormed.ptbr, ← State.page_of_indexed indexed,
      if_pos ⟨writable.1, allowed⟩] at plain
    cases plain
  · rw [translate_uncached indexed wellFormed.ptbr, ← State.page_of_indexed indexed,
      if_pos ⟨writable.1, allowed⟩] at plain
    cases plain
  · simp only [accessLoop, cached, plain]
    exact ⟨rfl, same.symm, full, wellFormed.retagged (Retagged.of_withoutTlb same)⟩

/-- The retry loop.  A fault taken in the last round is not followed by a
translation.  It would leave an outdated entry if it copied, but the round
before it found no frame to copy to. -/
theorem accessLoop_alike (vpn : Nat) {rw : Nat} (flags : Flags rw) (retries : Nat) {state : State}
    (coherent : FullyCoherent state) (wellFormed : WellFormed state)
    (lastRound : retries ≤ 1 -> forall frame, frame < nrPageframes -> state.mapcounts frame ≠ 0) :
    Machine.Agree Access.outcome Access.outcome Alike
      (accessLoop Heap.zeroed true vpn rw retries state) (accessLoop Heap.zeroed false vpn rw retries state) := by
  induction retries generalizing state with
  | zero => exact ⟨rfl, Alike.refl coherent wellFormed⟩
  | succ retries inductionHypothesis =>
      rcases translate_alike rw vpn coherent wellFormed flags with
        ⟨fault, cached, plain⟩ | ⟨cached, plain, notCached⟩ |
        ⟨pfn, fromTlb, after, cached, plain, same, full, _⟩
      · simp only [accessLoop, cached, plain]
        rfl
      · simp only [accessLoop, cached, plain]
        cases fault : handlePageFault Heap.zeroed vpn rw state with
        | error raised => exact rfl
        | ok answer =>
            rcases answer with ⟨refused | handled, after⟩
            · rcases handlePageFault_cases fault with ⟨_, _, ⟨_, rfl, _⟩ | ⟨impossible, _⟩⟩
              · exact ⟨rfl, Alike.refl coherent wellFormed⟩
              · cases impossible
            · rcases handlePageFault_cases fault with ⟨directory, indexed, ⟨impossible, _⟩ | ⟨_, written, resolved⟩⟩
              · cases impossible
              · have stillFormed := wellFormed.resolved wellFormed.current_lt resolved
                have readOnly := coherent.ordered.readOnly_of_missed flags notCached
                rcases coherent.resolved indexed resolved with ⟨tlb, others, fullOrCopied⟩
                cases retries with
                | zero =>
                    rcases fullOrCopied with full | ⟨_, frame, inside, free⟩
                    · exact ⟨rfl, Alike.refl full stillFormed⟩
                    · exact absurd free (lastRound (Nat.le_refl _) frame inside)
                | succ retries =>
                    have tags : after.tags = state.tags := by
                      funext i
                      rw [State.tags, State.tags, tlb]
                    rcases resolved.leaked_or_writable with ⟨shared, exhausted, mapcounts⟩ | writable
                    · have full : FullyCoherent after := by
                        rcases fullOrCopied with full | ⟨_, frame, inside, free⟩
                        · exact full
                        · exact absurd free (exhausted frame inside)
                      apply inductionHypothesis full stillFormed
                      intro _
                      rw [mapcounts]
                      exact full_decrMapcount shared exhausted
                    · apply accessLoop_served retries others stillFormed _ indexed written
                      · rw [resolved.same.current, State.page_of_indexed indexed]
                        exact writable
                      · rw [tags, tlb]
                        exact readOnly
      · simp only [accessLoop, cached, plain]
        exact ⟨rfl, same.symm, full, wellFormed.retagged (Retagged.of_withoutTlb same)⟩

theorem accessMemory_alike {rw vpn : Nat} (flags : Flags rw) {state : State}
    (coherent : FullyCoherent state) (wellFormed : WellFormed state) :
    Machine.Agree Event.outcome Event.outcome Alike
      (reportAccess (accessMemory Heap.zeroed true vpn rw state))
      (reportAccess (accessMemory Heap.zeroed false vpn rw state)) := by
  unfold accessMemory
  split
  · rfl
  · split
    · have looped := accessLoop_alike vpn flags 2 coherent wellFormed (fun impossible => by omega)
      rcases looped.cases with ⟨fault, cached, plain⟩ | ⟨_, _, _, _, cached, plain, seen, alike⟩
      · rw [cached, plain]
        rfl
      · rw [cached, plain]
        exact ⟨congrArg Event.accessed seen, alike⟩
    · rfl

/-! ## Commands -/

theorem allocPage_alike {vpn rw : Nat} (flags : rw = 1 ∨ rw = 3) {state : State}
    (coherent : FullyCoherent state) (wellFormed : WellFormed state) :
    Machine.Agree Event.outcome Event.outcome Alike
      (Framework.allocPage Heap.zeroed true vpn rw state) (Framework.allocPage Heap.zeroed false vpn rw state) := by
  unfold Framework.allocPage
  split
  · rfl
  · rcases translate_alike accessRead vpn coherent wellFormed (Or.inl rfl) with
      ⟨fault, cached, plain⟩ | ⟨cached, plain, notCached⟩ | ⟨pfn, fromTlb, after, cached, plain, same, full, _⟩
    · simp only [cached, plain]
      rfl
    · simp only [cached, plain]
      cases allocated : Vm.allocPage Heap.zeroed vpn rw state with
      | error fault => exact rfl
      | ok result =>
          rcases result with ⟨result, after⟩
          rcases allocPage_cases allocated with ⟨rfl, rfl, _⟩ | ⟨pfn, directory, rfl, indexed, mapped⟩
          · exact ⟨rfl, Alike.refl coherent wellFormed⟩
          · exact ⟨rfl, Alike.refl (coherent.allocated indexed (coherent.ordered.untagged_of_read notCached) mapped)
              (wellFormed.mapped flags mapped)⟩
    · simp only [cached, plain]
      exact ⟨rfl, same.symm, full, wellFormed.retagged (Retagged.of_withoutTlb same)⟩

theorem freePage_alike {vpn : Nat} {state : State} (coherent : FullyCoherent state)
    (wellFormed : WellFormed state) (single : state.SingleEntry vpn) :
    Machine.Agree Event.outcome Event.outcome Alike
      (Framework.freePage true vpn state) (Framework.freePage false vpn state) := by
  unfold Framework.freePage
  rcases translate_alike accessRead vpn coherent wellFormed (Or.inl rfl) with
    ⟨fault, cached, plain⟩ | ⟨cached, plain, notCached⟩ |
    ⟨pfn, fromTlb, after, cached, plain, same, full, stillSingle⟩
  · simp only [cached, plain]
    rfl
  · simp only [cached, plain]
    exact ⟨rfl, Alike.refl coherent wellFormed⟩
  · simp only [cached, plain]
    have stillFormed := wellFormed.retagged (Retagged.of_withoutTlb same)
    have forgotten := freePage_withoutTlb vpn after
    rw [same, freePage_withoutTlb] at forgotten
    cases freed : Vm.freePage vpn after with
    | error fault =>
        cases freedPlain : Vm.freePage vpn state with
        | error other =>
            rw [freed, freedPlain] at forgotten
            exact (Except.error.inj forgotten).symm
        | ok other =>
            rw [freed, freedPlain] at forgotten
            cases forgotten
    | ok cleared =>
        cases freedPlain : Vm.freePage vpn state with
        | error other =>
            rw [freed, freedPlain] at forgotten
            cases forgotten
        | ok clearedPlain =>
            rw [freed, freedPlain] at forgotten
            refine ⟨rfl, Except.ok.inj forgotten, ?_, ?_⟩
            · rcases freePage_cases freed with ⟨directory, indexed, ⟨rfl, _⟩ | unmapped⟩
              · exact full
              · exact full.freed indexed (stillSingle rfl single)
                  (freePage_tlb indexed unmapped.valid freed) unmapped
            · rcases freePage_cases freed with ⟨directory, indexed, ⟨rfl, _⟩ | unmapped⟩
              · exact stillFormed
              · exact stillFormed.unmapped unmapped

/-- A page that the command frees has at most one entry in the TLB. -/
def FreesSingleEntry (input : Command) (state : State) : Prop :=
  forall vpn, input = .free vpn -> state.SingleEntry vpn

/-- Each command has the same outcome with the TLB and without it. -/
theorem command_alike {input : Command} {state : State} (coherent : FullyCoherent state)
    (wellFormed : WellFormed state) (frees : FreesSingleEntry input state) :
    Machine.Agree Event.outcome Event.outcome Alike
      (command Heap.zeroed true input state) (command Heap.zeroed false input state) := by
  cases input with
  | switch pid =>
      simp only [command]
      cases switched : switchProcess Heap.zeroed pid state with
      | error fault => exact rfl
      | ok after =>
          have ran : command Heap.zeroed true (.switch pid) state = .ok (.switched, after) := by
            simp only [command, switched]
          have flushed := switchProcess_tlb wellFormed.current_lt wellFormed.counts switched
          exact ⟨rfl, Alike.refl (coherent.switched flushed) (wellFormed.command ran)⟩
  | free vpn => exact freePage_alike coherent wellFormed (frees vpn rfl)
  | read vpn => exact accessMemory_alike (Or.inl rfl) coherent wellFormed
  | write vpn => exact accessMemory_alike (Or.inr (Or.inl rfl)) coherent wellFormed
  | alloc vpn rw => exact allocPage_alike (makeRwflag_cases rw) coherent wellFormed
  | access vpn rw => exact accessMemory_alike (flags_makeRwflag rw) coherent wellFormed

/-! ## Runs -/

/-- The state of a run with the TLB and that of a run without it. -/
structure Transparent (cached plain : State) : Prop where
  plain : plain = cached.withoutTlb
  coherent : FullyCoherent cached
  wellFormed : WellFormed cached

theorem Transparent.command {input : Command} {cached plain : State} (transparent : Transparent cached plain)
    (frees : FreesSingleEntry input cached) :
    Machine.Agree Event.outcome Event.outcome Transparent
      (Vm.command Heap.zeroed true input cached) (Vm.command Heap.zeroed false input plain) := by
  have alike := command_alike transparent.coherent transparent.wellFormed frees
  rw [transparent.plain, command_withoutTlb]
  rcases alike.cases with ⟨fault, ran, ranPlain⟩ | ⟨_, _, _, _, ran, ranPlain, seen, kept⟩
  · rw [ran, ranPlain]
    rfl
  · rw [ran, ranPlain]
    exact ⟨seen, kept.same, kept.coherent, kept.wellFormed⟩

/-- The runs with and without the TLB agree: they have the same outcomes, and end
in states that differ in the TLB only. -/
def SameOutcomes (commands : List Command) (cached plain : State) : Prop :=
  Machine.Agree (List.map Event.outcome) (List.map Event.outcome) (fun cached plain => plain = cached.withoutTlb)
    ((simulator Heap.zeroed true).run commands cached) ((simulator Heap.zeroed false).run commands plain)

theorem Transparent.run {commands : List Command} {cached plain : State} (transparent : Transparent cached plain)
    (within : (simulator Heap.zeroed true).Within FreesSingleEntry commands cached) :
    SameOutcomes commands cached plain := by
  have lockstep := (simulator Heap.zeroed true).run_lockstep (simulator Heap.zeroed false)
    Event.outcome Event.outcome Transparent
    (fun event event' same => by
      change event.stops = event'.stops
      rw [← Event.stops_outcome event, same, Event.stops_outcome])
    (fun input cached plain frees transparent => transparent.command frees)
    within transparent
  exact lockstep.imp fun _ _ transparent => transparent.plain

/-! ## Two entries for a page that is freed -/

/-- A second entry survives when the page is freed. -/
private theorem stale_of_freed {vpn : Nat} {state after : State} (coherent : FullyCoherent state)
    (several : ¬ state.SingleEntry vpn) (tlb : after.tlb = (invalidateTlb vpn state).tlb) :
    Exists fun pfn => lookupTlb vpn accessRead after = some pfn := by
  have remains : Exists fun i => state.tags i = some vpn ∧ after.tlb i = state.tlb i := by
    by_contra none
    have cleared : forall i, state.tags i = some vpn -> (invalidateTlb vpn state).tlb i ≠ state.tlb i :=
      fun i tagged same => none ⟨i, tagged, by rw [tlb, same]⟩
    unfold invalidateTlb at cleared
    apply several
    intro left right leftTagged rightTagged
    split at cleared
    · exact absurd rfl (cleared left leftTagged)
    · rename_i first _
      have only : forall i, state.tags i = some vpn -> i = first := by
        intro i tagged
        by_contra different
        exact cleared i tagged (Function.update_of_ne different ..)
      exact (only left leftTagged).trans (only right rightTagged).symm
  rcases remains with ⟨i, tagged, same⟩
  cases found : lookupTlb vpn accessRead after with
  | some pfn => exact ⟨pfn, rfl⟩
  | none =>
      have there := State.tags_eq_some.mp tagged
      have range := coherent.ordered.index_lt tagged
      have skipped := List.find?_range_eq_none.mp (Option.map_eq_none_iff.mp found) i range
      rw [same] at skipped
      have readable : accessRead ≤ (state.tlb i).rw := by
        change 1 ≤ (state.tlb i).rw
        rcases coherent.flags i vpn tagged with one | three <;> omega
      simp [there.1, there.2, readable] at skipped

/-- A read that the TLB supplies for a page that is not mapped shows. -/
private theorem not_sameOutcomes_of_stale {vpn stale : Nat} {state : State} {directory : Fin nrPdesPerPage}
    (indexed : pdeIndex vpn = some directory) (running : state.ptbr = some state.current)
    (invalid : (state.entry (state.current, directory, pteIndex vpn)).valid = false)
    (remains : lookupTlb vpn accessRead state = some stale) :
    ¬ SameOutcomes [.read vpn] state state.withoutTlb := by
  have accessed : accessMemory Heap.zeroed true vpn accessRead state = .ok (.translated stale true, state) := by
    rw [accessMemory_eq (by decide) (inRange_of_indexed indexed)]
    simp only [accessLoop, Framework.translate, if_true, remains]
  have served : (simulator Heap.zeroed true).step (.read vpn) state =
      .ok (.accessed (.translated stale true), state) := by
    simp only [simulator, Vm.command, accessed, reportAccess]
  have refused : ¬ Translates vpn accessRead state := by
    rw [read_translates_iff state indexed running, invalid]
    exact Bool.false_ne_true
  have forgotten : (simulator Heap.zeroed false).step (.read vpn) state.withoutTlb =
      forgetTlb (reportAccess (accessMemory Heap.zeroed false vpn accessRead state)) :=
    command_withoutTlb Heap.zeroed (.read vpn) state
  intro agree
  unfold SameOutcomes at agree
  rw [Machine.run_cons _ _ served rfl] at agree
  cases plainly : accessMemory Heap.zeroed false vpn accessRead state with
  | error fault =>
      rw [plainly] at forgotten
      simp only [Machine.run, forgotten] at agree
      exact agree
  | ok result =>
      rcases result with ⟨access, after⟩
      rw [plainly] at forgotten
      have step : (simulator Heap.zeroed false).step (.read vpn) state.withoutTlb =
          .ok (.accessed access, after.withoutTlb) := forgotten
      rw [Machine.run_cons _ _ step rfl] at agree
      have same := (List.cons_eq_cons.mp agree.1).1
      cases access with
      | translated found fromTlb => exact refused ⟨found, fromTlb, after, plainly⟩
      | handled => cases same
      | denied => cases same

/-- Freeing a page that has several entries and then reading it shows. -/
private theorem Transparent.not_sameOutcomes {vpn : Nat} {cached plain : State} (transparent : Transparent cached plain)
    (several : ¬ cached.SingleEntry vpn) : ¬ SameOutcomes [.free vpn, .read vpn] cached plain := by
  have coherent := transparent.coherent
  have wellFormed := transparent.wellFormed
  cases lookup : lookupTlb vpn accessRead cached with
  | none => exact absurd (fun left _ tagged _ => absurd tagged (coherent.ordered.untagged_of_read lookup left)) several
  | some pfn =>
      rcases coherent.lookupTlb_some (Or.inl rfl) lookup with ⟨valid, samePfn, _⟩
      cases indexed : pdeIndex vpn with
      | none =>
          rw [State.page, indexed] at valid
          cases valid
      | some directory =>
          rw [State.page_of_indexed indexed] at valid samePfn
          rcases freePage_ok indexed valid (wellFormed.permitted _ wellFormed.current_lt valid).1 with ⟨freed, ran⟩
          have unmapped : Unmapped (cached.current, directory, pteIndex vpn) cached freed := by
            rcases freePage_cases ran with ⟨other, sameIndex, ⟨_, invalid⟩ | unmapped⟩
            · rw [indexed] at sameIndex
              cases sameIndex
              rw [invalid] at valid
              cases valid
            · rw [indexed] at sameIndex
              cases sameIndex
              exact unmapped
          have stepped : (simulator Heap.zeroed true).step (.free vpn) cached = .ok (.freed pfn, freed) := by
            simp only [simulator, Vm.command, Framework.freePage, Framework.translate, if_true, lookup, ran]
          have steppedPlain : (simulator Heap.zeroed false).step (.free vpn) plain =
              .ok (.freed pfn, freed.withoutTlb) := by
            have allowed : ¬ (accessRead &&& accessWrite ≠ 0 ∧
                (cached.entry (cached.current, directory, pteIndex vpn)).rw &&& accessWrite = 0) :=
              fun denied => denied.1 rfl
            have plainly : Vm.command Heap.zeroed false (.free vpn) cached = .ok (.freed pfn, freed) := by
              simp only [Vm.command, Framework.freePage]
              rw [translate_uncached indexed wellFormed.ptbr, if_pos ⟨valid, allowed⟩]
              dsimp only
              rw [ran, samePfn]
            have forgotten := command_withoutTlb Heap.zeroed (.free vpn) cached
            rw [plainly, ← transparent.plain] at forgotten
            exact forgotten
          intro agree
          unfold SameOutcomes at agree
          rw [Machine.run_cons _ _ stepped rfl, Machine.run_cons _ _ steppedPlain rfl] at agree
          rcases stale_of_freed coherent several (freePage_tlb indexed valid ran) with ⟨stale, remains⟩
          refine not_sameOutcomes_of_stale indexed ?_ ?_ remains (Machine.Agree.of_cons agree)
          · rw [unmapped.same.ptbr, unmapped.same.current]
            exact wellFormed.ptbr
          · rw [unmapped.same.current, unmapped.entry, Function.update_self]
            rfl

private theorem Transparent.within_of_sameOutcomes {commands : List Command} {cached plain : State}
    (transparent : Transparent cached plain)
    (agree : forall executed, executed <+: commands -> forall vpn,
      SameOutcomes (executed ++ [.read vpn]) cached plain) :
    (simulator Heap.zeroed true).Within FreesSingleEntry commands cached := by
  induction commands generalizing cached plain with
  | nil => trivial
  | cons input commands inductionHypothesis =>
      have frees : FreesSingleEntry input cached := by
        rintro vpn rfl
        by_contra several
        exact transparent.not_sameOutcomes several (agree [.free vpn] ⟨commands, rfl⟩ vpn)
      refine ⟨frees, ?_⟩
      have alike : Machine.Agree Event.outcome Event.outcome Transparent
        ((simulator Heap.zeroed true).step input cached) ((simulator Heap.zeroed false).step input plain) :=
        transparent.command frees
      rcases alike.cases with
        ⟨fault, stepped, _⟩ | ⟨event, next, eventPlain, nextPlain, stepped, steppedPlain, seen, kept⟩
      · rw [stepped]
        trivial
      · rw [stepped]
        intro continues
        have continuesPlain : (simulator Heap.zeroed false).stops eventPlain = false := by
          change eventPlain.stops = false
          rw [← Event.stops_outcome, ← seen, Event.stops_outcome]
          exact continues
        apply inductionHypothesis kept
        intro executed beginning vpn
        have whole := agree (input :: executed) (List.cons_prefix_cons.mpr ⟨rfl, beginning⟩) vpn
        unfold SameOutcomes at whole
        rw [List.cons_append, Machine.run_cons _ _ stepped continues,
          Machine.run_cons _ _ steppedPlain continuesPlain] at whole
        exact Machine.Agree.of_cons whole

/-- Running with the TLB and without it has the same outcomes after any part of
the commands, and a read of any page after it, just when every page that the
commands free has at most one entry in the TLB by then. -/
theorem tlb_transparent_iff (commands : List Command) :
    (forall executed, executed <+: commands ->
      SameOutcomes executed initSystem initSystem ∧
        forall vpn, SameOutcomes (executed ++ [.read vpn]) initSystem initSystem) ↔
      (simulator Heap.zeroed true).Within FreesSingleEntry commands initSystem := by
  have transparent : Transparent initSystem initSystem := ⟨rfl, initSystem_coherent, initSystem_wellFormed⟩
  constructor
  · intro agree
    exact transparent.within_of_sameOutcomes fun executed beginning => (agree executed beginning).2
  · intro within executed beginning
    have before := within.of_prefix _ beginning
    refine ⟨transparent.run before, fun vpn => transparent.run ?_⟩
    exact before.append _ fun state => ⟨nofun, by split <;> first | trivial | exact fun _ => trivial⟩

/-- Pages 0 and 1 are cached for reading, freeing page 0 leaves a hole in front
of page 1, and the copy that page 1 gets on a write is cached there. -/
def staleCommands : List Command :=
  [.alloc 0 ['r'], .alloc 1 ['r', 'w'], .switch 1, .read 0, .read 1, .free 0, .write 1, .free 1, .read 1]

/-- The last read is supplied by the TLB, and refused without it. -/
theorem tlb_serves_freed_page : (forall command, command ∈ staleCommands -> command.InRange) ∧
    ¬ SameOutcomes staleCommands initSystem initSystem := by
  refine ⟨by decide, ?_⟩
  have cached : Exists fun state => (simulator Heap.zeroed true).run staleCommands initSystem = .ok
      ([.allocated 0, .allocated 1, .switched, .accessed (.translated 0 false), .accessed (.translated 1 false),
        .freed 0, .accessed (.translated 2 false), .freed 2, .accessed (.translated 1 true)], state) := ⟨_, rfl⟩
  have plain : Exists fun state => (simulator Heap.zeroed false).run staleCommands initSystem = .ok
      ([.allocated 0, .allocated 1, .switched, .accessed (.translated 0 false), .accessed (.translated 1 false),
        .freed 0, .accessed (.translated 2 false), .freed 2, .accessed .denied], state) := ⟨_, rfl⟩
  rcases cached with ⟨cachedState, cached⟩
  rcases plain with ⟨plainState, plain⟩
  unfold SameOutcomes
  rw [cached, plain]
  intro agree
  exact absurd agree.1 (by decide)

end Vm
end OsPa
