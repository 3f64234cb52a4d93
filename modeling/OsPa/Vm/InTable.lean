import OsPa.Vm.AnyHeap
import OsPa.Vm.Exhaustion

namespace OsPa
namespace Vm

open Library Framework

/-!
# Staying in the page table

Four commands get from the number of a page to its entry.  An access is held back
by an assertion where the number is too large, but not where the directory is
absent: the MMU returns without a translation, and the handler reads the entry
before it looks whether there is one.  An allocation and a deallocation have no
check of the number, and never find a directory absent when they need it.
-/

/-- The page that a command names. -/
def Command.page : Command -> Option Nat
  | .switch _ => none
  | .free vpn | .read vpn | .write vpn | .alloc vpn _ | .access vpn _ => some vpn

/-- The running process has the directory of the page. -/
def State.HasDirectory (state : State) (vpn : Nat) : Prop :=
  Exists fun directory => pdeIndex vpn = some directory ∧
    ((state.process state.current).pagetable.pdes directory).isSome = true

theorem State.HasDirectory.inRange {state : State} {vpn : Nat} (there : state.HasDirectory vpn) : vpn < 64 := by
  rcases there with ⟨directory, indexed, _⟩
  exact inRange_of_indexed indexed

theorem State.HasDirectory.pte {state : State} {vpn : Nat} (there : state.HasDirectory vpn) :
    Exists fun directory => Exists fun pte => pdeIndex vpn = some directory ∧
      state.pte (state.current, directory, pteIndex vpn) = some pte := by
  rcases there with ⟨directory, indexed, present⟩
  rw [← pte_isSome state state.current (directory, pteIndex vpn)] at present
  exact ⟨directory, _, indexed, Option.eq_some_of_isSome present⟩

theorem State.hasDirectory_of_pte {state : State} {vpn : Nat} {directory : Fin nrPdesPerPage} {pte : Pte}
    (indexed : pdeIndex vpn = some directory)
    (found : state.pte (state.current, directory, pteIndex vpn) = some pte) : state.HasDirectory vpn := by
  refine ⟨directory, indexed, ?_⟩
  rw [← pte_isSome state state.current (directory, pteIndex vpn), found]
  rfl

private theorem Kept.hasDirectory {before after : State} {vpn : Nat} (kept : Kept before after)
    (there : before.HasDirectory vpn) : after.HasDirectory vpn := by
  rcases there.pte with ⟨directory, pte, indexed, found⟩
  rcases kept.stored _ pte found with ⟨now, foundNow, _⟩
  rw [← kept.same.current] at foundNow
  exact State.hasDirectory_of_pte indexed foundNow

section Walk

variable {heap : Heap} {printTlbResult : Bool} {vpn rw : Nat} {state : State}

/-- The walk gets no further than to the outer table. -/
theorem Seated.translate_absent (seated : Seated state) (absent : ¬ state.HasDirectory vpn)
    (printTlbResult : Bool) (rw : Nat) :
    Framework.translate printTlbResult rw vpn state =
      if vpn < 64 then .ok (none, state) else .error .pdesOutOfBounds := by
  have missed : (if printTlbResult then lookupTlb vpn rw state else none) = none := by
    rw [seated.lookupTlb_none fun _ _ indexed found => absurd (State.hasDirectory_of_pte indexed found) absent,
      ite_self]
  unfold Framework.translate
  rw [missed, seated.running]
  dsimp only
  cases indexed : pdeIndex vpn with
  | none =>
      have outside : ¬ vpn < 64 := by
        intro inside
        rw [pdeIndex_of_lt inside] at indexed
        cases indexed
      rw [if_neg outside]
  | some directory =>
      have inside : vpn < 64 := inRange_of_indexed indexed
      rw [if_pos inside]
      dsimp only
      cases found : state.pte (state.current, directory, pteIndex vpn) with
      | none => rfl
      | some pte => exact absurd (State.hasDirectory_of_pte indexed found) absent

/-- Where the entry is there, the handler can only go wrong with the frame in it. -/
private theorem handlePageFault_error {directory : Fin nrPdesPerPage} {pte : Pte} {fault : Fault}
    (indexed : pdeIndex vpn = some directory)
    (found : state.pte (state.current, directory, pteIndex vpn) = some pte)
    (ran : handlePageFault heap vpn rw state = .error fault) :
    fault = .mapcountsOutOfBounds ∧ pte.valid = true ∧ ¬ pte.pfn < nrPageframes := by
  unfold handlePageFault at ran
  rw [indexed] at ran
  dsimp only at ran
  rw [found] at ran
  dsimp only at ran
  split at ran
  · cases ran
  · rename_i valid
    split at ran
    · split at ran
      · split at ran
        · rcases allocPage_ok indexed heap 3 (state.decrMapcount pte.pfn) with ⟨result, allocated⟩
          rw [allocated] at ran
          cases ran
        · cases ran
      · rename_i outside
        cases ran
        exact ⟨rfl, by simpa using valid, outside⟩
    · cases ran

/-- With blocks of zeros, no entry has a frame that does not exist. -/
private theorem accessLoop_error {retries : Nat} {fault : Fault} (seated : Seated state)
    (there : state.HasDirectory vpn) (zeroed : heap = Heap.zeroed -> WellFormed state)
    (ran : accessLoop heap printTlbResult vpn rw retries state = .error fault) :
    fault = .mapcountsOutOfBounds ∧ heap ≠ Heap.zeroed := by
  induction retries generalizing state with
  | zero => cases ran
  | succ retries inductionHypothesis =>
      rcases there.pte with ⟨directory, pte, indexed, found⟩
      rcases translate_ok printTlbResult rw state indexed with ⟨⟨result, looked⟩, translated⟩
      rw [accessLoop, translated] at ran
      cases result with
      | some result => cases ran
      | none =>
          have untouched := (translate_cases translated).2 rfl
          subst untouched
          dsimp only at ran
          split at ran
          · rename_i raised handling
            cases ran
            rcases handlePageFault_error indexed found handling with ⟨rfl, valid, outside⟩
            refine ⟨rfl, fun same => outside ?_⟩
            have entry := State.entry_of_pte found
            rw [← entry] at valid ⊢
            exact ((zeroed same).permitted _ (zeroed same).current_lt valid).1
          · rename_i handled handling
            have kept := handlePageFault_kept handling
            apply inductionHypothesis ((Steady.of_tlb kept.1 kept.2).seated seated) (kept.1.hasDirectory there) _ ran
            intro same
            subst same
            rcases handlePageFault_cases handling with ⟨_, _, ⟨impossible, _⟩ | ⟨_, _, resolved⟩⟩
            · cases impossible
            · exact (zeroed rfl).resolved (zeroed rfl).current_lt resolved
          · cases ran

/-- An access to a page without a directory reads through a NULL pointer. -/
private theorem Seated.accessLoop_absent (seated : Seated state) (absent : ¬ state.HasDirectory vpn) (inside : vpn < 64)
    (heap : Heap) (printTlbResult : Bool) (rw retries : Nat) :
    accessLoop heap printTlbResult vpn rw (retries + 1) state = .error .nullDirectory := by
  rw [accessLoop, seated.translate_absent absent, if_pos inside]
  dsimp only
  unfold handlePageFault
  rw [pdeIndex_of_lt inside]
  dsimp only
  cases found : state.pte (state.current, ⟨vpn / nrPtesPerPage, _⟩, pteIndex vpn) with
  | none => rfl
  | some pte => exact absurd (State.hasDirectory_of_pte (pdeIndex_of_lt inside) found) absent

end Walk

/-! ## The commands -/

section Commands

variable {heap : Heap} {printTlbResult : Bool} {vpn rw : Nat} {state : State}

/-- The command completes or is rejected by a check.  With the contents of blocks
that are not all zero, it may still find a frame in an entry that does not exist. -/
structure StaysInTable (heap : Heap) (printTlbResult : Bool) (input : Command) (state : State) : Prop where
  indexed : command heap printTlbResult input state ≠ .error .pdesOutOfBounds
  present : command heap printTlbResult input state ≠ .error .nullDirectory
  completes : heap = Heap.zeroed -> (Exists fun result => command heap printTlbResult input state = .ok result) ∨
    command heap printTlbResult input state = .error .assertion
  denied : forall vpn, input = .read vpn ∨ input = .write vpn -> vpn < 64 -> ¬ state.HasDirectory vpn ->
    command heap printTlbResult input state = .ok (.accessed .denied, state)

/-- What the command relies on and does not check. -/
def Command.Guarded (input : Command) (state : State) : Prop :=
  match input with
  | .switch _ => True
  | .alloc vpn _ | .free vpn => vpn < 64
  | .read vpn | .write vpn | .access vpn _ => vpn < 64 -> state.HasDirectory vpn

/-- A command whose faults are not among those at issue. -/
theorem StaysInTable.of_faults {input : Command}
    (faults : forall fault, command heap printTlbResult input state = .error fault ->
      fault = .assertion ∨ (fault = .mapcountsOutOfBounds ∧ heap ≠ Heap.zeroed))
    (denied : forall vpn, input = .read vpn ∨ input = .write vpn -> vpn < 64 -> ¬ state.HasDirectory vpn ->
      command heap printTlbResult input state = .ok (.accessed .denied, state)) :
    StaysInTable heap printTlbResult input state := by
  refine ⟨fun ran => ?_, fun ran => ?_, fun zeroed => ?_, denied⟩
  · rcases faults _ ran with impossible | ⟨impossible, _⟩
    · cases impossible
    · cases impossible
  · rcases faults _ ran with impossible | ⟨impossible, _⟩
    · cases impossible
    · cases impossible
  · cases ran : command heap printTlbResult input state with
    | ok result => exact .inl ⟨result, rfl⟩
    | error fault =>
        rcases faults fault ran with rfl | ⟨_, other⟩
        · exact .inr rfl
        · exact absurd zeroed other

private theorem reportAccess_error {fault : Fault} {result : Except Fault (Access × State)}
    (reported : reportAccess result = .error fault) : result = .error fault := by
  cases result with
  | error raised =>
      cases reported
      rfl
  | ok pair => cases reported

/-- An access stays in the table exactly if its page has a directory or its number
is too large. -/
private theorem access_iff (seated : Seated state) (wellFormed : heap = Heap.zeroed -> WellFormed state)
    {input : Command} (legal : (rw &&& accessRead) ^^^ (rw &&& accessWrite) ≠ 0)
    (accesses : command heap printTlbResult input state =
      reportAccess (accessMemory heap printTlbResult vpn rw state))
    (named : input.page = some vpn) :
    StaysInTable heap printTlbResult input state ↔ (vpn < 64 -> state.HasDirectory vpn) := by
  constructor
  · intro stays inside
    by_contra absent
    apply stays.present
    rw [accesses, accessMemory_eq legal inside, seated.accessLoop_absent absent inside]
    rfl
  · intro guarded
    apply StaysInTable.of_faults
    · intro fault ran
      rw [accesses] at ran
      have raised := reportAccess_error ran
      by_cases inside : vpn < 64
      · rw [accessMemory_eq legal inside] at raised
        exact .inr (accessLoop_error seated (guarded inside) wellFormed raised)
      · have outside : ¬ vpn < nrPdesPerPage * nrPtesPerPage := inside
        rw [accessMemory, if_neg legal, if_neg outside] at raised
        cases raised
        exact .inl rfl
    · intro page reads inside absent
      have same : page = vpn := by
        rcases reads with rfl | rfl
        · exact Option.some.inj named
        · exact Option.some.inj named
      subst same
      exact absurd (guarded inside) absent

private theorem alloc_iff (seated : Seated state) (rw : List Char) :
    StaysInTable heap printTlbResult (.alloc vpn rw) state ↔ vpn < 64 := by
  have legal := makeRwflag_readable rw
  constructor
  · intro stays
    by_contra outside
    have absent : ¬ state.HasDirectory vpn := fun there => outside there.inRange
    apply stays.indexed
    rw [command, Framework.allocPage, if_neg legal, seated.translate_absent absent, if_neg outside]
  · intro inside
    have indexed := pdeIndex_of_lt inside
    apply StaysInTable.of_faults
    · intro fault ran
      rw [command, Framework.allocPage, if_neg legal] at ran
      rcases translate_ok printTlbResult accessRead state indexed with ⟨⟨result, looked⟩, translated⟩
      rw [translated] at ran
      cases result with
      | some result => cases ran
      | none =>
          rcases allocPage_ok indexed heap (makeRwflag rw) looked with ⟨⟨given, allocated⟩, mapped⟩
          simp only [mapped] at ran
          cases given <;> cases ran
    · rintro page (impossible | impossible) _ _
      · cases impossible
      · cases impossible

private theorem free_iff (seated : Seated state) (wellFormed : heap = Heap.zeroed -> WellFormed state) :
    StaysInTable heap printTlbResult (.free vpn) state ↔ vpn < 64 := by
  constructor
  · intro stays
    by_contra outside
    have absent : ¬ state.HasDirectory vpn := fun there => outside there.inRange
    apply stays.indexed
    rw [command, Framework.freePage, seated.translate_absent absent, if_neg outside]
  · intro inside
    have indexed := pdeIndex_of_lt inside
    apply StaysInTable.of_faults
    · intro fault ran
      rw [command, Framework.freePage] at ran
      rcases translate_ok printTlbResult accessRead state indexed with ⟨⟨result, looked⟩, translated⟩
      rw [translated] at ran
      cases result with
      | none => cases ran
      | some result =>
          dsimp only at ran
          cases freed : Vm.freePage vpn looked with
          | ok after =>
              rw [freed] at ran
              cases ran
          | error raised =>
              rw [freed] at ran
              cases ran
              unfold Vm.freePage at freed
              rw [indexed] at freed
              dsimp only at freed
              split at freed
              · cases freed
              · rename_i pte found
                split at freed
                · rename_i valid
                  split at freed
                  · cases freed
                  · rename_i outside
                    cases freed
                    refine .inr ⟨rfl, fun zeroed => outside ?_⟩
                    have stillFormed := (wellFormed zeroed).retagged (translate_cases translated).1
                    have entry := State.entry_of_pte found
                    rw [← entry] at valid ⊢
                    exact (stillFormed.permitted _ stillFormed.current_lt valid).1
                · cases freed
    · rintro page (impossible | impossible) _ _
      · cases impossible
      · cases impossible

end Commands

private theorem ReachedWith.wellFormed {printTlbResult : Bool} {state : State}
    (reached : ReachedWith Heap.zeroed printTlbResult state) : WellFormed state := by
  rcases reached with ⟨commands, events, ran⟩
  exact run_wellFormed initSystem_wellFormed ran

/-- In every state that is reached, whatever `malloc` has returned, a command that
names a page stays in the page table exactly if it is guarded. -/
theorem stays_in_table_iff {heap : Heap} {printTlbResult : Bool} {input : Command} {vpn : Nat} {state : State}
    (reached : ReachedWith heap printTlbResult state) (named : input.page = some vpn) :
    StaysInTable heap printTlbResult input state ↔ input.Guarded state := by
  have seated := reached.seated
  have wellFormed : heap = Heap.zeroed -> WellFormed state := by
    rintro rfl
    exact reached.wellFormed
  cases input with
  | switch pid => cases named
  | free page => exact free_iff seated wellFormed
  | read page => exact access_iff seated wellFormed (by decide) rfl rfl
  | write page => exact access_iff seated wellFormed (by decide) rfl rfl
  | alloc page rw => exact alloc_iff seated rw
  | access page rw => exact access_iff seated wellFormed (makeRwflag_legal rw) rfl rfl

/-- Reading another page of the directory that the only page allocated is in. -/
theorem stays_in_table_neighbour : Exists fun state => ReachedWith Heap.zeroed false state ∧
    StaysInTable Heap.zeroed false (.read 1) state := by
  have ran : Exists fun events => Exists fun state =>
      (simulator Heap.zeroed false).run [.alloc 0 ['r']] initSystem = .ok (events, state) ∧
        ((state.process state.current).pagetable.pdes 0).isSome = true := ⟨_, _, rfl, rfl⟩
  rcases ran with ⟨events, state, ran, there⟩
  have reached : ReachedWith Heap.zeroed false state := ⟨_, events, ran⟩
  exact ⟨state, reached, (stays_in_table_iff reached rfl).mpr fun _ => ⟨0, rfl, there⟩⟩

/-- The first command reads page 0, which has no directory. -/
theorem read_through_null : ReachedWith Heap.zeroed false initSystem ∧ ¬ initSystem.HasDirectory 0 ∧
    command Heap.zeroed false (.read 0) initSystem = .error .nullDirectory ∧
      ¬ StaysInTable Heap.zeroed false (.read 0) initSystem := by
  have absent : ¬ initSystem.HasDirectory 0 := by
    rintro ⟨directory, _, there⟩
    cases there
  exact ⟨⟨[], [], rfl⟩, absent, rfl, fun stays => stays.present rfl⟩

end Vm
end OsPa
