import OsPa.Vm.Allocation
import OsPa.Vm.InTable

namespace OsPa
namespace Vm

open Library Framework

/-!
# The two ways to ask for writing

`write` passes `ACCESS_WRITE`, and `access` with a `w` passes `ACCESS_READ` too.
The page walk tests the bit and the handler compares with `ACCESS_READ`, so that
neither can tell the two apart.  The TLB compares flags in their order, where an
entry that has `ACCESS_WRITE` alone stands between them.  The memory manager stores
no such entry in a page table, but a block of `malloc` may hold one, which is then
cached like any other.
-/

/-- The page is not mapped for writing only. -/
def State.PageReadable (state : State) (vpn : Nat) : Prop :=
  (state.page state.current vpn).valid = true -> (state.page state.current vpn).rw ≠ accessWrite

/-- No entry of the TLB is for writing only. -/
def State.TlbReadable (state : State) : Prop :=
  forall i vpn, state.tags i = some vpn -> (state.tlb i).rw ≠ accessWrite

/-- The command names no page that is mapped for writing only. -/
def Command.NamesReadable (input : Command) (state : State) : Prop :=
  forall vpn, input.page = some vpn -> state.PageReadable vpn

section Access

variable {heap : Heap} {printTlbResult : Bool} {state : State} {vpn : Nat}

private theorem lookupTlb_write (readable : state.TlbReadable) (vpn : Nat) :
    lookupTlb vpn 3 state = lookupTlb vpn accessWrite state := by
  have same : forall i,
      ((state.tlb i).valid && (state.tlb i).vpn == vpn && decide (3 ≤ (state.tlb i).rw)) =
        ((state.tlb i).valid && (state.tlb i).vpn == vpn && decide (accessWrite ≤ (state.tlb i).rw)) := by
    intro i
    cases tagged : (state.tlb i).valid && (state.tlb i).vpn == vpn with
    | false => rfl
    | true =>
        rw [Bool.and_eq_true, beq_iff_eq] at tagged
        have flags := readable i vpn (State.tags_eq_some.mpr tagged)
        rw [Bool.true_and, Bool.true_and, decide_eq_decide]
        unfold accessWrite at flags ⊢
        omega
  unfold lookupTlb
  rw [funext same]

private theorem translate_write (readable : printTlbResult = true -> state.TlbReadable) (vpn : Nat) :
    Framework.translate printTlbResult 3 vpn state = Framework.translate printTlbResult accessWrite vpn state := by
  have supplied : (if printTlbResult then lookupTlb vpn 3 state else none) =
      if printTlbResult then lookupTlb vpn accessWrite state else none := by
    split
    case isTrue enabled => exact lookupTlb_write (readable enabled) vpn
    case isFalse => rfl
  unfold Framework.translate
  rw [supplied]
  rfl

private theorem handlePageFault_write (heap : Heap) (vpn : Nat) (state : State) :
    handlePageFault heap vpn 3 state = handlePageFault heap vpn accessWrite state := by
  have asked : (3 > accessRead) = (accessWrite > accessRead) := by decide
  unfold handlePageFault
  simp only [asked]

private theorem accessLoop_write (readable : printTlbResult = true -> state.TlbReadable) (vpn retries : Nat) :
    accessLoop heap printTlbResult vpn 3 retries state =
      accessLoop heap printTlbResult vpn accessWrite retries state := by
  induction retries generalizing state with
  | zero => rfl
  | succ retries inductionHypothesis =>
      rw [accessLoop, accessLoop, translate_write readable]
      cases translated : Framework.translate printTlbResult accessWrite vpn state with
      | error fault => rfl
      | ok result =>
          rcases result with ⟨_ | _, missed⟩
          case some => rfl
          case none =>
            dsimp only
            rw [handlePageFault_write]
            cases ran : handlePageFault heap vpn accessWrite missed with
            | error fault => rfl
            | ok result =>
                rcases result with ⟨_ | _, handled⟩
                case false => rfl
                case true =>
                  apply inductionHypothesis
                  intro enabled i page tagged
                  have tlb : handled.tlb = state.tlb := by
                    rw [(handlePageFault_kept ran).2, (translate_cases translated).2 rfl]
                  rw [tlb]
                  apply readable enabled i page
                  rw [State.tags, ← tlb]
                  exact tagged

private theorem accessMemory_write (readable : printTlbResult = true -> state.TlbReadable) (vpn : Nat) :
    accessMemory heap printTlbResult vpn 3 state = accessMemory heap printTlbResult vpn accessWrite state := by
  have legal : ¬ (3 &&& accessRead) ^^^ (3 &&& accessWrite) = 0 := by decide
  have legal' : ¬ (accessWrite &&& accessRead) ^^^ (accessWrite &&& accessWrite) = 0 := by decide
  unfold accessMemory
  rw [if_neg legal, if_neg legal', accessLoop_write readable]

end Access

/-! ## What is cached -/

section Cached

variable {heap : Heap} {printTlbResult : Bool} {state after : State} {vpn rw : Nat}

private theorem initSystem_tlbReadable : initSystem.TlbReadable :=
  fun _ _ never => absurd never.symm (Option.some_ne_none _)

/-- Entries that are left or taken over are readable. -/
theorem State.TlbReadable.of_left (readable : state.TlbReadable)
    (left : forall i page, after.tags i = some page -> state.tags i = some page ∧ after.tlb i = state.tlb i) :
    after.TlbReadable := by
  intro i page tagged
  rw [(left i page tagged).2]
  exact readable i page (left i page tagged).1

theorem State.TlbReadable.of_tlb (readable : state.TlbReadable) (tlb : after.tlb = state.tlb) :
    after.TlbReadable := by
  apply readable.of_left
  intro i page tagged
  rw [State.tags, tlb] at tagged
  exact ⟨tagged, congrFun tlb i⟩

private theorem State.TlbReadable.insertTlb (readable : state.TlbReadable) (flags : rw ≠ accessWrite) (pfn : Nat) :
    (insertTlb vpn rw pfn state).TlbReadable := by
  rcases insertTlb_cases vpn rw pfn state with ⟨same, _⟩ | ⟨i, inserted⟩
  · rw [same]
    exact readable
  · intro index page tagged
    by_cases here : index = i
    · rw [here, inserted.stored.2.1]
      exact flags
    · rw [(inserted.elsewhere here).1] at tagged
      rw [(inserted.elsewhere here).2]
      exact readable index page tagged

theorem State.TlbReadable.translate {result : Option (Nat × Bool)} (readable : state.TlbReadable)
    (page : state.PageReadable vpn) (seated : Seated state)
    (ran : Framework.translate printTlbResult rw vpn state = .ok (result, after)) : after.TlbReadable := by
  unfold Framework.translate at ran
  rw [seated.running] at ran
  split at ran
  case h_1 =>
    cases ran
    exact readable
  case h_2 =>
    dsimp only at ran
    split at ran
    case h_1 => cases ran
    case h_2 directory indexed =>
      split at ran
      case h_1 =>
        cases ran
        exact readable
      case h_2 pte found =>
        have entry := State.page_of_indexed indexed state state.current
        rw [State.entry_of_pte found] at entry
        unfold State.PageReadable at page
        rw [entry] at page
        split at ran
        case isTrue =>
          cases ran
          exact readable
        case isFalse valid =>
          split at ran
          case isTrue =>
            cases ran
            exact readable
          case isFalse =>
            cases ran
            split
            case isTrue => exact readable.insertTlb (page (by simpa using valid)) pte.pfn
            case isFalse => exact readable

theorem State.pageReadable_setPte {directory : Fin nrPdesPerPage} (indexed : pdeIndex vpn = some directory)
    {stored : Pte} (flags : stored.rw ≠ accessWrite) (state : State) :
    (state.setPte (state.current, directory, pteIndex vpn) stored).PageReadable vpn := by
  unfold State.PageReadable
  rw [State.page_of_indexed indexed, (SameProcesses.setPte ..).current]
  cases present : state.pte (state.current, directory, pteIndex vpn) with
  | none =>
      rw [State.setPte_of_absent present, State.entry_of_absent present]
      exact fun never => absurd never Bool.false_ne_true
  | some pte =>
      rw [State.entry_setPte (by rw [present]; exact Option.some_ne_none pte), Function.update_self]
      exact fun _ => flags

private theorem State.PageReadable.allocPage {result : Option Nat} (page : state.PageReadable vpn)
    (flags : rw ≠ accessWrite) (ran : allocPage heap vpn rw state = .ok (result, after)) : after.PageReadable vpn := by
  cases result with
  | none =>
      unfold Vm.allocPage at ran
      split at ran
      case h_1 =>
        cases ran
        exact page
      case h_2 =>
        dsimp only at ran
        split at ran <;> cases ran
  | some pfn =>
      rcases allocPage_some ran with ⟨directory, indexed, rfl⟩
      have stored : (⟨true, rw, pfn, rw⟩ : Pte).rw ≠ accessWrite := flags
      exact State.pageReadable_setPte indexed stored _

/-- The handler makes a page readable and writable, or leaves it as it is. -/
private theorem State.PageReadable.handlePageFault {result : Bool} (page : state.PageReadable vpn)
    (ran : handlePageFault heap vpn rw state = .ok (result, after)) : after.PageReadable vpn := by
  have both : 3 ≠ accessWrite := by decide
  unfold Vm.handlePageFault at ran
  split at ran
  case h_1 => cases ran
  case h_2 directory indexed =>
    split at ran
    case h_1 => cases ran
    case h_2 pte found =>
      split at ran
      case isTrue =>
        cases ran
        exact page
      case isFalse =>
        split at ran
        case isFalse =>
          cases ran
          exact page
        case isTrue =>
          split at ran
          case isFalse => cases ran
          case isTrue =>
            split at ran
            case isTrue =>
              have dropped : (state.decrMapcount pte.pfn).PageReadable vpn := page
              split at ran
              case h_1 => cases ran
              case h_2 allocated =>
                cases ran
                exact dropped.allocPage both allocated
            case isFalse =>
              cases ran
              have stored : ({ pte with rw := 3 } : Pte).rw ≠ accessWrite := both
              exact State.pageReadable_setPte indexed stored state

private theorem State.TlbReadable.accessLoop {retries : Nat} {access : Access} (readable : state.TlbReadable)
    (page : state.PageReadable vpn) (seated : Seated state)
    (ran : accessLoop heap printTlbResult vpn rw retries state = .ok (access, after)) : after.TlbReadable := by
  induction retries generalizing state with
  | zero =>
      cases ran
      exact readable
  | succ retries inductionHypothesis =>
      rw [Framework.accessLoop] at ran
      split at ran
      case h_1 => cases ran
      case h_2 translated =>
        cases ran
        exact readable.translate page seated translated
      case h_3 missed translated =>
        cases (translate_cases translated).2 rfl
        split at ran
        case h_1 => cases ran
        case h_2 handled fault =>
          have kept := handlePageFault_kept fault
          exact inductionHypothesis (readable.of_tlb kept.2) (page.handlePageFault fault)
            ((Steady.of_tlb kept.1 kept.2).seated seated) ran
        case h_3 refused fault =>
          cases ran
          exact readable.of_tlb (handlePageFault_kept fault).2

private theorem State.TlbReadable.freePage {event : Event} (readable : state.TlbReadable)
    (page : state.PageReadable vpn)
    (seated : Seated state) (ran : Framework.freePage printTlbResult vpn state = .ok (event, after)) :
    after.TlbReadable := by
  unfold Framework.freePage at ran
  split at ran
  case h_1 => cases ran
  case h_2 translated =>
    cases ran
    exact readable.translate page seated translated
  case h_3 translated =>
    split at ran
    case h_1 => cases ran
    case h_2 freed =>
      cases ran
      exact (readable.translate page seated translated).of_left (freePage_kept freed).2

private theorem State.TlbReadable.allocPage {event : Event} (readable : state.TlbReadable)
    (page : state.PageReadable vpn)
    (seated : Seated state) (ran : Framework.allocPage heap printTlbResult vpn rw state = .ok (event, after)) :
    after.TlbReadable := by
  unfold Framework.allocPage at ran
  split at ran
  case isTrue => cases ran
  case isFalse =>
    split at ran
    case h_1 => cases ran
    case h_2 translated =>
      cases ran
      exact readable.translate page seated translated
    case h_3 translated =>
      have first := readable.translate page seated translated
      split at ran
      case h_1 => cases ran
      case h_2 allocated =>
        cases ran
        exact first.of_tlb (allocPage_kept allocated).2
      case h_3 allocated =>
        cases ran
        exact first.of_tlb (allocPage_kept allocated).2

/-- A command that names no page for writing only caches none. -/
theorem State.TlbReadable.command {input : Command} {event : Event} (readable : state.TlbReadable)
    (names : input.NamesReadable state) (seated : Seated state)
    (ran : command heap printTlbResult input state = .ok (event, after)) : after.TlbReadable := by
  have accessed : forall {vpn flags : Nat}, state.PageReadable vpn ->
      reportAccess (accessMemory heap printTlbResult vpn flags state) = .ok (event, after) -> after.TlbReadable := by
    intro vpn flags page reported
    rcases reportAccess_cases reported with ⟨access, _, ran⟩
    exact readable.accessLoop page seated (accessMemory_cases ran)
  cases input with
  | switch pid =>
      have empty := flushTlb_tags seated.inside (switchProcess_any (switch_event ran).2).2
      intro i page tagged
      rw [empty i] at tagged
      cases tagged
  | free vpn => exact readable.freePage (names vpn rfl) seated ran
  | read vpn => exact accessed (names vpn rfl) ran
  | write vpn => exact accessed (names vpn rfl) ran
  | alloc vpn rw => exact readable.allocPage (names vpn rfl) seated ran
  | access vpn rw => exact accessed (names vpn rfl) ran

end Cached

/-- In the state, writing to any page is the same by either command. -/
def State.SameWrites (heap : Heap) (printTlbResult : Bool) (state : State) : Prop :=
  forall vpn flags, 'w' ∈ flags ∨ 'W' ∈ flags ->
    accessMemory heap printTlbResult vpn (makeRwflag flags) state =
      accessMemory heap printTlbResult vpn accessWrite state

private theorem State.TlbReadable.sameWrites {heap : Heap} {printTlbResult : Bool} {state : State}
    (readable : printTlbResult = true -> state.TlbReadable) : state.SameWrites heap printTlbResult := by
  intro vpn flags writes
  rw [makeRwflag_eq, if_pos writes]
  exact accessMemory_write readable vpn

/-- After a run that names no page for writing only, and after every run without
the TLB or with blocks that `malloc` clears, an access for writing is a write. -/
theorem access_is_write {heap : Heap} {printTlbResult : Bool} {commands : List Command} {events : List Event}
    {state : State} (ran : (simulator heap printTlbResult).run commands initSystem = .ok (events, state)) :
    ((printTlbResult = true -> (simulator heap printTlbResult).Within Command.NamesReadable commands initSystem) ->
      state.SameWrites heap printTlbResult) ∧
    (heap = Heap.zeroed -> state.SameWrites heap printTlbResult) := by
  constructor
  · intro within
    apply State.TlbReadable.sameWrites
    intro enabled
    have holds := (simulator heap printTlbResult).run_invariant (fun state => state.TlbReadable ∧ Seated state)
      (fun _ _ _ _ names holds stepped => ⟨holds.1.command names holds.2 stepped, holds.2.command stepped⟩)
      (within enabled) ⟨initSystem_tlbReadable, initSystem_seated⟩ ran
    exact holds.1
  · rintro rfl
    apply State.TlbReadable.sameWrites
    intro _
    have readable : forall {state : State} {input : Command}, WellFormed state -> input.NamesReadable state := by
      intro state input wellFormed vpn _ valid
      rcases wellFormed.page_rw valid with one | three
      · rw [one]
        decide
      · rw [three]
        decide
    have holds := (simulator Heap.zeroed printTlbResult).run_invariant
      (fun state => state.TlbReadable ∧ Seated state ∧ WellFormed state)
      (fun _ _ _ _ _ holds stepped => ⟨holds.1.command (readable holds.2.2) holds.2.1 stepped,
        holds.2.1.command stepped, holds.2.2.command stepped⟩)
      (Machine.within_of_forall_mem _ (fun _ _ _ => trivial) initSystem : Machine.Within _ (fun _ _ => True) _ _)
      ⟨initSystem_tlbReadable, initSystem_seated, initSystem_wellFormed⟩ ran
    exact holds.1

/-- The page is shared with a child, which has cached it for reading. -/
theorem access_is_write_shared : Exists fun events => Exists fun state =>
    (simulator Heap.zeroed true).run [.alloc 5 ['w'], .switch 1, .read 5] initSystem = .ok (events, state) ∧
      accessMemory Heap.zeroed true 5 (makeRwflag ['w']) state =
        accessMemory Heap.zeroed true 5 accessWrite state := by
  have found : Exists fun events => Exists fun state =>
      (simulator Heap.zeroed true).run [.alloc 5 ['w'], .switch 1, .read 5] initSystem = .ok (events, state) :=
    ⟨_, _, rfl⟩
  rcases found with ⟨events, state, ran⟩
  exact ⟨events, state, ran, (access_is_write ran).2 rfl 5 ['w'] (Or.inl List.mem_cons_self)⟩

/-- Blocks that look like page directories whose pages can be written only. -/
def Heap.writeOnly : Heap where
  directory := fun _ => ⟨fun _ => ⟨true, accessWrite, 0, 0⟩⟩
  process := Heap.zeroed.process

/-- An entry that is left over in the block of the new directory has been cached. -/
theorem access_is_not_write : Exists fun events => Exists fun state =>
    (simulator Heap.writeOnly true).run [.alloc 5 ['r'], .read 6] initSystem = .ok (events, state) ∧
      state.HasDirectory 6 ∧
      (Exists fun after => accessMemory Heap.writeOnly true 6 (makeRwflag ['w']) state =
        .ok (.translated 0 false, after)) ∧
      accessMemory Heap.writeOnly true 6 accessWrite state = .ok (.translated 0 true, state) ∧
      ¬ state.SameWrites Heap.writeOnly true := by
  have ran : Exists fun events => Exists fun state =>
      (simulator Heap.writeOnly true).run [.alloc 5 ['r'], .read 6] initSystem = .ok (events, state) ∧
        state.HasDirectory 6 ∧
        (Exists fun after => accessMemory Heap.writeOnly true 6 (makeRwflag ['w']) state =
          .ok (.translated 0 false, after)) ∧
        accessMemory Heap.writeOnly true 6 accessWrite state = .ok (.translated 0 true, state) :=
    ⟨_, _, rfl, ⟨0, rfl, rfl⟩, ⟨_, rfl⟩, rfl⟩
  rcases ran with ⟨events, state, ran, there, ⟨after, missed⟩, hit⟩
  refine ⟨events, state, ran, there, ⟨after, missed⟩, hit, ?_⟩
  intro same
  have equal := same 6 ['w'] (Or.inl List.mem_cons_self)
  rw [missed, hit] at equal
  cases equal

end Vm
end OsPa
