import OsPa.Vm.InTable
import OsPa.Vm.Marked

namespace OsPa
namespace Vm

open Library Framework

/-!
# Uninitialised memory

A new page directory is used as `malloc` returns it, and so is the outer table of a new
process.  The contents of the blocks show as soon as an entry is read that nothing has
been stored to.  Until then the outcomes are the same whatever the blocks hold.
-/

/-- The command reads no entry with a mark: neither that for its page nor, when a
process is forked, one of the running process. -/
structure Command.ReadsStored (input : Command) (state : State) : Prop where
  page : forall vpn, input.page = some vpn -> state.Clear vpn
  fork : forall pid, input = .switch pid -> ¬ state.Listed pid ->
    forall place, state.pte (state.current, place) ≠ some Pte.mark

/-- The state of a run with marks and that of the run with other contents. -/
structure Mirrors (content : Option Pte -> Prop) (marked state : State) : Prop where
  fills : Fills content marked state
  seated : Seated marked
  populated : Populated marked

private theorem Mirrors.initSystem (content : Option Pte -> Prop) : Mirrors content initSystem initSystem :=
  ⟨Fills.initSystem, initSystem_seated, initSystem_populated⟩

section Commands

variable {content : Option Pte -> Prop} {heap : Heap} {printTlbResult : Bool} {input : Command} {marked state : State}

theorem Fills.command (mirrors : Mirrors content marked state) (holds : heap.Holds content)
    (reads : input.ReadsStored marked) :
    Machine.Agree id id (Fills content) (command Heap.marked printTlbResult input marked)
      (command heap printTlbResult input state) := by
  have exist := mirrors.populated.exist marked.current List.mem_cons_self
  cases input with
  | switch pid =>
      rw [Vm.command, Vm.command]
      rcases (mirrors.fills.switchProcess holds exist (reads.fork pid rfl)).cases with
        ⟨fault, left, right⟩ | ⟨_, _, left, right, switched⟩
      · rw [left, right]
        rfl
      · rw [left, right]
        exact ⟨rfl, switched⟩
  | free vpn => exact mirrors.fills.freePage_command mirrors.seated (reads.page vpn rfl)
  | read vpn => exact mirrors.fills.accessMemory holds mirrors.seated (reads.page vpn rfl) accessRead
  | write vpn => exact mirrors.fills.accessMemory holds mirrors.seated (reads.page vpn rfl) accessWrite
  | alloc vpn rw => exact mirrors.fills.allocPage_command holds mirrors.seated (reads.page vpn rfl) (makeRwflag rw)
  | access vpn rw => exact mirrors.fills.accessMemory holds mirrors.seated (reads.page vpn rfl) (makeRwflag rw)

theorem Mirrors.command (mirrors : Mirrors content marked state) (holds : heap.Holds content)
    (reads : input.ReadsStored marked) :
    Machine.Agree id id (Mirrors content) (command Heap.marked printTlbResult input marked)
      (command heap printTlbResult input state) := by
  rcases (Fills.command mirrors holds reads).cases with
    ⟨fault, left, right⟩ | ⟨event, after, event', after', left, right, seen, fills⟩
  · rw [left, right]
    rfl
  · rw [left, right]
    exact ⟨seen, fills, mirrors.seated.command left, mirrors.populated.command mirrors.seated left⟩

end Commands

/-! ## Runs -/

/-- The runs with two heaps yield the same events and the same mapcounts. -/
def SameResults (printTlbResult : Bool) (commands : List Command) (heap heap' : Heap) (state state' : State) : Prop :=
  Machine.Agree id id (fun after after' => after.mapcounts = after'.mapcounts)
    ((simulator heap printTlbResult).run commands state) ((simulator heap' printTlbResult).run commands state')

theorem Mirrors.run {content : Option Pte -> Prop} {heap : Heap} {printTlbResult : Bool} {commands : List Command}
    {marked state : State} (mirrors : Mirrors content marked state) (holds : heap.Holds content)
    (within : (simulator Heap.marked printTlbResult).Within Command.ReadsStored commands marked) :
    Machine.Agree id id (Mirrors content) ((simulator Heap.marked printTlbResult).run commands marked)
      ((simulator heap printTlbResult).run commands state) := by
  have lockstep := (simulator Heap.marked printTlbResult).run_lockstep (simulator heap printTlbResult) id id
    (Mirrors content) (fun _ _ same => congrArg Event.stops same)
    (fun _ _ _ reads mirrors => mirrors.command holds reads) within mirrors
  rw [List.map_id_fun] at lockstep
  exact lockstep

/-! ## Reading what has not been stored -/

/-- An entry for a frame that does not exist. -/
def Pte.dirt : Pte := ⟨true, 3, nrPageframes, 3⟩

section Contrast

variable {printTlbResult : Bool} {vpn rw : Nat} {directory : Fin nrPdesPerPage} {marked blank dirty state : State}
  {related : State -> State -> Prop}

/-- The page is not cached, and its entry is as given. -/
structure Uncached (vpn : Nat) (directory : Fin nrPdesPerPage) (entry : Pte) (state : State) : Prop where
  indexed : pdeIndex vpn = some directory
  running : state.ptbr = some state.current
  missed : forall rw, lookupTlb vpn rw state = none
  entry : state.entry (state.current, directory, pteIndex vpn) = entry

private theorem Mirrors.uncached {content : Option Pte -> Prop} {entry : Pte} (mirrors : Mirrors content marked state)
    (shows : forall found, content found -> found.getD Pte.zero = entry) (indexed : pdeIndex vpn = some directory)
    (mark : marked.pte (marked.current, directory, pteIndex vpn) = some Pte.mark) :
    Uncached vpn directory entry state := by
  have fills := mirrors.fills
  refine ⟨indexed, ?_, fun rw => ?_, ?_⟩
  · rw [fills.same.ptbr, fills.same.current]
    exact mirrors.seated.running
  · have missed : lookupTlb vpn rw marked = none := by
      apply mirrors.seated.lookupTlb_none
      intro other pte indexed' found written
      rw [indexed] at indexed'
      cases indexed'
      rw [mark] at found
      exact written.ne_mark found.symm
    unfold lookupTlb at missed ⊢
    rw [fills.tlb]
    exact missed
  · rw [State.entry, fills.same.current]
    exact shows _ (fills.unstored _ mark)

theorem Uncached.translate_zero (uncached : Uncached vpn directory Pte.zero state) (printTlbResult : Bool) (rw : Nat) :
    translate printTlbResult rw vpn state = .ok (none, state) := by
  rw [translate_walk uncached.indexed uncached.running fun _ => uncached.missed rw, uncached.entry, if_neg]
  exact fun valid => Bool.false_ne_true valid.1

theorem Uncached.translate_dirt (uncached : Uncached vpn directory Pte.dirt state) (printTlbResult : Bool) (rw : Nat) :
    Exists fun after => translate printTlbResult rw vpn state = .ok (some (nrPageframes, false), after) := by
  have writable : ¬ (rw &&& accessWrite ≠ 0 ∧ Pte.dirt.rw &&& accessWrite = 0) := fun denied =>
    absurd denied.2 (by decide)
  rw [translate_walk uncached.indexed uncached.running fun _ => uncached.missed rw, uncached.entry,
    if_pos ⟨rfl, writable⟩]
  exact ⟨_, rfl⟩

/-- An access to a page that shows as absent is denied, or faults. -/
private theorem Uncached.accessLoop_zero (uncached : Uncached vpn directory Pte.zero state) (heap : Heap)
    (printTlbResult : Bool) (rw retries : Nat) :
    accessLoop heap printTlbResult vpn rw (retries + 1) state = .error .nullDirectory ∨
      accessLoop heap printTlbResult vpn rw (retries + 1) state = .ok (.denied, state) := by
  rw [accessLoop, uncached.translate_zero]
  dsimp only
  unfold handlePageFault
  rw [uncached.indexed]
  dsimp only
  cases found : state.pte (state.current, directory, pteIndex vpn) with
  | none => exact .inl rfl
  | some pte =>
      have invalid : pte.valid = false := by
        rw [← State.entry_of_pte found, uncached.entry]
        rfl
      dsimp only
      rw [if_pos invalid]
      exact .inr rfl

private theorem Uncached.accessLoop_dirt (uncached : Uncached vpn directory Pte.dirt state) (heap : Heap)
    (printTlbResult : Bool) (rw retries : Nat) :
    Exists fun after => accessLoop heap printTlbResult vpn rw (retries + 1) state =
      .ok (.translated nrPageframes false, after) := by
  rcases uncached.translate_dirt printTlbResult rw with ⟨after, translated⟩
  exact ⟨after, by rw [accessLoop, translated]⟩

private theorem access_differs (absent : Uncached vpn directory Pte.zero blank)
    (present : Uncached vpn directory Pte.dirt dirty) (legal : (rw &&& accessRead) ^^^ (rw &&& accessWrite) ≠ 0)
    (heap heap' : Heap) :
    ¬ Machine.Agree id id related (reportAccess (accessMemory heap printTlbResult vpn rw blank))
      (reportAccess (accessMemory heap' printTlbResult vpn rw dirty)) := by
  have inside := inRange_of_indexed absent.indexed
  rw [accessMemory_eq legal inside, accessMemory_eq legal inside]
  rcases present.accessLoop_dirt heap' printTlbResult rw 1 with ⟨after, translated⟩
  rw [translated]
  intro agree
  rcases absent.accessLoop_zero heap printTlbResult rw 1 with faulted | denied
  · rw [faulted] at agree
    exact agree
  · rw [denied] at agree
    cases agree.1

private theorem alloc_differs (absent : Uncached vpn directory Pte.zero blank)
    (present : Uncached vpn directory Pte.dirt dirty) (legal : ¬ (rw = 0 ∨ rw &&& accessRead = 0)) (heap heap' : Heap) :
    ¬ Machine.Agree id id related (Framework.allocPage heap printTlbResult vpn rw blank)
      (Framework.allocPage heap' printTlbResult vpn rw dirty) := by
  rcases present.translate_dirt printTlbResult accessRead with ⟨after, translated⟩
  rcases allocPage_ok absent.indexed heap rw blank with ⟨⟨given, allocated⟩, mapped⟩
  unfold Framework.allocPage
  rw [if_neg legal, if_neg legal, absent.translate_zero, translated]
  dsimp only
  rw [mapped]
  intro agree
  cases given with
  | none => cases agree.1
  | some pfn => cases agree.1

private theorem free_differs (absent : Uncached vpn directory Pte.zero blank)
    (present : Uncached vpn directory Pte.dirt dirty) :
    ¬ Machine.Agree id id related (Framework.freePage printTlbResult vpn blank)
      (Framework.freePage printTlbResult vpn dirty) := by
  rcases present.translate_dirt printTlbResult accessRead with ⟨after, translated⟩
  have retagged := (translate_cases translated).1
  have faulted : Vm.freePage vpn after = .error .mapcountsOutOfBounds := by
    have entry : after.entry (after.current, directory, pteIndex vpn) = Pte.dirt := by
      rw [retagged.entry, retagged.same.current]
      exact present.entry
    have valid : (after.entry (after.current, directory, pteIndex vpn)).valid = true := by
      rw [entry]
      rfl
    have found := State.pte_of_valid valid
    unfold Vm.freePage
    rw [present.indexed]
    dsimp only
    rw [found, entry]
    rfl
  unfold Framework.freePage
  rw [absent.translate_zero, translated]
  dsimp only
  rw [faulted]
  exact id

end Contrast

section Fork

variable {state : State}

/-- In the course of a fork: an entry of the parent is for a frame that does not exist. -/
structure Soiled (change : Nat) (place : Place) (state : State) : Prop where
  parent : state.current ≠ change
  entry : Exists fun pte => state.pte (state.current, place) = some pte ∧ pte.valid = true ∧ ¬ pte.pfn < nrPageframes

theorem Soiled.keep {change : Nat} {place : Place} {before after : State} (soiled : Soiled change place before)
    (current : after.current = before.current)
    (same : after.pte (before.current, place) = before.pte (before.current, place)) : Soiled change place after := by
  refine ⟨?_, ?_⟩
  · rw [current]
    exact soiled.parent
  · rw [current, same]
    exact soiled.entry

/-- The inner loop stores at its own index only. -/
theorem forkPte_pte_of_ne {change : Nat} {i : Fin nrPdesPerPage} {j : Fin nrPtesPerPage} {before after : State}
    (ran : forkPte change i before j = .ok after) {slot : Slot} (different : slot.2 ≠ (i, j)) :
    after.pte slot = before.pte slot := by
  have elsewhere : forall owner, slot ≠ (owner, i, j) := fun owner same => different (congrArg Prod.snd same)
  unfold forkPte at ran
  split at ran
  · cases ran
  · rename_i pte _
    split at ran
    · split at ran
      · have copied : ((before.setPte (change, i, j) pte).incrMapcount pte.pfn).pte slot = before.pte slot :=
          State.pte_setPte_of_ne (elsewhere change) before pte
        dsimp only at ran
        split at ran
        · cases ran
          rw [State.pte_setPte_of_ne (elsewhere _), State.pte_setPte_of_ne (elsewhere _), copied]
        · cases ran
          rw [State.pte_setPte_of_ne (elsewhere _), copied]
      · cases ran
    · cases ran
      rfl

/-- At the index of the soiled entry the inner loop faults. -/
theorem Soiled.forkPte_fails {change : Nat} {i : Fin nrPdesPerPage} {j : Fin nrPtesPerPage} {before after : State}
    (soiled : Soiled change (i, j) before) : forkPte change i before j ≠ .ok after := by
  rcases soiled.entry with ⟨pte, found, valid, outside⟩
  unfold forkPte
  rw [found]
  dsimp only
  rw [if_pos valid, if_neg outside]
  exact nofun

theorem Soiled.forkPte {change : Nat} {place : Place} {i : Fin nrPdesPerPage} {j : Fin nrPtesPerPage}
    {before after : State} (soiled : Soiled change place before) (ran : forkPte change i before j = .ok after) :
    Soiled change place after := by
  have different : place ≠ (i, j) := by
    rintro rfl
    exact soiled.forkPte_fails ran
  exact soiled.keep (forkPte_same ran).1.current (forkPte_pte_of_ne ran different)

/-- The directory of a soiled entry is there. -/
private theorem Soiled.present {change : Nat} {place : Place} (soiled : Soiled change place state) :
    Exists fun directory => (state.process state.current).pagetable.pdes place.1 = some directory := by
  rcases soiled.entry with ⟨pte, found, _⟩
  have present := pte_isSome state state.current place
  rw [found] at present
  exact Option.isSome_iff_exists.mp present.symm

theorem Soiled.setDirectory {change : Nat} {place : Place} (soiled : Soiled change place state) (i : Fin nrPdesPerPage)
    (fresh : PteDirectory) : Soiled change place (state.setDirectory change i fresh) := by
  refine soiled.keep rfl ?_
  rw [State.pte_setDirectory, if_neg fun here => soiled.parent here.1]

private theorem Soiled.forkDirectory {heap : Heap} {change : Nat} {place : Place} {i : Fin nrPdesPerPage}
    {before after : State}
    (soiled : Soiled change place before) (ran : forkDirectory heap change before i = .ok after) :
    Soiled change place after := by
  have requested : Soiled change place { before with nrMallocs := before.nrMallocs + 1 } := soiled.keep rfl rfl
  unfold Vm.forkDirectory at ran
  dsimp only at ran
  split at ran
  · cases ran
    exact requested
  · exact foldlM_invariant (fun _ state => Soiled change place state) (fun _ _ _ _ _ holds body => holds.forkPte body)
      (List.nodup_finRange _) (requested.setDirectory i _) ran

private theorem Soiled.forkDirectory_fails {heap : Heap} {change : Nat} {place : Place} {before after : State}
    (soiled : Soiled change place before) : Vm.forkDirectory heap change before place.1 ≠ .ok after := by
  have requested : Soiled change place { before with nrMallocs := before.nrMallocs + 1 } := soiled.keep rfl rfl
  rcases soiled.present with ⟨directory, found⟩
  unfold Vm.forkDirectory
  dsimp only
  rw [found]
  dsimp only
  refine foldlM_fails (fun state => Soiled change place state) ?_ (List.nodup_finRange _)
    (List.mem_finRange place.2) ?_ (requested.setDirectory place.1 _)
  · exact fun _ _ _ holds body => holds.forkPte body
  · exact fun _ _ holds => holds.forkPte_fails

/-- A process with such an entry cannot be forked. -/
private theorem forkProcess_fails {heap : Heap} {pid : Nat} {place : Place} {pte : Pte} {after : State}
    (exist : state.current < state.nrProcesses) (found : state.pte (state.current, place) = some pte)
    (valid : pte.valid = true) (outside : ¬ pte.pfn < nrPageframes) : forkProcess heap pid state ≠ .ok after := by
  have different := Nat.ne_of_lt exist
  let created : State :=
    { state with
      process := Function.update state.process state.nrProcesses { heap.process state.nrMallocs with pid := pid }
      nrProcesses := state.nrProcesses + 1
      nrMallocs := state.nrMallocs + 1 }
  have soiled : Soiled state.nrProcesses place created := by
    refine ⟨different, pte, ?_, valid, outside⟩
    rw [← found]
    simp only [State.pte, created, Function.update_of_ne different]
  have fails : forall final,
      (List.finRange nrPdesPerPage).foldlM (Vm.forkDirectory heap state.nrProcesses) created ≠ .ok final := by
    intro final
    refine foldlM_fails (fun state' => Soiled state.nrProcesses place state') ?_ (List.nodup_finRange _)
      (List.mem_finRange place.1) ?_ soiled
    · exact fun _ _ _ holds body => holds.forkDirectory body
    · exact fun _ _ holds => holds.forkDirectory_fails
  intro ran
  unfold forkProcess at ran
  dsimp only at ran
  split at ran
  · cases ran
  · rename_i final looped
    exact fails final looped

end Fork

/-! ## Exactly when the contents do not show -/

/-- The heap whose blocks are full of such entries. -/
def Heap.dirty : Heap := Heap.filled Pte.dirt

/-- A command that reads a mark shows what stands there instead. -/
private theorem results_differ {printTlbResult : Bool} {input : Command} {marked blank dirty : State}
    (absent : Mirrors (fun found => found = none ∨ found = some Pte.zero) marked blank)
    (present : Mirrors (· = some Pte.dirt) marked dirty) (wellFormed : WellFormed blank)
    (reads : ¬ input.ReadsStored marked) :
    ¬ SameResults printTlbResult [input] Heap.zeroed Heap.dirty blank dirty := by
  intro same
  unfold SameResults at same
  rw [← List.map_id_fun] at same
  have agree : Machine.Agree id id (fun after after' => after.mapcounts = after'.mapcounts)
    (command Heap.zeroed printTlbResult input blank) (command Heap.dirty printTlbResult input dirty) :=
    (simulator Heap.zeroed printTlbResult).agree_run_single.mp same
  by_cases paged : Exists fun vpn => Exists fun directory => input.page = some vpn ∧ pdeIndex vpn = some directory ∧
      marked.pte (marked.current, directory, pteIndex vpn) = some Pte.mark
  · rcases paged with ⟨vpn, directory, named, indexed, mark⟩
    have zero := absent.uncached (by rintro found (rfl | rfl) <;> rfl) indexed mark
    have dirt := present.uncached (by rintro found rfl; rfl) indexed mark
    cases input with
    | switch pid => cases named
    | free page =>
        cases named
        exact free_differs zero dirt agree
    | read page =>
        cases named
        exact access_differs zero dirt (by decide) _ _ agree
    | write page =>
        cases named
        exact access_differs zero dirt (by decide) _ _ agree
    | alloc page rw =>
        cases named
        exact alloc_differs zero dirt (makeRwflag_readable rw) _ _ agree
    | access page rw =>
        cases named
        exact access_differs zero dirt (makeRwflag_legal rw) _ _ agree
  · apply reads
    refine ⟨fun vpn named directory indexed mark => paged ⟨vpn, directory, named, indexed, mark⟩, ?_⟩
    rintro pid rfl unlisted place mark
    have fills := present.fills
    have found : dirty.pte (dirty.current, place) = some Pte.dirt := by
      rw [fills.same.current]
      exact fills.unstored _ mark
    have exist : dirty.current < dirty.nrProcesses := by
      rw [fills.same.current, fills.same.nrProcesses]
      exact present.populated.exist marked.current List.mem_cons_self
    rcases wellFormed.switchProcess_ok pid with ⟨after, switched⟩
    rw [command, command, switched] at agree
    cases ran : switchProcess Heap.dirty pid dirty with
    | error fault =>
        rw [ran] at agree
        exact agree
    | ok forked =>
        unfold switchProcess at ran
        split at ran
        · rename_i change selected
          refine unlisted ⟨change, ?_, ?_⟩
          · rw [← fills.same.processes]
            exact List.mem_of_find?_eq_some selected
          · rw [← fills.same.pid]
            simpa using List.find?_some selected
        · split at ran
          · cases ran
          · rename_i final looped
            exact forkProcess_fails exist found rfl (Nat.lt_irrefl _) looped

/-- Where the outcomes are the same with blocks of zeros and with blocks of such
entries, no mark is read. -/
private theorem within_of_sameResults {printTlbResult : Bool} {commands : List Command} {marked blank dirty : State}
    (absent : Mirrors (fun found => found = none ∨ found = some Pte.zero) marked blank)
    (present : Mirrors (· = some Pte.dirt) marked dirty) (wellFormed : WellFormed blank)
    (same : forall executed, executed <+: commands ->
      SameResults printTlbResult executed Heap.zeroed Heap.dirty blank dirty) :
    (simulator Heap.marked printTlbResult).Within Command.ReadsStored commands marked := by
  induction commands generalizing marked blank dirty with
  | nil => trivial
  | cons input commands inductionHypothesis =>
      have reads : input.ReadsStored marked := by
        by_contra unstored
        exact results_differ absent present wellFormed unstored (same [input] (List.prefix_append [input] commands))
      refine ⟨reads, ?_⟩
      have left : Machine.Agree id id _ ((simulator Heap.marked printTlbResult).step input marked)
        ((simulator Heap.zeroed printTlbResult).step input blank) := absent.command Heap.zeroed_holds reads
      have right : Machine.Agree id id _ ((simulator Heap.marked printTlbResult).step input marked)
        ((simulator Heap.dirty printTlbResult).step input dirty) := present.command (Heap.filled_holds _) reads
      rcases left.cases with ⟨fault, stepped, _⟩ | ⟨event, next, event', next', stepped, stepped', seen, absentNext⟩
      · rw [stepped]
        trivial
      · rcases right.cases with ⟨fault, impossible, _⟩ | ⟨_, _, event'', next'', again, stepped'', seen', presentNext⟩
        · rw [stepped] at impossible
          cases impossible
        · rw [stepped] at again ⊢
          cases again
          cases seen
          cases seen'
          intro continues
          apply inductionHypothesis absentNext presentNext (wellFormed.command stepped')
          intro executed beginning
          have whole := same (input :: executed) (List.cons_prefix_cons.mpr ⟨rfl, beginning⟩)
          unfold SameResults at whole ⊢
          rw [Machine.run_cons _ _ stepped' continues, Machine.run_cons _ _ stepped'' continues] at whole
          rw [← List.map_id_fun] at whole ⊢
          exact Machine.Agree.of_cons whole

/-- Whatever the blocks of `malloc` hold, the commands have the same outcomes and leave
the same mapcounts, just when none of them reads an entry that nothing has been stored
to, which shows in the run with marks. -/
theorem heap_unobserved_iff (printTlbResult : Bool) (commands : List Command) :
    (forall executed, executed <+: commands -> forall heap heap',
      SameResults printTlbResult executed heap heap' initSystem initSystem) ↔
        (simulator Heap.marked printTlbResult).Within Command.ReadsStored commands initSystem := by
  constructor
  · intro same
    exact within_of_sameResults (Mirrors.initSystem _) (Mirrors.initSystem _) initSystem_wellFormed
      fun executed beginning => same executed beginning Heap.zeroed Heap.dirty
  · intro within executed beginning heap heap'
    have before := within.of_prefix _ beginning
    have left := (Mirrors.initSystem _).run heap.holds_any before
    have right := (Mirrors.initSystem _).run heap'.holds_any before
    exact left.triangle right fun _ _ _ first second => first.fills.mapcounts.trans second.fills.mapcounts.symm

/-- Page 0 is allocated, and page 1, which is in the same directory, is read. -/
theorem heap_observed : (forall command, command ∈ [Command.alloc 0 ['r'], .read 1] -> command.InRange) ∧
    ¬ SameResults false [.alloc 0 ['r'], .read 1] Heap.zeroed (Heap.filled ⟨true, 3, 0, 3⟩) initSystem initSystem := by
  refine ⟨by decide, ?_⟩
  have cleared : Exists fun state => (simulator Heap.zeroed false).run [.alloc 0 ['r'], .read 1] initSystem =
      .ok ([.allocated 0, .accessed .denied], state) := ⟨_, rfl⟩
  have filled : Exists fun state =>
      (simulator (Heap.filled ⟨true, 3, 0, 3⟩) false).run [.alloc 0 ['r'], .read 1] initSystem =
        .ok ([.allocated 0, .accessed (.translated 0 false)], state) := ⟨_, rfl⟩
  rcases cleared with ⟨clearedState, cleared⟩
  rcases filled with ⟨filledState, filled⟩
  unfold SameResults
  rw [cleared, filled]
  intro agree
  exact absurd agree.1 (by decide)

end Vm
end OsPa
