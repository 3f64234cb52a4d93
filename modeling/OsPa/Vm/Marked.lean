import OsPa.Vm.Pids

namespace OsPa
namespace Vm

open Library Framework

/-!
# Blocks with marks

Let `malloc` return blocks in which each entry carries a mark that the memory manager
never stores.  In the run with such blocks an entry with the mark is one that nothing
has been stored to.  Any other contents of the blocks give the same state with the
marks replaced by these contents, as long as no entry with a mark is read.
-/

/-- An entry with a mark: `private` is never 4. -/
def Pte.mark : Pte := ⟨false, 0, 0, 4⟩

theorem Pte.Written.ne_mark {entry : Pte} (written : entry.Written) : some entry ≠ some Pte.mark := by
  rintro ⟨⟩
  rcases written with valid | zero
  · cases valid
  · cases zero

/-- The heap whose blocks hold an entry in all places, and have all directories. -/
def Heap.filled (entry : Pte) : Heap where
  directory := fun _ => ⟨fun _ => entry⟩
  process := fun _ => ⟨0, ⟨fun _ => some ⟨fun _ => entry⟩⟩⟩

def Heap.marked : Heap := Heap.filled Pte.mark

/-- What stands in the places of new blocks, where an absent directory is `none`. -/
structure Heap.Holds (heap : Heap) (content : Option Pte -> Prop) : Prop where
  directory : forall request entry, content (some ((heap.directory request).ptes entry))
  process : forall request directory entry,
    content (((heap.process request).pagetable.pdes directory).map fun present => present.ptes entry)

theorem Heap.filled_holds (entry : Pte) : (Heap.filled entry).Holds (· = some entry) :=
  ⟨fun _ _ => rfl, fun _ _ _ => rfl⟩

theorem Heap.zeroed_holds : Heap.zeroed.Holds fun found => found = none ∨ found = some Pte.zero :=
  ⟨fun _ _ => .inr rfl, fun _ _ _ => .inl rfl⟩

theorem Heap.holds_any (heap : Heap) : heap.Holds fun _ => True := ⟨fun _ _ => trivial, fun _ _ _ => trivial⟩

/-- The second state has contents of blocks where the first one has marks. -/
structure Fills (content : Option Pte -> Prop) (marked state : State) : Prop where
  same : SameProcesses marked state
  mapcounts : state.mapcounts = marked.mapcounts
  tlb : state.tlb = marked.tlb
  stored : forall slot, marked.pte slot ≠ some Pte.mark -> state.pte slot = marked.pte slot
  unstored : forall slot, marked.pte slot = some Pte.mark -> content (state.pte slot)

/-- No mark is in the entry for the page. -/
def State.Clear (state : State) (vpn : Nat) : Prop :=
  forall directory, pdeIndex vpn = some directory ->
    state.pte (state.current, directory, pteIndex vpn) ≠ some Pte.mark

private theorem Kept.clear {before after : State} {vpn : Nat} {directory : Fin nrPdesPerPage} {pte : Pte}
    (kept : Kept before after) (indexed : pdeIndex vpn = some directory)
    (found : before.pte (before.current, directory, pteIndex vpn) = some pte) (clear : before.Clear vpn) :
    after.Clear vpn := by
  intro other indexed'
  rw [indexed] at indexed'
  cases indexed'
  rcases kept.stored _ pte found with ⟨now, foundNow, same | written⟩
  · rw [kept.same.current, foundNow, same, ← found]
    exact clear directory indexed
  · rw [kept.same.current, foundNow]
    exact written.ne_mark

/-- A store keeps directories in place. -/
theorem setPte_present {state : State} {slot other : Slot} (there : state.pte other ≠ none) (stored : Pte) :
    (state.setPte slot stored).pte other ≠ none := by
  rw [← Option.isSome_iff_ne_none, pte_setPte_isSome, Option.isSome_iff_ne_none]
  exact there

private theorem setDirectory_present (state : State) (owner : Nat) (index : Fin nrPdesPerPage) (fresh : PteDirectory)
    (entry : Fin nrPtesPerPage) : (state.setDirectory owner index fresh).pte (owner, index, entry) ≠ none := by
  rw [State.pte_setDirectory, if_pos ⟨rfl, rfl⟩]
  exact Option.some_ne_none _

private theorem ensureDirectory_present (heap : Heap) (index : Fin nrPdesPerPage) (state : State)
    (entry : Fin nrPtesPerPage) : (ensureDirectory heap index state).pte (state.current, index, entry) ≠ none := by
  have there : ((ensureDirectory heap index state).pte (state.current, index, entry)).isSome = true := by
    rw [pte_isSome]
    unfold ensureDirectory
    split
    · rename_i found
      rw [found]
      rfl
    · simp only [State.setDirectory, Function.update_self, Option.isSome_some]
  exact Option.isSome_iff_ne_none.mp there

namespace Fills

variable {content : Option Pte -> Prop} {heap : Heap} {printTlbResult : Bool} {vpn rw : Nat} {marked state : State}

theorem initSystem : Fills content initSystem initSystem :=
  ⟨SameProcesses.refl _, rfl, rfl, fun _ _ => rfl, nofun⟩

theorem recount (fills : Fills content marked state) (mapcounts : Nat -> Nat) :
    Fills content { marked with mapcounts := mapcounts } { state with mapcounts := mapcounts } :=
  ⟨⟨fills.same.nrProcesses, fills.same.current, fills.same.processes, fills.same.ptbr, fills.same.pid⟩, rfl, fills.tlb,
    fills.stored, fills.unstored⟩

theorem incrMapcount (fills : Fills content marked state) (pfn : Nat) :
    Fills content (marked.incrMapcount pfn) (state.incrMapcount pfn) := by
  unfold State.incrMapcount
  rw [fills.mapcounts]
  exact fills.recount _

theorem decrMapcount (fills : Fills content marked state) (pfn : Nat) :
    Fills content (marked.decrMapcount pfn) (state.decrMapcount pfn) := by
  unfold State.decrMapcount
  rw [fills.mapcounts]
  exact fills.recount _

theorem retag (fills : Fills content marked state) (tlb : Nat -> TlbEntry) :
    Fills content { marked with tlb := tlb } { state with tlb := tlb } :=
  ⟨⟨fills.same.nrProcesses, fills.same.current, fills.same.processes, fills.same.ptbr, fills.same.pid⟩, fills.mapcounts,
    rfl, fills.stored, fills.unstored⟩

/-- The numbers of blocks requested may differ. -/
theorem request (fills : Fills content marked state) (nrMallocs nrMallocs' : Nat) :
    Fills content { marked with nrMallocs := nrMallocs } { state with nrMallocs := nrMallocs' } :=
  ⟨⟨fills.same.nrProcesses, fills.same.current, fills.same.processes, fills.same.ptbr, fills.same.pid⟩, fills.mapcounts,
    fills.tlb, fills.stored, fills.unstored⟩

/-- A store to an entry of a directory that both have, or neither. -/
theorem setPte (fills : Fills content marked state) {slot : Slot} {stored : Pte}
    (present : state.pte slot = none ↔ marked.pte slot = none) (written : stored.Written) :
    Fills content (marked.setPte slot stored) (state.setPte slot stored) := by
  by_cases absent : marked.pte slot = none
  · rw [State.setPte_of_absent absent, State.setPte_of_absent (present.mpr absent)]
    exact fills
  · have there : state.pte slot ≠ none := fun missing => absent (present.mp missing)
    have changed := (SameProcesses.setPte marked slot stored).symm
    refine ⟨changed.trans (fills.same.trans (SameProcesses.setPte state slot stored)), ?_, ?_, ?_, ?_⟩
    · rw [setPte_mapcounts, setPte_mapcounts]
      exact fills.mapcounts
    · rw [setPte_tlb, setPte_tlb]
      exact fills.tlb
    · intro other clear
      rw [State.pte_setPte absent] at clear ⊢
      rw [State.pte_setPte there]
      split
      · rfl
      · rename_i elsewhere
        rw [if_neg elsewhere] at clear
        exact fills.stored other clear
    · intro other mark
      rw [State.pte_setPte absent] at mark
      rw [State.pte_setPte there]
      split at mark
      · exact absurd mark written.ne_mark
      · rename_i elsewhere
        rw [if_neg elsewhere]
        exact fills.unstored other mark

/-- New directories in the same place. -/
theorem setDirectory (fills : Fills content marked state) (owner : Nat) (index : Fin nrPdesPerPage)
    {fresh fresh' : PteDirectory} (marks : forall entry, fresh.ptes entry = Pte.mark)
    (contents : forall entry, content (some (fresh'.ptes entry))) :
    Fills content (marked.setDirectory owner index fresh) (state.setDirectory owner index fresh') := by
  have changed := (SameProcesses.setDirectory marked owner index fresh).symm
  refine ⟨changed.trans (fills.same.trans (SameProcesses.setDirectory state owner index fresh')),
    fills.mapcounts, fills.tlb, ?_, ?_⟩
  · intro slot clear
    rw [State.pte_setDirectory] at clear
    split at clear
    · exact absurd (congrArg some (marks slot.2.2)) clear
    · rename_i elsewhere
      rw [State.pte_setDirectory, State.pte_setDirectory, if_neg elsewhere, if_neg elsewhere]
      exact fills.stored slot clear
  · intro slot mark
    rw [State.pte_setDirectory] at mark ⊢
    split at mark
    · rename_i here
      rw [if_pos here]
      exact contents slot.2.2
    · rename_i elsewhere
      rw [if_neg elsewhere]
      exact fills.unstored slot mark

/-! ## The memory manager -/

theorem ensureDirectory (fills : Fills content marked state) (holds : heap.Holds content)
    {index : Fin nrPdesPerPage} {entry : Fin nrPtesPerPage}
    (clear : marked.pte (marked.current, index, entry) ≠ some Pte.mark) :
    Fills content (ensureDirectory Heap.marked index marked) (ensureDirectory heap index state) := by
  have same := congrArg Option.isSome (fills.stored _ clear)
  rw [pte_isSome marked marked.current (index, entry), pte_isSome state marked.current (index, entry)] at same
  unfold Vm.ensureDirectory
  rw [fills.same.current]
  cases found : (marked.process marked.current).pagetable.pdes index with
  | none =>
      rw [found] at same
      rw [Option.isNone_iff_eq_none.mp (Option.isSome_eq_false_iff.mp same)]
      exact (fills.setDirectory marked.current index (fun _ => rfl) (holds.directory _)).request _ _
  | some directory =>
      rw [found] at same
      rcases Option.isSome_iff_exists.mp same with ⟨directory', found'⟩
      rw [found']
      exact fills

theorem allocPage (fills : Fills content marked state) (holds : heap.Holds content) (clear : marked.Clear vpn)
    (rw : Nat) :
    Machine.Agree id id (Fills content) (allocPage Heap.marked vpn rw marked) (allocPage heap vpn rw state) := by
  unfold Vm.allocPage
  rw [fills.mapcounts]
  split
  · exact ⟨rfl, fills⟩
  · rename_i pfn _
    dsimp only
    split
    · rfl
    · rename_i directory indexed
      have counted := fills.incrMapcount pfn
      have ensured := counted.ensureDirectory holds (clear directory indexed)
      have owner := (Kept.ensureDirectory Heap.marked directory (marked.incrMapcount pfn)).1.same.current
      have there := ensureDirectory_present Heap.marked directory (marked.incrMapcount pfn) (pteIndex vpn)
      have there' := ensureDirectory_present heap directory (state.incrMapcount pfn) (pteIndex vpn)
      refine ⟨rfl, ?_⟩
      rw [ensured.same.current, owner]
      rw [counted.same.current] at there'
      exact ensured.setPte (iff_of_false there' there) (.inl rfl)

theorem invalidateTlb (fills : Fills content marked state) (vpn : Nat) :
    Fills content (invalidateTlb vpn marked) (invalidateTlb vpn state) := by
  unfold Vm.invalidateTlb
  rw [fills.tlb]
  split
  · exact fills
  · exact fills.retag _

theorem freePage (fills : Fills content marked state) (clear : marked.Clear vpn) :
    Agrees (Fills content) (Vm.freePage vpn marked) (Vm.freePage vpn state) := by
  unfold Vm.freePage
  cases indexed : pdeIndex vpn with
  | none => rfl
  | some directory =>
      have same := fills.stored _ (clear directory indexed)
      dsimp only
      rw [fills.same.current, same]
      cases found : marked.pte (marked.current, directory, pteIndex vpn) with
      | none => exact fills
      | some pte =>
          dsimp only
          split
          · have absent : state.pte (marked.current, directory, pteIndex vpn) = none ↔
                marked.pte (marked.current, directory, pteIndex vpn) = none := by rw [same]
            have cleared := fills.setPte absent (.inr rfl)
            split
            · exact (cleared.decrMapcount pte.pfn).invalidateTlb vpn
            · rfl
          · exact fills

theorem handlePageFault (fills : Fills content marked state) (holds : heap.Holds content) (clear : marked.Clear vpn)
    (rw : Nat) :
    Machine.Agree id id (Fills content) (handlePageFault Heap.marked vpn rw marked)
      (handlePageFault heap vpn rw state) := by
  unfold Vm.handlePageFault
  cases indexed : pdeIndex vpn with
  | none => rfl
  | some directory =>
      have same := fills.stored _ (clear directory indexed)
      dsimp only
      rw [fills.same.current, same]
      cases found : marked.pte (marked.current, directory, pteIndex vpn) with
      | none => rfl
      | some pte =>
          dsimp only
          split
          · exact ⟨rfl, fills⟩
          · rename_i valid
            split
            · split
              · rw [fills.mapcounts]
                split
                · have dropped := fills.decrMapcount pte.pfn
                  have stillClear : (marked.decrMapcount pte.pfn).Clear vpn := clear
                  rcases (dropped.allocPage holds stillClear 3).cases with
                    ⟨fault, left, right⟩ | ⟨_, _, _, _, left, right, _, copied⟩
                  · rw [left, right]
                    rfl
                  · rw [left, right]
                    exact ⟨rfl, copied⟩
                · have present : state.pte (marked.current, directory, pteIndex vpn) = none ↔
                      marked.pte (marked.current, directory, pteIndex vpn) = none := by rw [same]
                  exact ⟨rfl, fills.setPte present (.inl (by simpa using valid))⟩
              · rfl
            · exact ⟨rfl, fills⟩

/-! ## The framework -/

theorem insertTlb (fills : Fills content marked state) (vpn rw pfn : Nat) :
    Fills content (insertTlb vpn rw pfn marked) (insertTlb vpn rw pfn state) := by
  unfold Vm.insertTlb
  rw [fills.tlb]
  split
  · exact fills
  · split
    · exact fills.retag _
    · exact fills.retag _

theorem translate (fills : Fills content marked state) (running : marked.ptbr = some marked.current)
    (clear : marked.Clear vpn) (printTlbResult : Bool) (rw : Nat) :
    Machine.Agree id id (Fills content) (translate printTlbResult rw vpn marked)
      (translate printTlbResult rw vpn state) := by
  have lookup : lookupTlb vpn rw state = lookupTlb vpn rw marked := by
    unfold lookupTlb
    rw [fills.tlb]
  unfold Framework.translate
  rw [lookup]
  split
  · exact ⟨rfl, fills⟩
  · rw [fills.same.ptbr, running]
    dsimp only
    cases indexed : pdeIndex vpn with
    | none => rfl
    | some directory =>
        dsimp only
        rw [fills.stored _ (clear directory indexed)]
        split
        · exact ⟨rfl, fills⟩
        · split
          · exact ⟨rfl, fills⟩
          · split
            · exact ⟨rfl, fills⟩
            · refine ⟨rfl, ?_⟩
              split
              · exact fills.insertTlb vpn _ _
              · exact fills

/-- The retry loop.  A fault that is handled stores to the entry, or leaves it. -/
theorem accessLoop (fills : Fills content marked state) (holds : heap.Holds content) (seated : Seated marked)
    (clear : marked.Clear vpn) (rw retries : Nat) :
    Machine.Agree id id (Fills content) (accessLoop Heap.marked printTlbResult vpn rw retries marked)
      (accessLoop heap printTlbResult vpn rw retries state) := by
  induction retries generalizing marked state with
  | zero => exact ⟨rfl, fills⟩
  | succ retries inductionHypothesis =>
      rw [Framework.accessLoop, Framework.accessLoop]
      rcases (fills.translate seated.running clear printTlbResult rw).cases with
        ⟨fault, left, right⟩ | ⟨result, missed, result', missed', left, right, seen, kept⟩
      · rw [left, right]
        rfl
      · rw [left, right]
        cases seen
        cases result with
        | some result => exact ⟨rfl, kept⟩
        | none =>
            have untouched := (translate_cases left).2 rfl
            subst untouched
            dsimp only
            rcases (kept.handlePageFault holds clear rw).cases with
              ⟨fault, handling, handling'⟩ | ⟨answer, handled, answer', handled', handling, handling', seen, resolved⟩
            · rw [handling, handling']
              rfl
            · rw [handling, handling']
              cases seen
              cases answer with
              | false => exact ⟨rfl, resolved⟩
              | true =>
                  have after := handlePageFault_kept handling
                  rcases handlePageFault_found handling with ⟨directory, pte, indexed, found⟩
                  exact inductionHypothesis resolved ((Steady.of_tlb after.1 after.2).seated seated)
                    (after.1.clear indexed found clear)

theorem accessMemory (fills : Fills content marked state) (holds : heap.Holds content) (seated : Seated marked)
    (clear : marked.Clear vpn) (rw : Nat) :
    Machine.Agree id id (Fills content) (reportAccess (accessMemory Heap.marked printTlbResult vpn rw marked))
      (reportAccess (accessMemory heap printTlbResult vpn rw state)) := by
  unfold Framework.accessMemory
  split
  · rfl
  · split
    · rcases (fills.accessLoop holds seated clear rw 2).cases with
        ⟨fault, left, right⟩ | ⟨_, _, _, _, left, right, seen, kept⟩
      · rw [left, right]
        rfl
      · rw [left, right]
        exact ⟨congrArg Event.accessed seen, kept⟩
    · rfl

theorem allocPage_command (fills : Fills content marked state) (holds : heap.Holds content) (seated : Seated marked)
    (clear : marked.Clear vpn) (rw : Nat) :
    Machine.Agree id id (Fills content) (Framework.allocPage Heap.marked printTlbResult vpn rw marked)
      (Framework.allocPage heap printTlbResult vpn rw state) := by
  unfold Framework.allocPage
  split
  · rfl
  · rcases (fills.translate seated.running clear printTlbResult accessRead).cases with
      ⟨fault, left, right⟩ | ⟨result, missed, result', missed', left, right, seen, kept⟩
    · rw [left, right]
      rfl
    · rw [left, right]
      cases seen
      cases result with
      | some result => exact ⟨rfl, kept⟩
      | none =>
          have untouched := (translate_cases left).2 rfl
          subst untouched
          dsimp only
          rcases (kept.allocPage holds clear rw).cases with
            ⟨fault, mapped, mapped'⟩ | ⟨given, _, given', _, mapped, mapped', seen, allocated⟩
          · rw [mapped, mapped']
            rfl
          · rw [mapped, mapped']
            cases seen
            cases given with
            | none => exact ⟨rfl, allocated⟩
            | some pfn => exact ⟨rfl, allocated⟩

theorem freePage_command (fills : Fills content marked state) (seated : Seated marked) (clear : marked.Clear vpn) :
    Machine.Agree id id (Fills content) (Framework.freePage printTlbResult vpn marked)
      (Framework.freePage printTlbResult vpn state) := by
  unfold Framework.freePage
  rcases (fills.translate seated.running clear printTlbResult accessRead).cases with
    ⟨fault, left, right⟩ | ⟨result, looked, result', looked', left, right, seen, kept⟩
  · rw [left, right]
    rfl
  · rw [left, right]
    cases seen
    cases result with
    | none => exact ⟨rfl, kept⟩
    | some result =>
        have retagged := (translate_cases left).1
        have stillClear : looked.Clear vpn := by
          intro directory indexed
          rw [retagged.pte, retagged.same.current]
          exact clear directory indexed
        dsimp only
        rcases (kept.freePage stillClear).cases with ⟨fault, freed, freed'⟩ | ⟨_, _, freed, freed', after⟩
        · rw [freed, freed']
          rfl
        · rw [freed, freed']
          exact ⟨rfl, after⟩

/-! ## Switches -/

/-- In the course of a fork: the parent has no marks. -/
structure ForkingAlike (content : Option Pte -> Prop) (change : Nat) (marked state : State) : Prop where
  fills : Fills content marked state
  parent : marked.current ≠ change
  clear : forall place, marked.pte (marked.current, place) ≠ some Pte.mark

/-- A store to an entry that both have. -/
theorem ForkingAlike.setPte {change : Nat} (forking : ForkingAlike content change marked state) {slot : Slot}
    {stored : Pte} (there : marked.pte slot ≠ none) (there' : state.pte slot ≠ none) (written : stored.Written) :
    ForkingAlike content change (marked.setPte slot stored) (state.setPte slot stored) := by
  have current := (SameProcesses.setPte marked slot stored).current
  refine ⟨forking.fills.setPte (iff_of_false there' there) written, ?_, fun place => ?_⟩
  · rw [current]
    exact forking.parent
  · rw [current, State.pte_setPte there]
    split
    · exact written.ne_mark
    · exact forking.clear place

/-- The inner loop: both have the child's directory. -/
structure SharingAlike (content : Option Pte -> Prop) (change : Nat) (index : Fin nrPdesPerPage)
    (marked state : State) : Prop where
  forking : ForkingAlike content change marked state
  child : forall entry, marked.pte (change, index, entry) ≠ none
  child' : forall entry, state.pte (change, index, entry) ≠ none

theorem SharingAlike.setPte {change : Nat} {index : Fin nrPdesPerPage}
    (sharing : SharingAlike content change index marked state) {slot : Slot} (stored : Pte)
    (there : marked.pte slot ≠ none) (there' : state.pte slot ≠ none) (written : stored.Written) :
    SharingAlike content change index (marked.setPte slot stored) (state.setPte slot stored) :=
  ⟨sharing.forking.setPte there there' written, fun entry => setPte_present (sharing.child entry) stored,
    fun entry => setPte_present (sharing.child' entry) stored⟩

theorem SharingAlike.incrMapcount {change : Nat} {index : Fin nrPdesPerPage}
    (sharing : SharingAlike content change index marked state) (pfn : Nat) :
    SharingAlike content change index (marked.incrMapcount pfn) (state.incrMapcount pfn) :=
  ⟨⟨sharing.forking.fills.incrMapcount pfn, sharing.forking.parent, sharing.forking.clear⟩, sharing.child,
    sharing.child'⟩

theorem SharingAlike.forkPte {change : Nat} {index : Fin nrPdesPerPage}
    (sharing : SharingAlike content change index marked state) (entry : Fin nrPtesPerPage) :
    Agrees (SharingAlike content change index) (forkPte change index marked entry)
      (forkPte change index state entry) := by
  have same := sharing.forking.fills.stored _ (sharing.forking.clear (index, entry))
  unfold Vm.forkPte
  rw [sharing.forking.fills.same.current, same]
  cases found : marked.pte (marked.current, index, entry) with
  | none => rfl
  | some pte =>
      dsimp only
      split
      · rename_i valid
        have written : pte.Written := .inl valid
        split
        · have copied := (sharing.setPte pte (sharing.child entry) (sharing.child' entry) written).incrMapcount pte.pfn
          split
          · let readOnly : Pte := { pte with rw := 1 }
            have still : readOnly.Written := .inl valid
            have protected_ := copied.setPte readOnly (copied.child entry) (copied.child' entry) still
            have parent : marked.pte (marked.current, index, entry) ≠ none := by rw [found]; nofun
            have parent' : state.pte (marked.current, index, entry) ≠ none := by rw [same, found]; nofun
            let left := (marked.setPte (change, index, entry) pte).incrMapcount pte.pfn
            let right := (state.setPte (change, index, entry) pte).incrMapcount pte.pfn
            have there : left.pte (marked.current, index, entry) ≠ none := setPte_present parent pte
            have there' : right.pte (marked.current, index, entry) ≠ none := setPte_present parent' pte
            have owner : left.current = marked.current :=
              (SameProcesses.setPte marked (change, index, entry) pte).current
            have owner' : right.current = marked.current :=
              (SameProcesses.setPte state (change, index, entry) pte).current.trans sharing.forking.fills.same.current
            rw [owner, owner']
            exact protected_.setPte readOnly (setPte_present there readOnly) (setPte_present there' readOnly) still
          · exact copied.setPte pte (copied.child entry) (copied.child' entry) written
        · rfl
      · exact sharing

theorem ForkingAlike.forkDirectory {change : Nat} (forking : ForkingAlike content change marked state)
    (holds : heap.Holds content) (index : Fin nrPdesPerPage) :
    Agrees (ForkingAlike content change) (forkDirectory Heap.marked change marked index)
      (forkDirectory heap change state index) := by
  have same := congrArg Option.isSome (forking.fills.stored _ (forking.clear (index, 0)))
  rw [pte_isSome marked marked.current (index, 0), pte_isSome state marked.current (index, 0)] at same
  have requested : ForkingAlike content change { marked with nrMallocs := marked.nrMallocs + 1 }
      { state with nrMallocs := state.nrMallocs + 1 } :=
    ⟨forking.fills.request _ _, forking.parent, forking.clear⟩
  have owner := forking.fills.same.current
  unfold Vm.forkDirectory
  dsimp only
  cases found : (marked.process marked.current).pagetable.pdes index with
  | none =>
      have absent : (state.process state.current).pagetable.pdes index = none := by
        rw [owner]
        rw [found] at same
        exact Option.isNone_iff_eq_none.mp (Option.isSome_eq_false_iff.mp same)
      rw [absent]
      exact requested
  | some directory =>
      have present : Exists fun directory' => (state.process state.current).pagetable.pdes index = some directory' := by
        rw [owner]
        rw [found] at same
        exact Option.isSome_iff_exists.mp same
      rcases present with ⟨directory', found'⟩
      rw [found']
      dsimp only
      have entered : SharingAlike content change index
          (({ marked with nrMallocs := marked.nrMallocs + 1 } : State).setDirectory change index
            (Heap.marked.directory marked.nrMallocs))
          (({ state with nrMallocs := state.nrMallocs + 1 } : State).setDirectory change index
            (heap.directory state.nrMallocs)) := by
        refine ⟨⟨requested.fills.setDirectory change index (fun _ => rfl) (holds.directory _), forking.parent,
          fun place => ?_⟩, setDirectory_present _ _ _ _, setDirectory_present _ _ _ _⟩
        rw [State.pte_setDirectory, if_neg fun here => forking.parent here.1]
        exact forking.clear place
      rcases (foldlM_agrees (SharingAlike content change index) (fun entry _ _ sharing => sharing.forkPte entry)
          (List.finRange nrPtesPerPage) entered).cases with ⟨fault, left, right⟩ | ⟨_, _, left, right, shared⟩
      · rw [left, right]
        rfl
      · rw [left, right]
        exact shared.forking

/-- A fork of a process whose entries have all been stored to. -/
theorem forkProcess (fills : Fills content marked state) (holds : heap.Holds content)
    (exist : marked.current < marked.nrProcesses)
    (clear : forall place, marked.pte (marked.current, place) ≠ some Pte.mark) (pid : Nat) :
    Agrees (Fills content) (forkProcess Heap.marked pid marked) (forkProcess heap pid state) := by
  have different : marked.current ≠ marked.nrProcesses := Nat.ne_of_lt exist
  unfold Vm.forkProcess
  dsimp only
  rw [fills.same.nrProcesses]
  let left : State :=
    { marked with
      process := Function.update marked.process marked.nrProcesses
        { Heap.marked.process marked.nrMallocs with pid := pid }
      nrProcesses := marked.nrProcesses + 1
      nrMallocs := marked.nrMallocs + 1 }
  let right : State :=
    { state with
      process := Function.update state.process marked.nrProcesses
        { heap.process state.nrMallocs with pid := pid }
      nrProcesses := marked.nrProcesses + 1
      nrMallocs := state.nrMallocs + 1 }
  have leftOld : forall {slot : Slot}, slot.1 ≠ marked.nrProcesses -> left.pte slot = marked.pte slot := by
    intro slot old
    simp only [State.pte, left, Function.update_of_ne old]
  have rightOld : forall {slot : Slot}, slot.1 ≠ marked.nrProcesses -> right.pte slot = state.pte slot := by
    intro slot old
    simp only [State.pte, right, Function.update_of_ne old]
  have created : ForkingAlike content marked.nrProcesses left right := by
    refine ⟨⟨⟨rfl, fills.same.current, fills.same.processes, fills.same.ptbr, fun process => ?_⟩, fills.mapcounts,
      fills.tlb, ?_, ?_⟩, different, fun place => ?_⟩
    · by_cases new : process = marked.nrProcesses
      · subst new
        simp only [left, right, Function.update_self]
      · simp only [left, right, Function.update_of_ne new]
        exact fills.same.pid process
    · intro slot unmarked
      by_cases new : slot.1 = marked.nrProcesses
      · refine absurd ?_ unmarked
        simp only [State.pte, left, new, Function.update_self]
        rfl
      · rw [leftOld new] at unmarked ⊢
        rw [rightOld new]
        exact fills.stored slot unmarked
    · intro slot mark
      by_cases new : slot.1 = marked.nrProcesses
      · simp only [State.pte, right, new, Function.update_self]
        exact holds.process _ _ _
      · rw [leftOld new] at mark
        rw [rightOld new]
        exact fills.unstored slot mark
    · rw [leftOld different]
      exact clear place
  rcases (foldlM_agrees (ForkingAlike content marked.nrProcesses)
      (fun index _ _ forking => forking.forkDirectory holds index) (List.finRange nrPdesPerPage) created).cases with
    ⟨fault, ran, ran'⟩ | ⟨copied, copied', ran, ran', forked⟩
  · rw [ran, ran']
    rfl
  · rw [ran, ran']
    have shared := forked.fills
    refine ⟨⟨shared.same.nrProcesses, rfl, ?_, rfl, shared.same.pid⟩, shared.mapcounts, shared.tlb, shared.stored,
      shared.unstored⟩
    change copied'.processes ++ [copied'.current] = copied.processes ++ [copied.current]
    rw [shared.same.processes, shared.same.current]

theorem flushTlb (fills : Fills content marked state) : Fills content (flushTlb marked) (flushTlb state) := by
  unfold Vm.flushTlb
  rw [fills.tlb]
  exact fills.retag _

theorem switchProcess (fills : Fills content marked state) (holds : heap.Holds content)
    (exist : marked.current < marked.nrProcesses) {pid : Nat}
    (clear : ¬ marked.Listed pid -> forall place, marked.pte (marked.current, place) ≠ some Pte.mark) :
    Agrees (Fills content) (switchProcess Heap.marked pid marked) (switchProcess heap pid state) := by
  have search : (state.processes.find? fun change => (state.process change).pid == pid) =
      marked.processes.find? fun change => (marked.process change).pid == pid := by
    rw [fills.same.processes]
    exact congrArg (marked.processes.find? ·) (funext fun change => by rw [fills.same.pid])
  unfold Vm.switchProcess
  rw [search]
  cases found : marked.processes.find? fun change => (marked.process change).pid == pid with
  | some change =>
      have selected : Fills content
          { marked with current := change, ptbr := some change, processes := marked.processes.erase change }
          { state with current := change, ptbr := some change, processes := marked.processes.erase change } :=
        ⟨⟨fills.same.nrProcesses, rfl, rfl, rfl, fills.same.pid⟩, fills.mapcounts, fills.tlb, fills.stored,
          fills.unstored⟩
      rw [fills.same.processes]
      exact selected.flushTlb
  | none =>
      have unlisted : ¬ marked.Listed pid := by
        rintro ⟨listed, member, same⟩
        exact List.find?_eq_none.mp found listed member (beq_iff_eq.mpr same)
      rcases (fills.forkProcess holds exist (clear unlisted) pid).cases with
        ⟨fault, left, right⟩ | ⟨_, _, left, right, forked⟩
      · rw [left, right]
        rfl
      · rw [left, right]
        exact forked.flushTlb

end Fills

end Vm
end OsPa
