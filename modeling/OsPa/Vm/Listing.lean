import OsPa.Vm.Console
import OsPa.Vm.WellFormed

namespace OsPa
namespace Vm

open Library Framework

/-!
# What the page table shows

The command `show` prints in the order of the pages what the MMU translates, and marks
as writable what it translates for a write.
-/

/-- The frame that the MMU finds without the TLB. -/
def translated (rw vpn : Nat) (state : State) : Option Nat :=
  match Framework.translate false rw vpn state with
  | .ok (some (pfn, _), _) => some pfn
  | _ => none

/-- What the MMU makes of a page. -/
def mmuLine (state : State) (vpn : Nat) : Option PteLine :=
  (translated accessRead vpn state).map fun pfn =>
    ⟨vpn / nrPtesPerPage, vpn % nrPtesPerPage, true, true, (translated accessWrite vpn state).isSome, pfn⟩

section

variable {state : State} {vpn : Nat} {directory : Fin nrPdesPerPage}

private theorem translated_eq (indexed : pdeIndex vpn = some directory) (running : state.ptbr = some state.current)
    (rw : Nat) : translated rw vpn state =
      if (state.entry (state.current, directory, pteIndex vpn)).valid = true ∧
          ¬ (rw &&& accessWrite ≠ 0 ∧
            (state.entry (state.current, directory, pteIndex vpn)).rw &&& accessWrite = 0) then
        some (state.entry (state.current, directory, pteIndex vpn)).pfn
      else none := by
  unfold translated
  rw [translate_uncached indexed running]
  split
  · rename_i found
    split at found
    · rename_i served
      rw [if_pos served]
      cases found
      rfl
    · cases found
  · rename_i missed
    split at missed
    · exact absurd rfl (missed _ _ _)
    · rename_i denied
      rw [if_neg denied]

private theorem mmuLine_eq (indexed : pdeIndex vpn = some directory) (wellFormed : WellFormed state) :
    mmuLine state vpn =
      if (state.entry (state.current, directory, pteIndex vpn)).valid = true then
        some ((state.entry (state.current, directory, pteIndex vpn)).line (vpn / nrPtesPerPage) (vpn % nrPtesPerPage))
      else none := by
  have flags := fun valid => (wellFormed.permitted (state.current, directory, pteIndex vpn) wellFormed.current_lt
    valid).rw_cases
  unfold mmuLine
  rw [translated_eq indexed wellFormed.ptbr, translated_eq indexed wellFormed.ptbr]
  generalize state.entry (state.current, directory, pteIndex vpn) = entry at flags
  rcases entry with ⟨valid, rw, pfn, priv⟩
  cases valid with
  | false => rfl
  | true =>
      have read : ¬ (accessRead &&& accessWrite ≠ 0 ∧ rw &&& accessWrite = 0) := by simp [accessRead, accessWrite]
      rcases flags rfl with rfl | rfl
      · have denied : accessWrite &&& accessWrite ≠ 0 ∧ 1 &&& accessWrite = 0 := by decide
        rw [if_neg fun allowed => allowed.2 denied, if_pos ⟨rfl, read⟩, if_pos rfl]
        simp [Pte.line, accessRead, accessWrite]
      · have allowed : ¬ (accessWrite &&& accessWrite ≠ 0 ∧ 3 &&& accessWrite = 0) := by decide
        rw [if_pos ⟨rfl, allowed⟩, if_pos ⟨rfl, read⟩, if_pos rfl]
        simp [Pte.line, accessRead, accessWrite]

/-- The pages in the order of the two indices. -/
private theorem range_pages : List.range (nrPdesPerPage * nrPtesPerPage) =
    (List.finRange nrPdesPerPage).flatMap fun i =>
    (List.finRange nrPtesPerPage).map fun j : Fin nrPtesPerPage => nrPtesPerPage * i.val + j.val := by decide

private theorem indices_page (i : Fin nrPdesPerPage) (j : Fin nrPtesPerPage) :
    pdeIndex (nrPtesPerPage * i.val + j.val) = some i ∧ pteIndex (nrPtesPerPage * i.val + j.val) = j ∧
      (nrPtesPerPage * i.val + j.val) / nrPtesPerPage = i.val ∧
        (nrPtesPerPage * i.val + j.val) % nrPtesPerPage = j.val := by
  revert i j
  decide

/-- The listing of the page table, directory by directory. -/
private theorem showPagetable_eq (wellFormed : WellFormed state) :
    showPagetable false state = (List.range (nrPdesPerPage * nrPtesPerPage)).filterMap (mmuLine state) := by
  unfold showPagetable
  rw [range_pages, List.filterMap_flatMap]
  refine List.flatMap_congr fun i _ => ?_
  rw [List.filterMap_map]
  have line (j : Fin nrPtesPerPage) : mmuLine state (nrPtesPerPage * i.val + j.val) =
      if (state.entry (state.current, i, j)).valid = true then
        some ((state.entry (state.current, i, j)).line i.val j.val) else none := by
    rcases indices_page i j with ⟨indexed, isEntry, div, mod⟩
    rw [mmuLine_eq indexed wellFormed, isEntry, div, mod]
  cases stored : (state.process state.current).pagetable.pdes i with
  | none =>
      have absent (j : Fin nrPtesPerPage) : state.pte (state.current, i, j) = none := congrArg (Option.map _) stored
      symm
      refine List.filterMap_eq_nil_iff.mpr fun j _ => ?_
      exact (line j).trans (by rw [State.entry_of_absent (absent j)]; rfl)
  | some pd =>
      have present (j : Fin nrPtesPerPage) : state.pte (state.current, i, j) = some (pd.ptes j) :=
        congrArg (Option.map _) stored
      dsimp only
      rw [← List.filterMap_eq_filter, List.map_filterMap]
      refine List.filterMap_congr fun j _ => ?_
      refine Eq.trans ?_ (line j).symm
      rw [State.entry_of_pte (present j)]
      cases valid : (pd.ptes j).valid <;> simp [Option.guard, valid]

/-- Whatever has been done, `show` prints what the MMU translates. -/
theorem show_prints_translations {printTlbResult : Bool} {commands : List Command} {events : List Event}
    (ran : (simulator Heap.zeroed printTlbResult).run commands initSystem = .ok (events, state)) :
    showPagetable false state = (List.range (nrPdesPerPage * nrPtesPerPage)).filterMap (mmuLine state) :=
  showPagetable_eq (run_wellFormed initSystem_wellFormed ran)

theorem show_prints_translations_forked : Exists fun events => Exists fun state =>
    (simulator Heap.zeroed false).run [.alloc 3 ['w'], .alloc 17 ['r'], .switch 5, .write 3] initSystem =
        .ok (events, state) ∧
      showPagetable false state = (List.range (nrPdesPerPage * nrPtesPerPage)).filterMap (mmuLine state) := by
  have ran : Exists fun events => Exists fun state => (simulator Heap.zeroed false).run
      [.alloc 3 ['w'], .alloc 17 ['r'], .switch 5, .write 3] initSystem = .ok (events, state) := ⟨_, _, rfl⟩
  rcases ran with ⟨events, state, ran⟩
  exact ⟨events, state, ran, show_prints_translations ran⟩

end
end Vm
end OsPa
