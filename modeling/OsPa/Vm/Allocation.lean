import OsPa.Vm.CopyOnWrite
import OsPa.Vm.WellFormed

namespace OsPa
namespace Vm

open Library Framework

/-!
# Allocating and freeing a page

Without the TLB, an allocation maps a page that is not valid to the smallest free
frame, or fails and leaves everything alone.  It may have to provide a page
directory, whose other entries are invalid.  A page that has been allocated can be
freed, after which the directory is still there, but the counts and the valid pages
are those of before.  Nothing here depends on how the state was reached.
-/

/-- What an allocation leaves behind.  Where another entry is there that was not
there before, it is part of the same new directory and invalid. -/
structure Allocated (slot : Slot) (rw pfn : Nat) (before after : State) : Prop where
  inside : pfn < nrPageframes
  free : before.mapcounts pfn = 0
  smallest : forall frame, frame < pfn -> before.mapcounts frame ≠ 0
  mapcounts : after.mapcounts = Function.update before.mapcounts pfn 1
  pte : after.pte slot = some ⟨true, rw, pfn, rw⟩
  others : forall other, other ≠ slot -> after.pte other = before.pte other ∨
    (other.1 = slot.1 ∧ other.2.1 = slot.2.1 ∧ before.pte other = none ∧ after.pte other = some Pte.zero)

/-- The map counts and the valid entries are the same. -/
structure SameMappings (before after : State) : Prop where
  mapcounts : after.mapcounts = before.mapcounts
  valid : forall slot, (after.entry slot).valid = (before.entry slot).valid

section Allocation

variable {state after : State} {vpn rw pfn : Nat}

private theorem ensureDirectory_pte (index : Fin nrPdesPerPage) (state : State) (slot : Slot) :
    (ensureDirectory Heap.zeroed index state).pte slot = state.pte slot ∨
      (slot.1 = state.current ∧ slot.2.1 = index ∧ state.pte slot = none ∧
        (ensureDirectory Heap.zeroed index state).pte slot = some Pte.zero) := by
  unfold ensureDirectory
  split
  case h_1 => exact Or.inl rfl
  case h_2 absent =>
    have provided := State.pte_setDirectory state state.current index (Heap.zeroed.directory state.nrMallocs) slot
    by_cases here : slot.1 = state.current ∧ slot.2.1 = index
    · rw [if_pos here] at provided
      refine Or.inr ⟨here.1, here.2, ?_, provided⟩
      unfold State.pte
      rw [here.1, here.2, absent]
      rfl
    · rw [if_neg here] at provided
      exact Or.inl provided

theorem allocPage_some {heap : Heap} (ran : Vm.allocPage heap vpn rw state = .ok (some pfn, after)) :
    Exists fun index => pdeIndex vpn = some index ∧
      after = (ensureDirectory heap index (state.incrMapcount pfn)).setPte
        ((ensureDirectory heap index (state.incrMapcount pfn)).current, index, pteIndex vpn) ⟨true, rw, pfn, rw⟩ := by
  unfold Vm.allocPage at ran
  split at ran
  case h_1 => cases ran
  case h_2 =>
    dsimp only at ran
    split at ran
    case h_1 => cases ran
    case h_2 index indexed =>
      cases ran
      exact ⟨index, indexed, rfl⟩

private theorem Mapped.allocated {slot : Slot} (mapped : Mapped slot rw pfn state after)
    (pte : after.pte slot = some ⟨true, rw, pfn, rw⟩)
    (others : forall other, other ≠ slot -> after.pte other = state.pte other ∨
      (other.1 = slot.1 ∧ other.2.1 = slot.2.1 ∧ state.pte other = none ∧ after.pte other = some Pte.zero)) :
    Allocated slot rw pfn state after :=
  ⟨mapped.inside, mapped.free, mapped.smallest, mapped.mapcounts, pte, others⟩

/-- With a free frame the memory manager succeeds. -/
private theorem allocPage_allocates {index : Fin nrPdesPerPage} (indexed : pdeIndex vpn = some index) (rw : Nat)
    (free : Exists fun frame => frame < nrPageframes ∧ state.mapcounts frame = 0) :
    Exists fun pfn => Exists fun after => Vm.allocPage Heap.zeroed vpn rw state = .ok (some pfn, after) ∧
      Mapped (state.current, index, pteIndex vpn) rw pfn state after ∧
      Allocated (state.current, index, pteIndex vpn) rw pfn state after := by
  rcases allocPage_ok indexed Heap.zeroed rw state with ⟨⟨result, after⟩, ran⟩
  rcases allocPage_cases ran with ⟨_, _, full⟩ | ⟨pfn, _, rfl, indexed', mapped⟩
  · rcases free with ⟨frame, frameInside, unused⟩
    exact absurd unused (full frame frameInside)
  · cases indexed.symm.trans indexed'
    rcases allocPage_some ran with ⟨_, indexed', stored⟩
    cases indexed.symm.trans indexed'
    have ensured := ensureDirectory_spec index (state.incrMapcount pfn)
    have written : forall other, after.pte other = if other = (state.current, index, pteIndex vpn)
        then some ⟨true, rw, pfn, rw⟩ else (ensureDirectory Heap.zeroed index (state.incrMapcount pfn)).pte other := by
      rw [ensured.same.current] at stored
      rw [stored]
      exact State.pte_setPte ensured.present _
    refine ⟨pfn, after, ran, mapped, mapped.allocated ?_ fun other different => ?_⟩
    · rw [written, if_pos rfl]
    · rw [written, if_neg different]
      exact ensureDirectory_pte index (state.incrMapcount pfn) other

/-- Freeing a page right after its allocation. -/
private theorem Mapped.freed {slot : Slot} {final : State} (mapped : Mapped slot rw pfn state after)
    (unmapped : Unmapped slot after final) (invalid : (state.entry slot).valid = false) :
    SameMappings state final := by
  have stored : after.entry slot = ⟨true, rw, pfn, rw⟩ := by rw [mapped.entry, Function.update_self]
  constructor
  case mapcounts =>
    rw [unmapped.mapcounts, stored, mapped.mapcounts, Function.update_self, Function.update_idem]
    exact Function.update_eq_self_iff.mpr mapped.free.symm
  case valid =>
    intro other
    rw [unmapped.entry, mapped.entry, Function.update_idem]
    by_cases same : other = slot
    · rw [same, Function.update_self, invalid]
      rfl
    · rw [Function.update_of_ne same]

/-! ## The commands -/

/-- The MMU cannot read a page that is not valid. -/
private theorem translate_invalid {index : Fin nrPdesPerPage} (indexed : pdeIndex vpn = some index)
    (running : state.ptbr = some state.current)
    (invalid : (state.entry (state.current, index, pteIndex vpn)).valid = false) :
    Framework.translate false accessRead vpn state = .ok (none, state) := by
  rw [translate_uncached indexed running, if_neg]
  intro translated
  rw [invalid] at translated
  exact absurd translated.1 Bool.false_ne_true

/-- A page that has just been mapped can be freed. -/
private theorem Mapped.free_ok {index : Fin nrPdesPerPage} (indexed : pdeIndex vpn = some index)
    (running : state.ptbr = some state.current)
    (mapped : Mapped (state.current, index, pteIndex vpn) rw pfn state after) :
    Exists fun final => Framework.freePage false vpn after = .ok (.freed pfn, final) ∧
      Unmapped (state.current, index, pteIndex vpn) after final := by
  have current := mapped.same.current
  have stored : after.entry (after.current, index, pteIndex vpn) = ⟨true, rw, pfn, rw⟩ := by
    rw [current, mapped.entry, Function.update_self]
  have runs : after.ptbr = some after.current := by
    rw [mapped.same.ptbr, current]
    exact running
  have valid : (after.entry (after.current, index, pteIndex vpn)).valid = true := congrArg Pte.valid stored
  have frame : (after.entry (after.current, index, pteIndex vpn)).pfn = pfn := congrArg Pte.pfn stored
  have translated : Framework.translate false accessRead vpn after = .ok (some (pfn, false), after) := by
    rw [translate_uncached indexed runs, if_pos ⟨valid, fun denied => denied.1 rfl⟩, frame]
  rcases freePage_ok indexed valid (frame ▸ mapped.inside) with ⟨final, ran⟩
  refine ⟨final, ?_, ?_⟩
  · unfold Framework.freePage
    rw [translated]
    dsimp only
    rw [ran]
  · rcases freePage_cases ran with ⟨_, indexed', ⟨_, invalid⟩ | unmapped⟩
    · cases indexed.symm.trans indexed'
      rw [valid] at invalid
      cases invalid
    · cases indexed.symm.trans indexed'
      exact current ▸ unmapped

end Allocation

/-- An allocation takes the smallest free frame, and freeing the page undoes it.
Without a free frame it fails, and nothing changes. -/
theorem alloc_then_free {state : State} {vpn : Nat} (inside : vpn < 64) (running : state.ptbr = some state.current)
    (invalid : (state.entry (pageSlot state.current vpn inside)).valid = false) (flags : List Char) :
    ((Exists fun frame => frame < nrPageframes ∧ state.mapcounts frame = 0) ->
      Exists fun pfn => Exists fun after => Exists fun final =>
        Framework.allocPage Heap.zeroed false vpn (makeRwflag flags) state = .ok (.allocated pfn, after) ∧
          Allocated (pageSlot state.current vpn inside) (makeRwflag flags) pfn state after ∧
          Framework.freePage false vpn after = .ok (.freed pfn, final) ∧ SameMappings state final) ∧
    ((forall frame, frame < nrPageframes -> state.mapcounts frame ≠ 0) ->
      Framework.allocPage Heap.zeroed false vpn (makeRwflag flags) state = .ok (.memoryFull, state)) := by
  have indexed := pdeIndex_of_lt inside
  have missed := translate_invalid indexed running invalid
  unfold Framework.allocPage
  rw [if_neg (makeRwflag_readable flags), missed]
  constructor
  · intro free
    rcases allocPage_allocates indexed (makeRwflag flags) free with ⟨pfn, after, ran, mapped, allocated⟩
    rcases mapped.free_ok indexed running with ⟨final, freed, unmapped⟩
    refine ⟨pfn, after, final, ?_, allocated, freed, mapped.freed unmapped invalid⟩
    dsimp only
    rw [ran]
  · intro full
    dsimp only
    rw [allocPage_full full]

/-- The page is allocated next to another one of the same directory. -/
theorem alloc_then_free_second : Exists fun events => Exists fun state =>
    (simulator Heap.zeroed false).run [.alloc 5 ['w'], .alloc 6 ['r'], .free 5] initSystem = .ok (events, state) ∧
      Exists fun after => Exists fun final =>
        Framework.allocPage Heap.zeroed false 7 (makeRwflag ['r', 'w']) state = .ok (.allocated 0, after) ∧
          Framework.freePage false 7 after = .ok (.freed 0, final) ∧ SameMappings state final := by
  have ran : Exists fun events => Exists fun state =>
      (simulator Heap.zeroed false).run [.alloc 5 ['w'], .alloc 6 ['r'], .free 5] initSystem = .ok (events, state) ∧
        state.ptbr = some state.current ∧
          (state.entry (pageSlot state.current 7 (by decide))).valid = false ∧ state.mapcounts 0 = 0 :=
    ⟨_, _, rfl, rfl, rfl, rfl⟩
  rcases ran with ⟨events, state, ran, running, invalid, unused⟩
  rcases (alloc_then_free (by decide) running invalid ['r', 'w']).1 ⟨0, by decide, unused⟩ with
    ⟨pfn, after, final, allocates, allocated, frees, same⟩
  have smallest : pfn = 0 := by
    by_contra other
    exact allocated.smallest 0 (Nat.pos_of_ne_zero other) unused
  subst smallest
  exact ⟨events, state, ran, after, final, allocates, frees, same⟩

end Vm
end OsPa
