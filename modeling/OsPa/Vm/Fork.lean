import Mathlib.Data.Fintype.Card
import OsPa.Library.Loop
import OsPa.Vm.Effects

namespace OsPa
namespace Vm

open Library

/-!
# Fork and switch

Fork copies the parent's table entry by entry, in two nested loops that write
to the parent, to the child and to the map counts at once.  Its result is
stated here entry by entry for the whole table: the invariant of the loops says
which entries have been shared so far, and the finished loops have shared all
of them.
-/

/-- What fork makes of an entry of the parent. -/
def Pte.writeProtected (entry : Pte) : Pte :=
  if entry.valid = true ∧ entry.rw = 3 then { entry with rw := 1 } else entry

/-- What fork gives to the child for an entry of the parent. -/
def Pte.inherited (entry : Pte) : Pte := if entry.valid then entry.writeProtected else Pte.zero

theorem Pte.inherited_of_valid {entry : Pte} (valid : entry.valid = true) :
    entry.inherited = entry.writeProtected := if_pos valid

theorem Pte.inherited_of_invalid {entry : Pte} (invalid : entry.valid = false) :
    entry.inherited = Pte.zero := if_neg (by rw [invalid]; nofun)

theorem Pte.writeProtected_of_invalid {entry : Pte} (invalid : entry.valid = false) :
    entry.writeProtected = entry := if_neg (by rw [invalid]; nofun)

@[simp] theorem Pte.writeProtected_valid (entry : Pte) : entry.writeProtected.valid = entry.valid := by
  unfold Pte.writeProtected
  split <;> rfl

@[simp] theorem Pte.writeProtected_pfn (entry : Pte) : entry.writeProtected.pfn = entry.pfn := by
  unfold Pte.writeProtected
  split <;> rfl

@[simp] theorem Pte.writeProtected_priv (entry : Pte) : entry.writeProtected.priv = entry.priv := by
  unfold Pte.writeProtected
  split <;> rfl

@[simp] theorem Pte.writeProtected_frame (entry : Pte) : entry.writeProtected.frame = entry.frame := by
  simp only [Pte.frame, Pte.writeProtected_valid, Pte.writeProtected_pfn]

@[simp] theorem Pte.inherited_frame (entry : Pte) : entry.inherited.frame = entry.frame := by
  cases valid : entry.valid with
  | true => rw [Pte.inherited_of_valid valid, Pte.writeProtected_frame]
  | false => rw [Pte.inherited_of_invalid valid, Pte.frame_zero, Pte.frame, valid, if_neg Bool.false_ne_true]

/-- A position in a page table. -/
abbrev Place := Fin nrPdesPerPage × Fin nrPtesPerPage

/-- The number of entries at the given places of the parent that map a frame. -/
def sharedCount (parent : Place -> Pte) (places : Finset Place) (frame : Nat) : Nat :=
  (places.filter fun place => (parent place).frame = some frame).card

private theorem sharedCount_insert {parent : Place -> Pte} {places : Finset Place} {place : Place}
    (fresh : place ∉ places) (frame : Nat) :
    sharedCount parent (insert place places) frame =
      sharedCount parent places frame + (if (parent place).frame = some frame then 1 else 0) := by
  rw [sharedCount, Finset.filter_insert]
  split
  · rw [Finset.card_insert_of_notMem fun listed => fresh (Finset.mem_filter.mp listed).1]
    rfl
  · rfl

private theorem sharedCount_union {parent : Place -> Pte} {places more : Finset Place}
    (unmapped : forall place, place ∈ more -> (parent place).valid = false) (frame : Nat) :
    sharedCount parent (places ∪ more) frame = sharedCount parent places frame := by
  have nothing : (more.filter fun place => (parent place).frame = some frame) = ∅ := by
    apply Finset.filter_eq_empty_iff.mpr
    intro place member mapped
    have valid := (Pte.frame_eq_some.mp mapped).1
    rw [unmapped place member] at valid
    cases valid
  rw [sharedCount, Finset.filter_union, nothing, Finset.union_empty]
  rfl

/-! ## The invariant of the loops -/

/-- The state inside fork, in which the entries at the given places have been
shared between the parent, which is still running, and the new process. -/
structure Forking (pid : Nat) (start : State) (shared : Finset Place) (state : State) : Prop where
  nrProcesses : state.nrProcesses = start.nrProcesses + 1
  current : state.current = start.current
  processes : state.processes = start.processes
  ptbr : state.ptbr = start.ptbr
  tlb : state.tlb = start.tlb
  pid : forall process, (state.process process).pid =
    if process = start.nrProcesses then pid else (start.process process).pid
  parentDirectory : forall index, ((state.process start.current).pagetable.pdes index).isSome =
    ((start.process start.current).pagetable.pdes index).isSome
  entry : forall slot, state.entry slot =
    if slot.1 = start.nrProcesses then
      if slot.2 ∈ shared then (start.entry (start.current, slot.2)).inherited else Pte.zero
    else if slot.1 = start.current ∧ slot.2 ∈ shared then (start.entry slot).writeProtected
    else start.entry slot
  mapcounts : forall frame, state.mapcounts frame = (start.mapcounts frame +
    sharedCount (fun place => start.entry (start.current, place)) shared frame) % Word.size

variable {pid : Nat} {start state after : State} {shared : Finset Place}

private theorem Forking.not_current (forking : Forking pid start shared state)
    (exists_ : start.current < start.nrProcesses) : state.current ≠ start.nrProcesses := by
  rw [forking.current]
  exact Nat.ne_of_lt exists_

/-- An entry of the parent that has not been shared yet is still what it was. -/
theorem Forking.entry_parent (forking : Forking pid start shared state)
    (exists_ : start.current < start.nrProcesses) {place : Place} (fresh : place ∉ shared) :
    state.entry (state.current, place) = start.entry (start.current, place) := by
  rw [forking.current, forking.entry, if_neg (Nat.ne_of_lt exists_), if_neg fun both => fresh both.2]

/-- Sharing entries that are not valid changes nothing. -/
theorem Forking.skip (forking : Forking pid start shared state) (more : Finset Place)
    (unmapped : forall place, place ∈ more -> (start.entry (start.current, place)).valid = false) :
    Forking pid start (shared ∪ more) state where
  nrProcesses := forking.nrProcesses
  current := forking.current
  processes := forking.processes
  ptbr := forking.ptbr
  tlb := forking.tlb
  pid := forking.pid
  parentDirectory := forking.parentDirectory
  entry := by
    rintro ⟨owner, place⟩
    rw [forking.entry]
    by_cases visited : place ∈ shared
    · simp only [visited, Finset.mem_union, true_or]
    · by_cases skipped : place ∈ more
      · have invalid := unmapped place skipped
        simp only [visited, skipped, Finset.mem_union, or_true, if_true, if_false, and_true, and_false,
          Pte.inherited_of_invalid invalid]
        split
        · rfl
        · split
          · rename_i same
            rw [same, Pte.writeProtected_of_invalid invalid]
          · rfl
      · simp only [visited, skipped, Finset.mem_union, or_false]
  mapcounts := by
    intro frame
    rw [sharedCount_union unmapped, forking.mapcounts]

theorem pte_setPte_isSome (state : State) (slot other : Slot) (stored : Pte) :
    ((state.setPte slot stored).pte other).isSome = (state.pte other).isSome := by
  cases present : state.pte slot with
  | none => rw [State.setPte_of_absent present]
  | some before =>
      rw [State.pte_setPte (by rw [present]; exact Option.some_ne_none _)]
      split
      · rename_i same
        rw [same, present]
        rfl
      · rfl

theorem pte_isSome (state : State) (owner : Nat) (place : Place) :
    (state.pte (owner, place)).isSome = ((state.process owner).pagetable.pdes place.1).isSome := by
  simp only [State.pte, Option.isSome_map]

/-- One entry that exists is written, and nothing else. -/
structure Wrote (slot : Slot) (stored : Pte) (before after : State) : Prop where
  same : SameProcesses before after
  entry : after.entry = Function.update before.entry slot stored
  mapcounts : after.mapcounts = before.mapcounts
  tlb : after.tlb = before.tlb
  present : forall other, (after.pte other).isSome = (before.pte other).isSome

private theorem wrote_setPte {state : State} {slot : Slot} (present : (state.pte slot).isSome = true) (stored : Pte) :
    Wrote slot stored state (state.setPte slot stored) := by
  have there : state.pte slot ≠ none := by
    intro absent
    rw [absent] at present
    cases present
  exact ⟨SameProcesses.setPte .., State.entry_setPte there stored, setPte_mapcounts .., setPte_tlb ..,
    fun other => pte_setPte_isSome state slot other stored⟩

/-! ## One entry, one directory, one process -/

/-- The body of the inner loop either finds an invalid entry or shares a valid
one: the child inherits it, the parent's is write-protected, and its frame
gains a mapping. -/
private theorem forkPte_cases {change : Nat} {i : Fin nrPdesPerPage} {j : Fin nrPtesPerPage}
    (other : state.current ≠ change) (childStored : (state.pte (change, i, j)).isSome = true)
    (ran : forkPte change i state j = .ok after) :
    (after = state ∧ (state.entry (state.current, i, j)).valid = false) ∨
      ((state.entry (state.current, i, j)).valid = true ∧ SameProcesses state after ∧
        after.entry = Function.update
          (Function.update state.entry (change, i, j) (state.entry (state.current, i, j)).inherited)
          (state.current, i, j) (state.entry (state.current, i, j)).writeProtected ∧
        after.mapcounts = Function.update state.mapcounts (state.entry (state.current, i, j)).pfn
          (Word.succ (state.mapcounts (state.entry (state.current, i, j)).pfn)) ∧
        after.tlb = state.tlb ∧
        forall slot, (after.pte slot).isSome = (state.pte slot).isSome) := by
  unfold forkPte at ran
  split at ran
  · cases ran
  · rename_i currentPte stored
    have stands := State.entry_of_pte stored
    rw [stands]
    split at ran
    · rename_i valid
      split at ran
      · dsimp only at ran
        let copied := (state.setPte (change, i, j) currentPte).incrMapcount currentPte.pfn
        have child := wrote_setPte childStored currentPte
        have copiedEntry : copied.entry = Function.update state.entry (change, i, j) currentPte := child.entry
        have keeps : forall slot, (copied.pte slot).isSome = (state.pte slot).isSome := child.present
        have sameCopied : SameProcesses state copied := child.same.trans (SameProcesses.incrMapcount ..)
        have copiedCurrent : copied.current = state.current := sameCopied.current
        have counted : copied.mapcounts = Function.update state.mapcounts currentPte.pfn
            (Word.succ (state.mapcounts currentPte.pfn)) := by
          simp only [copied, State.incrMapcount, child.mapcounts]
        have parentStored : (state.pte (state.current, i, j)).isSome = true := by rw [stored]; rfl
        refine Or.inr ⟨valid, ?_⟩
        rw [Pte.inherited_of_valid valid]
        split at ran
        · rename_i writable
          cases ran
          have protectedEntry : currentPte.writeProtected = { currentPte with rw := 1 } :=
            if_pos ⟨valid, writable⟩
          change _ ∧ ((copied.setPte (change, i, j) _).setPte (copied.current, i, j) _).entry = _ ∧ _
          rw [copiedCurrent]
          have first := wrote_setPte ((keeps _).trans childStored) { currentPte with rw := 1 }
          have second := wrote_setPte ((first.present _).trans ((keeps _).trans parentStored))
            { currentPte with rw := 1 }
          refine ⟨sameCopied.trans (first.same.trans second.same), ?_,
            second.mapcounts.trans (first.mapcounts.trans counted),
            second.tlb.trans (first.tlb.trans child.tlb),
            fun slot => (second.present slot).trans ((first.present slot).trans (keeps slot))⟩
          rw [second.entry, first.entry, copiedEntry, Function.update_idem, protectedEntry]
        · rename_i readOnly
          cases ran
          have protectedEntry : currentPte.writeProtected = currentPte :=
            if_neg fun both => readOnly both.2
          have again := wrote_setPte ((keeps _).trans childStored) currentPte
          refine ⟨sameCopied.trans again.same, ?_, again.mapcounts.trans counted, again.tlb.trans child.tlb,
            fun slot => (again.present slot).trans (keeps slot)⟩
          rw [again.entry, copiedEntry, Function.update_idem, protectedEntry]
          -- The parent's entry is written with the value it has.
          apply Function.eq_update_iff.mpr
          refine ⟨?_, fun _ _ => rfl⟩
          rw [Function.update_of_ne (fun same => other (congrArg Prod.fst same)), stands]
      · cases ran
    · rename_i invalid
      cases ran
      exact Or.inl ⟨rfl, by simpa using invalid⟩

/-- One round of the inner loop shares one more entry. -/
theorem forkPte_forking {i : Fin nrPdesPerPage} {j : Fin nrPtesPerPage}
    (exists_ : start.current < start.nrProcesses) (forking : Forking pid start shared state)
    (fresh : (i, j) ∉ shared) (childStored : (state.pte (start.nrProcesses, i, j)).isSome = true)
    (ran : forkPte start.nrProcesses i state j = .ok after) :
    Forking pid start (insert (i, j) shared) after ∧
      forall slot, (after.pte slot).isSome = (state.pte slot).isSome := by
  have unshared := forking.entry_parent exists_ fresh
  rcases forkPte_cases (forking.not_current exists_) childStored ran with
    ⟨rfl, invalid⟩ | ⟨valid, same, entry, mapcounts, tlb, keeps⟩
  · refine ⟨?_, fun _ => rfl⟩
    have skipped := forking.skip {(i, j)} (fun place member => by
      rw [Finset.mem_singleton.mp member, ← unshared]
      exact invalid)
    rwa [Finset.union_comm, ← Finset.insert_eq] at skipped
  · rw [unshared] at valid entry mapcounts
    rw [forking.current] at entry
    refine ⟨⟨same.nrProcesses.trans forking.nrProcesses, same.current.trans forking.current,
      same.processes.trans forking.processes, same.ptbr.trans forking.ptbr, tlb.trans forking.tlb,
      fun process => (same.pid process).trans (forking.pid process), fun index => ?_, ?_, ?_⟩, keeps⟩
    · have kept := keeps (start.current, index, j)
      rw [pte_isSome, pte_isSome] at kept
      exact kept.trans (forking.parentDirectory index)
    · rintro ⟨owner, place⟩
      rw [entry]
      by_cases here : place = (i, j)
      · subst place
        by_cases child : owner = start.nrProcesses
        · subst owner
          rw [Function.update_of_ne (fun equal => Nat.ne_of_gt exists_ (congrArg Prod.fst equal)),
            Function.update_self]
          simp
        · by_cases parent : owner = start.current
          · subst owner
            rw [Function.update_self]
            simp [child]
          · rw [Function.update_of_ne (fun equal => parent (congrArg Prod.fst equal)),
              Function.update_of_ne (fun equal => child (congrArg Prod.fst equal)), forking.entry]
            simp [child, parent]
      · rw [Function.update_of_ne (fun equal => here (congrArg Prod.snd equal)),
          Function.update_of_ne (fun equal => here (congrArg Prod.snd equal)), forking.entry]
        simp only [Finset.mem_insert, here, false_or]
    · intro frame
      rw [mapcounts, sharedCount_insert fresh, ← Nat.add_assoc]
      have named := Pte.frame_of_valid valid
      by_cases mapped : frame = (start.entry (start.current, i, j)).pfn
      · subst frame
        rw [Function.update_self, if_pos named, forking.mapcounts, Word.succ_mod]
      · rw [Function.update_of_ne mapped, if_neg, forking.mapcounts, Nat.add_zero]
        rw [named]
        exact fun equal => mapped (Option.some.inj equal).symm

/-- The directory that fork puts into the child reads as the child did before. -/
theorem Forking.setDirectory {i : Fin nrPdesPerPage} {visited : Finset (Fin nrPdesPerPage)}
    (forking : Forking pid start (visited ×ˢ Finset.univ) state)
    (exists_ : start.current < start.nrProcesses) (fresh : i ∉ visited) :
    Forking pid start (visited ×ˢ Finset.univ)
      (state.setDirectory start.nrProcesses i ⟨fun _ => Pte.zero⟩) := by
  have same := SameProcesses.setDirectory state start.nrProcesses i ⟨fun _ => Pte.zero⟩
  refine ⟨same.nrProcesses.trans forking.nrProcesses, same.current.trans forking.current,
    same.processes.trans forking.processes, same.ptbr.trans forking.ptbr, forking.tlb,
    fun process => (same.pid process).trans (forking.pid process), fun index => ?_, ?_, forking.mapcounts⟩
  · rw [← forking.parentDirectory index]
    simp only [State.setDirectory, Function.update_of_ne (Nat.ne_of_lt exists_)]
  · intro slot
    rw [← forking.entry slot]
    simp only [State.entry, State.pte_setDirectory]
    split
    · rename_i inside
      have unshared : slot.2 ∉ visited ×ˢ (Finset.univ : Finset (Fin nrPtesPerPage)) := by
        simpa [inside.2] using fresh
      have before := forking.entry slot
      rw [if_pos inside.1, if_neg unshared, State.entry] at before
      exact before.symm
    · rfl

/-- The state inside the inner loop over one directory, of which the entries at
the given offsets have been shared. -/
structure ForkingDirectory (pid : Nat) (start : State) (visited : Finset (Fin nrPdesPerPage))
    (i : Fin nrPdesPerPage) (offsets : Finset (Fin nrPtesPerPage)) (state : State) : Prop where
  forking : Forking pid start ((visited ×ˢ Finset.univ) ∪ ({i} ×ˢ offsets)) state
  childStored : forall offset, (state.pte (start.nrProcesses, i, offset)).isSome = true

/-- The rounds of the inner loop keep every directory they find. -/
theorem ForkingDirectory.step {visited : Finset (Fin nrPdesPerPage)} {i : Fin nrPdesPerPage}
    {offsets : Finset (Fin nrPtesPerPage)} {offset : Fin nrPtesPerPage}
    (exists_ : start.current < start.nrProcesses) (fresh : i ∉ visited)
    (inside : ForkingDirectory pid start visited i offsets state) (unseen : offset ∉ offsets)
    (body : forkPte start.nrProcesses i state offset = .ok after) :
    ForkingDirectory pid start visited i (insert offset offsets) after := by
  have unshared : (i, offset) ∉ (visited ×ˢ Finset.univ) ∪ ({i} ×ˢ offsets) := by
    simp [fresh, unseen]
  have shared := forkPte_forking exists_ inside.forking unshared (inside.childStored offset) body
  refine ⟨?_, fun other => (shared.2 _).trans (inside.childStored other)⟩
  have grown : (visited ×ˢ Finset.univ) ∪ ({i} ×ˢ insert offset offsets) =
      insert (i, offset) ((visited ×ˢ Finset.univ) ∪ ({i} ×ˢ offsets)) := by
    ext place
    simp only [Finset.mem_union, Finset.mem_product, Finset.mem_insert, Finset.mem_singleton,
      Finset.mem_univ, Prod.ext_iff]
    tauto
  rw [grown]
  exact shared.1

theorem Forking.requested (forking : Forking pid start shared state) :
    Forking pid start shared { state with nrMallocs := state.nrMallocs + 1 } :=
  ⟨forking.nrProcesses, forking.current, forking.processes, forking.ptbr, forking.tlb, forking.pid,
    forking.parentDirectory, forking.entry, forking.mapcounts⟩

theorem ForkingDirectory.enter {visited : Finset (Fin nrPdesPerPage)} {i : Fin nrPdesPerPage}
    (exists_ : start.current < start.nrProcesses) (fresh : i ∉ visited)
    (forking : Forking pid start (visited ×ˢ Finset.univ) state) :
    ForkingDirectory pid start visited i ∅
      (state.setDirectory start.nrProcesses i ⟨fun _ => Pte.zero⟩) where
  forking := by
    rw [Finset.product_empty, Finset.union_empty]
    exact forking.setDirectory exists_ fresh
  childStored := by
    intro offset
    rw [pte_isSome]
    simp [State.setDirectory]

/-- One round of the outer loop shares the entries of one directory. -/
theorem forkDirectory_forking {i : Fin nrPdesPerPage} {visited : Finset (Fin nrPdesPerPage)}
    (exists_ : start.current < start.nrProcesses)
    (forking : Forking pid start (visited ×ˢ Finset.univ) state) (fresh : i ∉ visited)
    (ran : forkDirectory Heap.zeroed start.nrProcesses state i = .ok after) :
    Forking pid start (insert i visited ×ˢ Finset.univ) after := by
  have more : insert i visited ×ˢ (Finset.univ : Finset (Fin nrPtesPerPage)) =
      (visited ×ˢ Finset.univ) ∪ ({i} ×ˢ Finset.univ) := by
    rw [← Finset.union_product, Finset.union_comm, ← Finset.insert_eq]
  rw [more]
  unfold forkDirectory at ran
  dsimp only at ran
  split at ran
  · rename_i absent
    cases ran
    refine forking.requested.skip _ fun place member => ?_
    have inDirectory : place.1 = i := Finset.mem_singleton.mp (Finset.mem_product.mp member).1
    have noDirectory := forking.parentDirectory i
    rw [forking.current] at absent
    rw [absent] at noDirectory
    have absentEntry : start.pte (start.current, place) = none := by
      apply Option.not_isSome_iff_eq_none.mp
      rw [pte_isSome, inDirectory, ← noDirectory]
      nofun
    rw [State.entry_of_absent absentEntry]
    rfl
  · have looped := foldlM_invariant (ForkingDirectory pid start visited i)
      (fun _ _ _ _ unseen inside body => inside.step exists_ fresh unseen body)
      (List.nodup_finRange _) (ForkingDirectory.enter exists_ fresh forking.requested) ran
    rw [List.toFinset_finRange] at looped
    exact looped.forking

/-- The copied process table: every entry of the parent has been shared. -/
structure Forked (pid : Nat) (before after : State) : Prop where
  nrProcesses : after.nrProcesses = before.nrProcesses + 1
  current : after.current = before.nrProcesses
  processes : after.processes = before.processes ++ [before.current]
  ptbr : after.ptbr = some before.nrProcesses
  pid : forall process, (after.process process).pid =
    if process = before.nrProcesses then pid else (before.process process).pid
  entry : forall slot, after.entry slot =
    if slot.1 = before.nrProcesses then (before.entry (before.current, slot.2)).inherited
    else if slot.1 = before.current then (before.entry slot).writeProtected
    else before.entry slot
  mapcounts : forall frame, after.mapcounts frame = (before.mapcounts frame +
    sharedCount (fun place => before.entry (before.current, place)) Finset.univ frame) % Word.size

theorem Forked.entry_child {before : State} (forked : Forked pid before after) (place : Place) :
    after.entry (before.nrProcesses, place) = (before.entry (before.current, place)).inherited := by
  rw [forked.entry, if_pos rfl]

/-- The state in which the loops of fork start. -/
theorem Forking.enter (exists_ : start.current < start.nrProcesses)
    (bounded : forall frame, start.mapcounts frame < Word.size) :
    Forking pid start ((∅ : Finset (Fin nrPdesPerPage)) ×ˢ Finset.univ)
      { start with
        process := Function.update start.process start.nrProcesses
          { Heap.zeroed.process start.nrMallocs with pid := pid }
        nrProcesses := start.nrProcesses + 1
        nrMallocs := start.nrMallocs + 1 } := by
  refine ⟨rfl, rfl, rfl, rfl, rfl, fun process => ?_, fun index => ?_, fun slot => ?_, fun frame => ?_⟩
  · by_cases child : process = start.nrProcesses
    · simp [child]
    · simp [child]
  · simp only [Function.update_of_ne (Nat.ne_of_lt exists_)]
  · by_cases child : slot.1 = start.nrProcesses
    · simp [child, State.entry, State.pte, Heap.zeroed]
    · simp [child, State.entry, State.pte]
  · simp [sharedCount, Nat.mod_eq_of_lt (bounded frame)]

theorem forkProcess_forked {before : State} (exists_ : before.current < before.nrProcesses)
    (bounded : forall frame, before.mapcounts frame < Word.size)
    (ran : forkProcess Heap.zeroed pid before = .ok after) :
    Forked pid before after ∧ after.tlb = before.tlb := by
  unfold forkProcess at ran
  dsimp only at ran
  split at ran
  · cases ran
  · rename_i copied looped
    cases ran
    have forking := foldlM_invariant
      (fun visited inner => Forking pid before (visited ×ˢ Finset.univ) inner)
      (fun _ _ _ _ unseen holds body => forkDirectory_forking exists_ holds unseen body)
      (List.nodup_finRange _) (Forking.enter exists_ bounded) looped
    rw [List.toFinset_finRange, Finset.univ_product_univ] at forking
    refine ⟨⟨forking.nrProcesses, rfl, ?_, rfl, forking.pid, fun slot => ?_, forking.mapcounts⟩, forking.tlb⟩
    · change copied.processes ++ [copied.current] = _
      rw [forking.processes, forking.current]
    · have shared := forking.entry slot
      simp only [Finset.mem_univ, if_true, and_true] at shared
      exact shared

/-! ## Fork does not fault -/

private theorem forkPte_ok {change : Nat} {i : Fin nrPdesPerPage} {j : Fin nrPtesPerPage}
    (present : (state.pte (state.current, i, j)).isSome = true)
    (inside : (state.entry (state.current, i, j)).valid = true ->
      (state.entry (state.current, i, j)).pfn < nrPageframes) :
    Exists fun after => forkPte change i state j = .ok after := by
  rcases Option.isSome_iff_exists.mp present with ⟨currentPte, stored⟩
  rw [State.entry_of_pte stored] at inside
  unfold forkPte
  rw [stored]
  dsimp only
  split
  · rename_i valid
    rw [if_pos (inside valid)]
    split
    · exact ⟨_, rfl⟩
    · exact ⟨_, rfl⟩
  · exact ⟨_, rfl⟩

/-- One round of the outer loop succeeds when the parent maps frames that
exist. -/
theorem forkDirectory_ok {i : Fin nrPdesPerPage} {visited : Finset (Fin nrPdesPerPage)}
    (exists_ : start.current < start.nrProcesses)
    (frames : forall place, (start.entry (start.current, place)).valid = true ->
      (start.entry (start.current, place)).pfn < nrPageframes)
    (forking : Forking pid start (visited ×ˢ Finset.univ) state) (fresh : i ∉ visited) :
    Exists fun after => forkDirectory Heap.zeroed start.nrProcesses state i = .ok after := by
  unfold forkDirectory
  dsimp only
  split
  · exact ⟨_, rfl⟩
  · rename_i directory found
    have present : forall {inner : State} {shared : Finset Place} {offset : Fin nrPtesPerPage},
        Forking pid start shared inner -> (inner.pte (inner.current, i, offset)).isSome = true := by
      intro inner shared offset reached
      rw [pte_isSome, reached.current, reached.parentDirectory, ← forking.parentDirectory, ← forking.current,
        found]
      rfl
    refine foldlM_total (ForkingDirectory pid start visited i)
      (fun _ _ _ _ unseen inside body => inside.step exists_ fresh unseen body)
      (fun offsets offset inner unseen inside => ?_)
      (List.nodup_finRange _) (ForkingDirectory.enter exists_ fresh forking.requested)
    have unshared : (i, offset) ∉ (visited ×ˢ Finset.univ) ∪ ({i} ×ˢ offsets) := by
      simp [fresh, unseen]
    apply forkPte_ok (present inside.forking)
    rw [inside.forking.entry_parent exists_ unshared]
    exact frames (i, offset)

theorem forkProcess_ok {before : State} (exists_ : before.current < before.nrProcesses)
    (bounded : forall frame, before.mapcounts frame < Word.size)
    (frames : forall place, (before.entry (before.current, place)).valid = true ->
      (before.entry (before.current, place)).pfn < nrPageframes) (pid : Nat) :
    Exists fun after => forkProcess Heap.zeroed pid before = .ok after := by
  have looped := foldlM_total
    (fun visited inner => Forking pid before (visited ×ˢ Finset.univ) inner)
    (fun _ _ _ _ unseen holds body => forkDirectory_forking exists_ holds unseen body)
    (fun _ _ _ unseen holds => forkDirectory_ok exists_ frames holds unseen)
    (List.nodup_finRange _) (Forking.enter exists_ bounded)
  rcases looped with ⟨copied, ran⟩
  unfold forkProcess
  dsimp only
  rw [ran]
  exact ⟨_, rfl⟩

/-! ## Switch -/

/-- The first listed process with the pid has been taken from the list, and
the page tables are as they were. -/
structure Selected (pid change : Nat) (before after : State) : Prop where
  found : before.processes.find? (fun listed => (before.process listed).pid == pid) = some change
  nrProcesses : after.nrProcesses = before.nrProcesses
  current : after.current = change
  processes : after.processes = before.processes.erase change
  ptbr : after.ptbr = some change
  process : after.process = before.process
  mapcounts : after.mapcounts = before.mapcounts

/-- The process selected was listed. -/
theorem Selected.mem {pid change : Nat} {before after : State} (selected : Selected pid change before after) :
    change ∈ before.processes :=
  List.mem_of_find?_eq_some selected.found

theorem Selected.pid_eq {pid change : Nat} {before after : State} (selected : Selected pid change before after) :
    (before.process change).pid = pid := by
  simpa using List.find?_some selected.found

/-- Some listed process has the pid. -/
def State.Listed (state : State) (pid : Nat) : Prop :=
  Exists fun listed => listed ∈ state.processes ∧ (state.process listed).pid = pid

theorem Selected.listed {pid change : Nat} {before after : State} (selected : Selected pid change before after) :
    before.Listed pid :=
  ⟨change, selected.mem, selected.pid_eq⟩

/-- A switch selects a listed process or forks one. -/
theorem switchProcess_cases {before : State} (exists_ : before.current < before.nrProcesses)
    (bounded : forall frame, before.mapcounts frame < Word.size)
    (ran : switchProcess Heap.zeroed pid before = .ok after) :
    (Exists fun change => Selected pid change before after) ∨
      ((forall listed, listed ∈ before.processes -> (before.process listed).pid ≠ pid) ∧
        Forked pid before after) := by
  unfold switchProcess at ran
  split at ran
  · rename_i change found
    cases ran
    exact Or.inl ⟨change, found, rfl, rfl, rfl, rfl, rfl, rfl⟩
  · rename_i missing
    split at ran
    · cases ran
    · rename_i forked looped
      cases ran
      refine Or.inr ⟨fun listed member => ?_, ?_⟩
      · simpa using List.find?_eq_none.mp missing listed member
      · have result := (forkProcess_forked exists_ bounded looped).1
        exact ⟨result.nrProcesses, result.current, result.processes, result.ptbr, result.pid,
          result.entry, result.mapcounts⟩

/-- A switch leaves no valid TLB entry among those it visits, and the others as
they were. -/
theorem switchProcess_tlb {before : State} (exists_ : before.current < before.nrProcesses)
    (bounded : forall frame, before.mapcounts frame < Word.size)
    (ran : switchProcess Heap.zeroed pid before = .ok after) : after.tlb = (flushTlb before).tlb := by
  unfold switchProcess at ran
  split at ran
  · cases ran
    rfl
  · split at ran
    · cases ran
    · rename_i forked looped
      cases ran
      have kept := (forkProcess_forked exists_ bounded looped).2
      simp only [flushTlb, kept]

end Vm
end OsPa
