import OsPa.Vm.WellFormed

namespace OsPa
namespace Vm

open Library Framework

/-!
# Copy-on-write accounting and isolation

The map count of a frame is meant to be the number of valid entries that map
it, over every process that was ever created.  Each effect changes one entry
and the count of the frames it leaves and enters, so the count stays right
modulo the word size whatever the number of mappings; it is exact as long as
no frame has 2^32 of them.  Exact counts are what isolation rests on: an entry
that may be written maps a frame with a single mapping.

Both fail only when a copy finds no frame, see `Resolved.leaked`.
-/

/-- No frame has so many mappings that its counter wraps. -/
def State.Bounded (state : State) : Prop := forall frame, state.mappings frame < Word.size

structure Accounted (state : State) : Prop where
  counted : forall frame, state.mapcounts frame = state.mappings frame % Word.size
  isolated : (entryTable state.entry).Isolated state.slots

/-- There are 64 entries in a process. -/
private theorem State.bounded_of_few {state : State} (few : state.nrProcesses ≤ 1000) : state.Bounded := by
  intro frame
  have places : (Finset.univ : Finset Place).card = 64 := rfl
  have all : state.mappings frame ≤ state.slots.card := Finset.card_filter_le ..
  rw [State.slots, Finset.card_product, Finset.card_range, places] at all
  simp only [Word.size]
  omega

private theorem initSystem_accounted : Accounted initSystem where
  counted := by
    intro frame
    have unreferenced : initSystem.mappings frame = 0 := by
      rw [State.mappings, Table.references, Finset.filter_eq_empty_iff.mpr, Finset.card_empty]
      intro slot _ named
      cases named
    rw [unreferenced]
    rfl
  isolated := by
    intro left _ right _ _ frame named
    cases named

namespace Accounted

variable {before after : State}

theorem exact (accounted : Accounted before) (bounded : before.Bounded) (frame : Nat) :
    before.mapcounts frame = before.mappings frame := by
  rw [accounted.counted, Nat.mod_eq_of_lt (bounded frame)]

/-- A frame with map count zero is mapped by no entry. -/
theorem unmapped_of_free (accounted : Accounted before) (bounded : before.Bounded) {slot : Slot} {frame : Nat}
    (exists_ : slot ∈ before.slots) (free : before.mapcounts frame = 0) :
    (before.entry slot).frame ≠ some frame :=
  Table.target_ne_of_references_eq_zero (entryTable before.entry) exists_
    ((accounted.exact bounded frame).symm.trans free)

theorem of_same (accounted : Accounted before) (entry : after.entry = before.entry)
    (slots : after.slots = before.slots) (mapcounts : after.mapcounts = before.mapcounts) :
    Accounted after where
  counted := by
    intro frame
    rw [mapcounts, State.mappings, entry, slots]
    exact accounted.counted frame
  isolated := by
    rw [entry, slots]
    exact accounted.isolated

/-- How the number of mappings changes when one entry does. -/
theorem mappings_update {slot : Slot} {stored : Pte} (exists_ : slot ∈ before.slots)
    (slots : after.slots = before.slots) (entry : after.entry = Function.update before.entry slot stored)
    (frame : Nat) :
    after.mappings frame + (if (before.entry slot).frame = some frame then 1 else 0) =
      before.mappings frame + (if stored.frame = some frame then 1 else 0) := by
  rw [State.mappings, entry, slots, entryTable_update]
  exact Table.references_set exists_ stored.frame stored.canWrite frame

theorem isolated_update {slot : Slot} {stored : Pte} (accounted : Accounted before)
    (slots : after.slots = before.slots) (entry : after.entry = Function.update before.entry slot stored)
    (alone : forall other, other ∈ before.slots -> other ≠ slot -> forall frame, stored.frame = some frame ->
      (before.entry other).frame ≠ some frame) :
    (entryTable after.entry).Isolated after.slots := by
  rw [entry, slots, entryTable_update]
  exact accounted.isolated.set fun other member different frame named otherNamed =>
    absurd otherNamed (alone other member different frame named)

private theorem mapped (accounted : Accounted before) (bounded : before.Bounded) {slot : Slot} {rw pfn : Nat}
    (exists_ : slot ∈ before.slots) (invalid : (before.entry slot).valid = false)
    (mapped : Mapped slot rw pfn before after) : Accounted after where
  counted := by
    intro frame
    have moved := mappings_update exists_ mapped.same.slots mapped.entry frame
    have was : (before.entry slot).frame = none := if_neg (by rw [invalid]; nofun)
    rw [was, Pte.frame_of_valid rfl, if_neg nofun] at moved
    rw [mapped.mapcounts]
    by_cases same : frame = pfn
    · subst frame
      have none := (accounted.exact bounded pfn).symm.trans mapped.free
      rw [if_pos rfl, none] at moved
      rw [Function.update_self, ← Nat.add_zero (after.mappings pfn), moved]
      rfl
    · rw [if_neg fun equal => same (Option.some.inj equal).symm] at moved
      rw [Function.update_of_ne same, accounted.counted]
      exact congrArg (· % Word.size) moved.symm
  isolated := isolated_update accounted mapped.same.slots mapped.entry
    fun other member _ frame named => by
      cases named
      exact accounted.unmapped_of_free bounded member mapped.free

/-- The counts when an entry does not name its frame any more. -/
theorem counted_left (accounted : Accounted before) {slot : Slot} {frame : Nat} (exists_ : slot ∈ before.slots)
    (named : (before.entry slot).frame = some (before.entry slot).pfn)
    (moved : after.mappings frame + (if some (before.entry slot).pfn = some frame then 1 else 0) =
      before.mappings frame) :
    Function.update before.mapcounts (before.entry slot).pfn (Word.pred (before.mapcounts (before.entry slot).pfn))
      frame = after.mappings frame % Word.size := by
  by_cases same : frame = (before.entry slot).pfn
  · subst frame
    have positive : 0 < before.mappings (before.entry slot).pfn := Table.references_pos exists_ named
    rw [if_pos rfl] at moved
    rw [Function.update_self, accounted.counted, Word.pred_mod positive]
    exact congrArg (· % Word.size) (Nat.sub_eq_of_eq_add moved.symm)
  · rw [if_neg fun equal => same (Option.some.inj equal).symm] at moved
    rw [Function.update_of_ne same, accounted.counted]
    exact congrArg (· % Word.size) moved.symm

private theorem unmapped (accounted : Accounted before) {slot : Slot} (exists_ : slot ∈ before.slots)
    (unmapped : Unmapped slot before after) : Accounted after where
  counted := by
    intro frame
    have named := Pte.frame_of_valid unmapped.valid
    have moved := mappings_update exists_ unmapped.same.slots unmapped.entry frame
    simp only [named, Pte.frame_zero, reduceCtorEq, if_false, Nat.add_zero] at moved
    rw [unmapped.mapcounts]
    exact accounted.counted_left exists_ named moved
  isolated := isolated_update accounted unmapped.same.slots unmapped.entry
    fun _ _ _ _ named => absurd named nofun

/-- A resolved fault keeps the accounts unless its copy found no frame. -/
private theorem resolved (accounted : Accounted before) (bounded : before.Bounded) {slot : Slot}
    (exists_ : slot ∈ before.slots)
    (findsFrame : 1 < before.mapcounts (before.entry slot).pfn ->
      Exists fun frame => frame < nrPageframes ∧ before.mapcounts frame = 0)
    (resolved : Resolved slot before after) : Accounted after := by
  cases resolved with
  | upgraded same isProtected single entry mapcounts tlb =>
      have named := Pte.frame_of_valid isProtected.valid
      have stored : ({ before.entry slot with rw := 3 } : Pte).frame = some (before.entry slot).pfn :=
        Pte.frame_of_valid isProtected.valid
      refine ⟨fun frame => ?_, isolated_update accounted same.slots entry fun other member different frame now => ?_⟩
      · have moved := mappings_update exists_ same.slots entry frame
        rw [named, stored] at moved
        rw [mapcounts, accounted.counted, Nat.add_right_cancel moved]
      · rw [stored] at now
        cases now
        intro otherNamed
        rw [accounted.exact bounded] at single
        exact different (Table.eq_of_references_le_one (entryTable before.entry) single
          member otherNamed exists_ named)
  | copied pfn same isProtected shared inside free entry mapcounts tlb =>
      have named := Pte.frame_of_valid isProtected.valid
      have stored : (⟨true, 3, pfn, 3⟩ : Pte).frame = some pfn := rfl
      refine ⟨fun frame => ?_, isolated_update accounted same.slots entry fun other member _ frame now => ?_⟩
      · have moved := mappings_update exists_ same.slots entry frame
        rw [named, stored] at moved
        have old : (before.entry slot).pfn ≠ pfn := by
          intro equal
          rw [equal, free] at shared
          omega
        rw [mapcounts]
        by_cases fresh : frame = pfn
        · subst frame
          have none := (accounted.exact bounded pfn).symm.trans free
          rw [if_neg fun equal => old (Option.some.inj equal), if_pos rfl, none] at moved
          rw [Function.update_self, ← Nat.add_zero (after.mappings pfn), moved]
          rfl
        · rw [Function.update_of_ne fresh]
          have notFresh : ¬ some pfn = some frame := fun equal => fresh (Option.some.inj equal).symm
          rw [if_neg notFresh] at moved
          exact accounted.counted_left exists_ named moved
      · cases now
        exact accounted.unmapped_of_free bounded member free
  | leaked same isProtected shared full process mapcounts tlb =>
      rcases findsFrame shared with ⟨frame, inside, free⟩
      exact absurd free (full frame inside)

private theorem selected (accounted : Accounted before) {pid change : Nat}
    (selected : Selected pid change before after) : Accounted after := by
  refine accounted.of_same ?_ ?_ selected.mapcounts
  · funext slot
    simp only [State.entry, State.pte, selected.process]
  · rw [State.slots, State.slots, selected.nrProcesses]

end Accounted

/-! ## Fork -/

/-- The slot of a new process at a place. -/
def childSlot (child : Nat) : Place ↪ Slot := ⟨fun place => (child, place), fun _ _ same => congrArg Prod.snd same⟩

namespace Forked

variable {pid : Nat} {before after : State}

private theorem slots (forked : Forked pid before after) :
    after.slots = before.slots ∪ Finset.univ.map (childSlot before.nrProcesses) := by
  ext slot
  rw [Finset.mem_union, State.mem_slots, State.mem_slots, forked.nrProcesses, Finset.mem_map]
  constructor
  · intro exists_
    rcases Nat.lt_succ_iff_lt_or_eq.mp exists_ with old | new
    · exact Or.inl old
    · exact Or.inr ⟨slot.2, Finset.mem_univ _, Prod.ext new.symm rfl⟩
  · rintro (old | ⟨place, _, rfl⟩)
    · exact Nat.lt_succ_of_lt old
    · exact Nat.lt_succ_self _

/-- Fork moves no entry of a process that existed before. -/
theorem frame_old (forked : Forked pid before after) {slot : Slot} (old : slot.1 < before.nrProcesses) :
    (after.entry slot).frame = (before.entry slot).frame := by
  rw [forked.entry, if_neg (Nat.ne_of_lt old)]
  split
  · exact Pte.writeProtected_frame _
  · rfl

private theorem mappings (forked : Forked pid before after) (frame : Nat) :
    after.mappings frame = before.mappings frame +
      sharedCount (fun place => before.entry (before.current, place)) Finset.univ frame := by
  have copied := Table.references_copy (entryTable before.entry) (entryTable after.entry)
    Finset.univ (childSlot before.nrProcesses)
    (fun place _ member => Nat.lt_irrefl _ (State.mem_slots.mp member))
    (fun slot member => forked.frame_old (State.mem_slots.mp member)) frame
  rw [State.mappings, forked.slots, copied]
  refine congrArg (fun shared => before.mappings frame + Finset.card shared) (Finset.filter_congr ?_)
  intro place _
  change (after.entry (before.nrProcesses, place)).frame = some frame ↔ _
  rw [forked.entry_child, Pte.inherited_frame]

/-- Fork takes the write permission from every entry it shares. -/
theorem canWrite_protected {entry : Pte} (permitted : entry.valid = true -> entry.Permitted)
    (valid : entry.valid = true) : entry.writeProtected.canWrite = false := by
  apply Pte.canWrite_of_rw
  rcases (permitted valid).rw_cases with readOnly | writable
  · have same : entry.writeProtected = entry := if_neg fun both => by omega
    rw [same, readOnly]
  · simp [Pte.writeProtected, valid, writable]

/-- The entry that a slot's entry goes back to across a fork: its own, or its
parent's when the slot is one of the new process. -/
structure Origin (before after : State) (slot source : Slot) : Prop where
  old : source.1 < before.nrProcesses
  frame : (before.entry source).frame = (after.entry slot).frame
  parentOrOwn : source.1 = before.current ∨ source = slot
  protectedOrKept : (after.entry slot).canWrite = false ∨
    (source = slot ∧ (after.entry slot).canWrite = (before.entry slot).canWrite)

private theorem origin (forked : Forked pid before after) (wellFormed : WellFormed before) {slot : Slot}
    (exists_ : slot ∈ after.slots) (valid : (after.entry slot).valid = true) :
    Exists fun source => Origin before after slot source := by
  rcases slot with ⟨owner, place⟩
  have permitted := wellFormed.permitted (before.current, place) wellFormed.current_lt
  rw [State.mem_slots, forked.nrProcesses] at exists_
  rw [forked.entry] at valid
  by_cases child : owner = before.nrProcesses
  · subst owner
    simp only [if_true] at valid
    have parentValid := (Pte.frame_eq_some.mp ((Pte.inherited_frame _).symm.trans (Pte.frame_of_valid valid))).1
    refine ⟨(before.current, place), wellFormed.current_lt, ?_, Or.inl rfl, Or.inl ?_⟩
    · rw [forked.entry_child, Pte.inherited_frame]
    · rw [forked.entry_child, Pte.inherited_of_valid parentValid]
      exact canWrite_protected permitted parentValid
  · have old : owner < before.nrProcesses := by omega
    refine ⟨(owner, place), old, (forked.frame_old old).symm, Or.inr rfl, ?_⟩
    rw [forked.entry, if_neg child]
    simp only [if_neg child] at valid
    by_cases parent : owner = before.current
    · subst owner
      simp only [if_true, Pte.writeProtected_valid] at valid ⊢
      exact Or.inl (canWrite_protected permitted valid)
    · exact Or.inr ⟨rfl, by rw [if_neg parent]⟩

end Forked

namespace Accounted

variable {before after : State}

/-- After fork, an entry of the parent or the child that maps a frame cannot
write it, and another one that maps it could not before. -/
theorem forked (accounted : Accounted before) (wellFormed : WellFormed before) {pid : Nat}
    (forked : Forked pid before after) : Accounted after where
  counted := by
    intro frame
    rw [forked.mapcounts, forked.mappings, accounted.counted, Nat.mod_add_mod]
  isolated := by
    have oneSide : forall left, left ∈ after.slots -> forall right, right ∈ after.slots -> left ≠ right ->
        forall frame, (after.entry left).frame = some frame -> (after.entry right).frame = some frame ->
          (after.entry left).canWrite = false := by
      intro left leftMember right rightMember different frame leftNamed rightNamed
      rcases forked.origin wellFormed leftMember (Pte.frame_eq_some.mp leftNamed).1 with ⟨source, from_⟩
      rcases forked.origin wellFormed rightMember (Pte.frame_eq_some.mp rightNamed).1 with ⟨other, fromOther⟩
      rcases from_.protectedOrKept with protectedNow | ⟨own, unchanged⟩
      · exact protectedNow
      · have sourceNamed := from_.frame.trans leftNamed
        rw [unchanged]
        subst source
        by_cases sameSource : left = other
        · -- Both go back to one slot of the parent, which fork has protected.
          subst other
          have parent : left.1 = before.current := fromOther.parentOrOwn.resolve_right different
          have now := forked.entry left
          rw [if_neg (Nat.ne_of_lt from_.old), if_pos parent] at now
          rw [← unchanged, now]
          exact Forked.canWrite_protected (wellFormed.permitted left from_.old)
            (Pte.frame_eq_some.mp sourceNamed).1
        · exact (accounted.isolated left (State.mem_slots.mpr from_.old) other
            (State.mem_slots.mpr fromOther.old) sameSource frame sourceNamed
            (fromOther.frame.trans rightNamed)).1
    intro left leftMember right rightMember different frame leftNamed rightNamed
    exact ⟨oneSide left leftMember right rightMember different frame leftNamed rightNamed,
      oneSide right rightMember left leftMember different.symm frame rightNamed leftNamed⟩

end Accounted

/-! ## Runs in which every copy finds a frame -/

/-- The page and the flags of a command that accesses memory. -/
def Command.accessed : Command -> Option (Nat × Nat)
  | .read vpn => some (vpn, accessRead)
  | .write vpn => some (vpn, accessWrite)
  | .access vpn rw => some (vpn, makeRwflag rw)
  | _ => none

/-- The access faults on a write-protected entry whose frame is shared, so
that the fault handler will look for a frame to copy to. -/
structure SharedFault (printTlbResult : Bool) (vpn rw : Nat) (directory : Fin nrPdesPerPage)
    (state : State) : Prop where
  indexed : pdeIndex vpn = some directory
  missed : Framework.translate printTlbResult rw vpn state = .ok (none, state)
  written : accessRead < rw
  isProtected : Protected state (state.current, directory, pteIndex vpn)
  shared : 1 < state.mapcounts (state.entry (state.current, directory, pteIndex vpn)).pfn

/-- No copy-on-write fault on a shared frame finds all frames in use. -/
def CopyFindsFrame (printTlbResult : Bool) (input : Command) (state : State) : Prop :=
  forall vpn rw directory, input.accessed = some (vpn, rw) ->
    SharedFault printTlbResult vpn rw directory state ->
      Exists fun frame => frame < nrPageframes ∧ state.mapcounts frame = 0

/-- Where the entry is not write-protected, an access changes at most the TLB. -/
private theorem accessLoop_unprotected {printTlbResult : Bool} {vpn rw retries : Nat} {state after : State}
    {access : Access} {directory : Fin nrPdesPerPage} (indexed : pdeIndex vpn = some directory)
    (unprotected : ¬ Protected state (state.current, directory, pteIndex vpn))
    (ran : accessLoop Heap.zeroed printTlbResult vpn rw retries state = .ok (access, after)) :
    Retagged state after := by
  cases retries with
  | zero =>
      cases ran
      exact Retagged.refl _
  | succ retries =>
      rcases accessLoop_cases ran with
        ⟨_, _, _, translated⟩ | ⟨_, ⟨_, rfl⟩ | ⟨other, _, sameIndex, _, resolved, _⟩⟩
      · exact (translate_cases translated).1
      · exact Retagged.refl _
      · rw [indexed] at sameIndex
        cases sameIndex
        exact absurd resolved.isProtected unprotected

theorem Accounted.retagged {before after : State} (accounted : Accounted before)
    (retagged : Retagged before after) : Accounted after :=
  accounted.of_same retagged.entry retagged.same.slots retagged.mapcounts

private theorem Resolved.unprotected {slot : Slot} {before after : State} (resolved : Resolved slot before after)
    (findsFrame : 1 < before.mapcounts (before.entry slot).pfn ->
      Exists fun frame => frame < nrPageframes ∧ before.mapcounts frame = 0) : ¬ Protected after slot := by
  intro isProtected
  have readOnly := isProtected.readOnly
  rw [(resolved.writable findsFrame).2] at readOnly
  cases readOnly

private theorem accessMemory_accounted {printTlbResult : Bool} {vpn rw : Nat} {before after : State}
    {access : Access} (accounted : Accounted before) (bounded : before.Bounded) (wellFormed : WellFormed before)
    (findsFrame : forall directory, SharedFault printTlbResult vpn rw directory before ->
      Exists fun frame => frame < nrPageframes ∧ before.mapcounts frame = 0)
    (ran : accessMemory Heap.zeroed printTlbResult vpn rw before = .ok (access, after)) : Accounted after := by
  rcases accessLoop_cases (accessMemory_cases ran) with
    ⟨_, _, _, translated⟩ | ⟨missed, ⟨_, rfl⟩ | ⟨directory, handled, indexed, written, resolved, rest⟩⟩
  · exact accounted.retagged (translate_cases translated).1
  · exact accounted
  · have finds : 1 < before.mapcounts (before.entry (before.current, directory, pteIndex vpn)).pfn ->
        Exists fun frame => frame < nrPageframes ∧ before.mapcounts frame = 0 :=
      fun shared => findsFrame directory ⟨indexed, missed, written, resolved.isProtected, shared⟩
    have exists_ : (before.current, directory, pteIndex vpn) ∈ before.slots :=
      State.mem_slots.mpr wellFormed.current_lt
    -- The entry is writable now, so that the second round has nothing to resolve.
    have settled := resolved.unprotected finds
    rw [← resolved.same.current] at settled
    exact (accounted.resolved bounded exists_ finds resolved).retagged
      (accessLoop_unprotected indexed settled rest)

theorem Accounted.command {before after : State} (accounted : Accounted before) (bounded : before.Bounded)
    (wellFormed : WellFormed before) {printTlbResult : Bool} {input : Command} {event : Event}
    (findsFrame : CopyFindsFrame printTlbResult input before)
    (ran : Vm.command Heap.zeroed printTlbResult input before = .ok (event, after)) : Accounted after := by
  have accessed : forall {vpn rw : Nat}, input.accessed = some (vpn, rw) ->
      reportAccess (accessMemory Heap.zeroed printTlbResult vpn rw before) = .ok (event, after) ->
        Accounted after := by
    intro vpn rw names reported
    rcases reportAccess_cases reported with ⟨access, _, result⟩
    exact accessMemory_accounted accounted bounded wellFormed
      (fun directory => findsFrame vpn rw directory names) result
  cases input with
  | switch pid =>
      rcases switchProcess_cases wellFormed.current_lt wellFormed.counts (switch_event ran).2 with
        ⟨change, selected⟩ | ⟨_, forked⟩
      · exact accounted.selected selected
      · exact accounted.forked wellFormed forked
  | free vpn =>
      rcases (freePage_event ran).2 with retagged | ⟨directory, _, unmapped⟩
      · exact accounted.retagged retagged
      · exact accounted.unmapped (State.mem_slots.mpr wellFormed.current_lt) unmapped
  | read vpn => exact accessed rfl ran
  | write vpn => exact accessed rfl ran
  | alloc vpn rw =>
      rcases allocPage_event wellFormed.ptbr ran with ⟨_, retagged⟩ | ⟨pfn, directory, _, _, invalid, mapped⟩
      · exact accounted.retagged retagged
      · exact accounted.mapped bounded (State.mem_slots.mpr wellFormed.current_lt) invalid mapped
  | access vpn rw => exact accessed rfl ran

/-- In a run in which every copy finds a frame and no map count wraps, each
map count is the number of valid entries that map the frame, over all processes
ever created, and no frame that two entries map can be written through either.
-/
theorem cow_accounting {printTlbResult : Bool} {commands : List Command} {events : List Event} {state : State}
    (within : (simulator Heap.zeroed printTlbResult).Within
      (fun input before => CopyFindsFrame printTlbResult input before ∧ before.Bounded) commands initSystem)
    (ran : (simulator Heap.zeroed printTlbResult).run commands initSystem = .ok (events, state))
    (bounded : state.Bounded) :
    (forall frame, frame < nrPageframes -> state.mapcounts frame = state.mappings frame) ∧
      forall left right : Slot, left.1 < state.nrProcesses -> right.1 < state.nrProcesses -> left ≠ right ->
        (state.entry left).valid = true -> (state.entry right).valid = true ->
        (state.entry left).pfn = (state.entry right).pfn ->
          (state.entry left).rw &&& accessWrite = 0 ∧ (state.entry right).rw &&& accessWrite = 0 := by
  have kept := (simulator Heap.zeroed printTlbResult).run_invariant
    (fun reached => WellFormed reached ∧ Accounted reached)
    (fun input before event after condition holds stepped =>
      ⟨holds.1.command stepped, holds.2.command condition.2 holds.1 condition.1 stepped⟩)
    within ⟨initSystem_wellFormed, initSystem_accounted⟩ ran
  refine ⟨fun frame _ => kept.2.exact bounded frame, ?_⟩
  intro left right leftExists rightExists different leftValid rightValid samePfn
  have isolated := kept.2.isolated left (State.mem_slots.mpr leftExists) right
    (State.mem_slots.mpr rightExists) different _ (Pte.frame_of_valid leftValid)
    (by rw [samePfn]; exact Pte.frame_of_valid rightValid)
  simpa [entryTable, Pte.canWrite] using isolated

theorem cow_accounting_fork_write : Exists fun events => Exists fun state =>
    (simulator Heap.zeroed true).run [.alloc 0 ['r', 'w'], .switch 1, .write 0] initSystem = .ok (events, state) ∧
      state.mapcounts 0 = state.mappings 0 := by
  have findsFrame : forall {input : Command} {before : State}, before.mapcounts 127 = 0 ->
      CopyFindsFrame true input before :=
    fun free _ _ _ _ _ => ⟨127, by decide, free⟩
  have within : (simulator Heap.zeroed true).Within
      (fun input before => CopyFindsFrame true input before ∧ before.Bounded)
      [.alloc 0 ['r', 'w'], .switch 1, .write 0] initSystem :=
    ⟨⟨findsFrame rfl, State.bounded_of_few (by decide)⟩, fun _ =>
      ⟨⟨findsFrame rfl, State.bounded_of_few (by decide)⟩, fun _ =>
        ⟨⟨findsFrame rfl, State.bounded_of_few (by decide)⟩, fun _ => trivial⟩⟩⟩
  exact ⟨_, _, rfl, (cow_accounting within rfl (State.bounded_of_few (by decide))).1 0 (by decide)⟩

end Vm
end OsPa
