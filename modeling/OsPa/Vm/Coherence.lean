import OsPa.Library.FirstMatch
import OsPa.Vm.WellFormed

namespace OsPa
namespace Vm

open Library Framework

/-!
# Coherence of the translation lookaside buffer

`insert_tlb` takes the first entry that is for the page or is invalid.  When an
entry has been cleared in front of the one for the page, it therefore makes a
second entry for the same page.  It is called only after a lookup has found
no entry with sufficient permission, so the entries it leaves behind allow
reading only, and the new one, which comes first, hides them.  This is what
coherence says: first entries agree with the page table, later ones are for
reading, and no entry is for a page that is not mapped.
-/

/-- The page that an entry of the TLB is for. -/
def State.tags (state : State) (i : Nat) : Option Nat :=
  if (state.tlb i).valid then some (state.tlb i).vpn else none

theorem State.tags_eq_some {state : State} {i vpn : Nat} :
    state.tags i = some vpn ↔ (state.tlb i).valid = true ∧ (state.tlb i).vpn = vpn := by
  unfold State.tags
  cases valid : (state.tlb i).valid <;> simp

theorem State.tags_eq_none {state : State} {i : Nat} : state.tags i = none ↔ (state.tlb i).valid = false := by
  unfold State.tags
  cases valid : (state.tlb i).valid <;> simp

/-- There is at most one entry for the page. -/
def State.SingleEntry (state : State) (vpn : Nat) : Prop :=
  forall left right, state.tags left = some vpn -> state.tags right = some vpn -> left = right

/-- The TLB agrees with the page table of the running process on the pages
that are trusted. -/
structure Coherent (trusted : Nat -> Prop) (state : State) : Prop where
  inside : forall i vpn, state.tags i = some vpn -> i < nrPageframes
  mapped : forall i vpn, state.tags i = some vpn -> (state.page state.current vpn).valid = true
  flags : forall i vpn, state.tags i = some vpn -> (state.tlb i).rw = 1 ∨ (state.tlb i).rw = 3
  later : forall i earlier vpn, earlier < i -> state.tags earlier = some vpn -> state.tags i = some vpn ->
    (state.tlb i).rw = 1
  first : forall i vpn, trusted vpn -> First state.tags i vpn ->
    (state.tlb i).pfn = (state.page state.current vpn).pfn ∧
      ((state.tlb i).rw = 3 -> (state.page state.current vpn).rw = 3)

/-- All entries are among those that an insertion fills, and of several entries for
a page only the first may allow writing. -/
structure Ordered (state : State) : Prop where
  inside : forall i vpn, state.tags i = some vpn -> i < nrPageframes
  flags : forall i vpn, state.tags i = some vpn -> (state.tlb i).rw = 1 ∨ (state.tlb i).rw = 3
  later : forall i earlier vpn, earlier < i -> state.tags earlier = some vpn -> state.tags i = some vpn ->
    (state.tlb i).rw = 1

theorem Coherent.ordered {trusted : Nat -> Prop} {state : State} (coherent : Coherent trusted state) :
    Ordered state :=
  ⟨coherent.inside, coherent.flags, coherent.later⟩

/-- Coherence on all pages. -/
abbrev FullyCoherent : State -> Prop := Coherent fun _ => True

theorem FullyCoherent.of_empty {state : State} (empty : forall i, state.tags i = none) : FullyCoherent state := by
  have absurdTag : forall {i vpn : Nat}, state.tags i ≠ some vpn := by
    intro i vpn tagged
    rw [empty] at tagged
    cases tagged
  exact ⟨fun _ _ tagged => absurd tagged absurdTag, fun _ _ tagged => absurd tagged absurdTag,
    fun _ _ tagged => absurd tagged absurdTag, fun _ _ _ _ _ tagged => absurd tagged absurdTag,
    fun _ _ _ first => absurd first.1 absurdTag⟩

theorem initSystem_coherent : FullyCoherent initSystem := FullyCoherent.of_empty fun _ => rfl

theorem Coherent.weaken {trusted fewer : Nat -> Prop} {state : State} (coherent : Coherent trusted state)
    (less : forall vpn, fewer vpn -> trusted vpn) : Coherent fewer state :=
  ⟨coherent.inside, coherent.mapped, coherent.flags, coherent.later,
    fun i vpn among => coherent.first i vpn (less vpn among)⟩

/-! ## Lookup -/

/-- The flags that accesses ask for. -/
def Flags (rw : Nat) : Prop := rw = 1 ∨ rw = 2 ∨ rw = 3

theorem flags_makeRwflag (rw : List Char) : Flags (makeRwflag rw) := by
  rcases makeRwflag_cases rw with one | three
  · exact Or.inl one
  · exact Or.inr (Or.inr three)

/-- What the TLB supplies is what the page table says. -/
theorem FullyCoherent.lookupTlb_some {vpn rw pfn : Nat} {state : State} (coherent : FullyCoherent state)
    (flags : Flags rw) (found : lookupTlb vpn rw state = some pfn) :
    (state.page state.current vpn).valid = true ∧ (state.page state.current vpn).pfn = pfn ∧
      (rw &&& accessWrite ≠ 0 -> (state.page state.current vpn).rw = 3) := by
  rcases Option.map_eq_some_iff.mp found with ⟨i, matched, rfl⟩
  have search := List.find?_range_eq_some.mp matched
  simp only [Bool.and_eq_true, beq_iff_eq, decide_eq_true_eq] at search
  rcases search with ⟨⟨⟨valid, sameVpn⟩, allowed⟩, _, passed⟩
  have tagged : state.tags i = some vpn := State.tags_eq_some.mpr ⟨valid, sameVpn⟩
  have first : First state.tags i vpn := by
    refine ⟨tagged, fun earlier before earlierTagged => ?_⟩
    have readOnly := coherent.later i earlier vpn before earlierTagged tagged
    have there := State.tags_eq_some.mp earlierTagged
    have skipped := passed earlier before
    simp only [there.1, there.2, beq_self_eq_true, Bool.and_self, Bool.true_and, Bool.not_eq_true',
      decide_eq_false_iff_not] at skipped
    rcases coherent.flags earlier vpn earlierTagged with one | three <;> omega
  have agrees := coherent.first i vpn trivial first
  refine ⟨coherent.mapped i vpn tagged, agrees.1.symm, fun writing => agrees.2 ?_⟩
  rcases coherent.flags i vpn tagged with one | three
  · rw [one] at allowed
    rcases flags with rfl | rfl | rfl
    · exact absurd rfl writing
    · omega
    · omega
  · exact three

/-- The lookup comes by all entries that are filled. -/
theorem Ordered.index_lt {i vpn : Nat} {state : State} (ordered : Ordered state)
    (tagged : state.tags i = some vpn) : i < nrTlbEntries := by
  have inside := ordered.inside i vpn tagged
  change i < 128 at inside
  change i < 256
  omega

/-- After a failed lookup, the entries for the page allow less than was asked. -/
theorem Ordered.lookupTlb_none {vpn rw : Nat} {state : State}
    (ordered : Ordered state) (missed : lookupTlb vpn rw state = none) :
    forall i, state.tags i = some vpn -> (state.tlb i).rw < rw := by
  intro i tagged
  have there := State.tags_eq_some.mp tagged
  have range := ordered.index_lt tagged
  have skipped := List.find?_range_eq_none.mp (Option.map_eq_none_iff.mp missed) i range
  simpa [there.1, there.2] using skipped

/-- A failed lookup for reading means that there is no entry for the page. -/
theorem Ordered.untagged_of_read {vpn : Nat} {state : State}
    (ordered : Ordered state) (missed : lookupTlb vpn accessRead state = none) :
    forall i, state.tags i ≠ some vpn := by
  intro i tagged
  have less := ordered.lookupTlb_none missed i tagged
  change (state.tlb i).rw < 1 at less
  rcases ordered.flags i vpn tagged with one | three <;> omega

/-- After a failed lookup, the entries for the page allow reading only. -/
theorem Ordered.readOnly_of_missed {vpn rw : Nat} {state : State}
    (ordered : Ordered state) (flags : Flags rw) (missed : lookupTlb vpn rw state = none) :
    forall i, state.tags i = some vpn -> (state.tlb i).rw = 1 := by
  intro i tagged
  have less := ordered.lookupTlb_none missed i tagged
  rcases ordered.flags i vpn tagged with one | three
  · exact one
  · rcases flags with rfl | rfl | rfl <;> omega

/-! ## Insertion -/

/-- An entry that is stored for a page goes to the front of those for the page. -/
structure Inserted (vpn rw pfn i : Nat) (before after : State) : Prop where
  inside : i < nrPageframes
  tlb : Exists fun entry => after.tlb = Function.update before.tlb i entry ∧
    entry.valid = true ∧ entry.vpn = vpn ∧ entry.rw = rw ∧ entry.pfn = pfn
  vacant : before.tags i = none ∨ before.tags i = some vpn
  front : forall earlier, earlier < i -> before.tags earlier ≠ some vpn

theorem insertTlb_cases (vpn rw pfn : Nat) (state : State) :
    (insertTlb vpn rw pfn state = state ∧ forall i, i < nrPageframes -> state.tags i ≠ some vpn) ∨
      Exists fun i => Inserted vpn rw pfn i state (insertTlb vpn rw pfn state) := by
  unfold insertTlb
  split
  · rename_i full
    refine Or.inl ⟨rfl, fun i inside tagged => ?_⟩
    have there := State.tags_eq_some.mp tagged
    have skipped := List.find?_range_eq_none.mp full i inside
    simp [there.1, there.2] at skipped
  · rename_i i matched
    have search := List.find?_range_eq_some.mp matched
    have front : forall earlier, earlier < i -> state.tags earlier ≠ some vpn := by
      intro earlier before tagged
      have there := State.tags_eq_some.mp tagged
      have skipped := search.2.2 earlier before
      simp [there.1, there.2] at skipped
    have inside := List.mem_range.mp search.2.1
    refine Or.inr ⟨i, ?_⟩
    split
    · rename_i valid
      have sameVpn : (state.tlb i).vpn = vpn := by simpa [valid] using search.1
      exact ⟨inside, ⟨_, rfl, valid, sameVpn, rfl, rfl⟩,
        Or.inr (State.tags_eq_some.mpr ⟨valid, sameVpn⟩), front⟩
    · rename_i invalid
      exact ⟨inside, ⟨_, rfl, rfl, rfl, rfl, rfl⟩, Or.inl (State.tags_eq_none.mpr (by simpa using invalid)), front⟩

theorem Inserted.tags {vpn rw pfn i : Nat} {before after : State} (inserted : Inserted vpn rw pfn i before after) :
    after.tags = Function.update before.tags i (some vpn) := by
  rcases inserted.tlb with ⟨entry, tlb, valid, sameVpn, _, _⟩
  funext other
  by_cases here : other = i
  · subst other
    rw [Function.update_self, State.tags_eq_some, tlb, Function.update_self]
    exact ⟨valid, sameVpn⟩
  · rw [Function.update_of_ne here, State.tags, State.tags, tlb, Function.update_of_ne here]

theorem Inserted.stored {vpn rw pfn i : Nat} {before after : State} (inserted : Inserted vpn rw pfn i before after) :
    after.tags i = some vpn ∧ (after.tlb i).rw = rw ∧ (after.tlb i).pfn = pfn := by
  rcases inserted.tlb with ⟨entry, tlb, _, _, storedRw, storedPfn⟩
  rw [inserted.tags, tlb, Function.update_self, Function.update_self]
  exact ⟨rfl, storedRw, storedPfn⟩

theorem Inserted.elsewhere {vpn rw pfn i index : Nat} {before after : State}
    (inserted : Inserted vpn rw pfn i before after) (different : index ≠ i) :
    after.tags index = before.tags index ∧ after.tlb index = before.tlb index := by
  rcases inserted.tlb with ⟨entry, tlb, _⟩
  rw [inserted.tags, tlb]
  exact ⟨Function.update_of_ne different .., Function.update_of_ne different ..⟩

/-- An entry that comes first hides the others, if these allow reading only. -/
theorem Inserted.ordered {vpn rw pfn i : Nat} {before after : State} (inserted : Inserted vpn rw pfn i before after)
    (ordered : Ordered before) (readOnly : forall i, before.tags i = some vpn -> (before.tlb i).rw = 1)
    (flags : rw = 1 ∨ rw = 3) : Ordered after := by
  rcases inserted.stored with ⟨tagAtSlot, storedRw, _⟩
  constructor
  case inside =>
    intro index other tagged
    by_cases here : index = i
    · rw [here]
      exact inserted.inside
    · rw [(inserted.elsewhere here).1] at tagged
      exact ordered.inside index other tagged
  case flags =>
    intro index other tagged
    by_cases here : index = i
    · rw [here, storedRw]
      exact flags
    · rw [(inserted.elsewhere here).1] at tagged
      rw [(inserted.elsewhere here).2]
      exact ordered.flags index other tagged
  case later =>
    intro index earlier other ahead earlierTagged tagged
    by_cases here : index = i
    · -- Nothing in front of the stored entry is for its page.
      subst index
      rw [tagAtSlot] at tagged
      cases tagged
      rw [(inserted.elsewhere (Nat.ne_of_lt ahead)).1] at earlierTagged
      exact absurd earlierTagged (inserted.front earlier ahead)
    · rw [(inserted.elsewhere here).1] at tagged
      rw [(inserted.elsewhere here).2]
      by_cases earlierHere : earlier = i
      · rw [earlierHere, tagAtSlot] at earlierTagged
        cases earlierTagged
        exact readOnly index tagged
      · rw [(inserted.elsewhere earlierHere).1] at earlierTagged
        exact ordered.later index earlier other ahead earlierTagged tagged

/-- An entry with what the page table says makes the TLB coherent on its page
too, when the entries it already has for the page allow reading only. -/
theorem Inserted.coherent {vpn i : Nat} {before after : State}
    (inserted : Inserted vpn (before.page before.current vpn).rw (before.page before.current vpn).pfn i before after)
    (retagged : Retagged before after) (coherent : Coherent (· ≠ vpn) before)
    (readOnly : forall i, before.tags i = some vpn -> (before.tlb i).rw = 1)
    (valid : (before.page before.current vpn).valid = true)
    (flags : (before.page before.current vpn).rw = 1 ∨ (before.page before.current vpn).rw = 3) :
    FullyCoherent after := by
  have page := retagged.page
  have ordered := inserted.ordered coherent.ordered readOnly flags
  rcases inserted.stored with ⟨tagAtSlot, storedRw, storedPfn⟩
  constructor
  case inside => exact ordered.inside
  case mapped =>
    intro index other tagged
    rw [page]
    by_cases here : index = i
    · rw [here, tagAtSlot] at tagged
      cases tagged
      exact valid
    · rw [(inserted.elsewhere here).1] at tagged
      exact coherent.mapped index other tagged
  case flags => exact ordered.flags
  case later => exact ordered.later
  case first =>
    intro index other _ first
    rw [page]
    by_cases own : other = vpn
    · subst other
      have front : First after.tags i vpn := by
        rw [inserted.tags]
        exact First.update_self inserted.front
      rw [first.unique front]
      exact ⟨storedPfn, fun writable => storedRw.symm.trans writable⟩
    · have notSlot : index ≠ i := by
        rintro rfl
        rw [first.1] at tagAtSlot
        exact own (Option.some.inj tagAtSlot)
      rw [inserted.tags] at first
      rw [(inserted.elsewhere notSlot).2]
      exact coherent.first index other own (first.of_update inserted.vacant (Or.inr rfl) own)

theorem Coherent.inserted {vpn : Nat} {state : State} (coherent : Coherent (· ≠ vpn) state)
    (readOnly : forall i, state.tags i = some vpn -> (state.tlb i).rw = 1)
    (valid : (state.page state.current vpn).valid = true)
    (flags : (state.page state.current vpn).rw = 1 ∨ (state.page state.current vpn).rw = 3) :
    FullyCoherent
      (insertTlb vpn (state.page state.current vpn).rw (state.page state.current vpn).pfn state) := by
  rcases insertTlb_cases vpn (state.page state.current vpn).rw (state.page state.current vpn).pfn state with
    ⟨same, untagged⟩ | ⟨i, inserted⟩
  · rw [same]
    refine ⟨coherent.inside, coherent.mapped, coherent.flags, coherent.later, fun index other _ first => ?_⟩
    by_cases here : other = vpn
    · subst other
      exact absurd first.1 (untagged index (coherent.inside index vpn first.1))
    · exact coherent.first index other here first
  · exact inserted.coherent (insertTlb_retagged ..) coherent readOnly valid flags

/-- After an insertion for a page that had no entry there is one entry. -/
theorem SingleEntry.insertTlb {vpn : Nat} {state : State} (untagged : forall i, state.tags i ≠ some vpn)
    (rw pfn : Nat) : (Vm.insertTlb vpn rw pfn state).SingleEntry vpn := by
  intro left right leftTagged rightTagged
  rcases insertTlb_cases vpn rw pfn state with ⟨same, _⟩ | ⟨i, inserted⟩
  · rw [same] at leftTagged
    exact absurd leftTagged (untagged left)
  · have only : forall index, (Vm.insertTlb vpn rw pfn state).tags index = some vpn -> index = i := by
      intro index tagged
      rw [inserted.tags] at tagged
      by_contra different
      rw [Function.update_of_ne different] at tagged
      exact untagged index tagged
    exact (only left leftTagged).trans (only right rightTagged).symm

/-! ## The effects -/

/-- An effect that leaves the TLB alone keeps it coherent on the pages whose
entries still map the frame and have lost no permission. -/
theorem Coherent.of_pages {trusted fewer : Nat -> Prop} {before after : State}
    (coherent : Coherent trusted before) (tlb : after.tlb = before.tlb)
    (valid : forall i vpn, before.tags i = some vpn -> (after.page after.current vpn).valid = true)
    (pages : forall i vpn, fewer vpn -> before.tags i = some vpn -> trusted vpn ∧
      (after.page after.current vpn).pfn = (before.page before.current vpn).pfn ∧
      ((before.page before.current vpn).rw = 3 -> (after.page after.current vpn).rw = 3)) :
    Coherent fewer after := by
  have tags : after.tags = before.tags := by
    funext i
    rw [State.tags, State.tags, tlb]
  refine ⟨?_, ?_, ?_, ?_, fun i vpn among first => ?_⟩
  · rw [tags]
    exact coherent.inside
  · rw [tags]
    exact valid
  · rw [tags, tlb]
    exact coherent.flags
  · rw [tags, tlb]
    exact coherent.later
  · rw [tags] at first
    have still := pages i vpn among first.1
    have agrees := coherent.first i vpn still.1 first
    rw [tlb, still.2.1]
    exact ⟨agrees.1, fun writable => still.2.2 (agrees.2 writable)⟩

/-- Mapping a page that has no entry keeps the TLB coherent. -/
theorem FullyCoherent.allocated {before after : State} (coherent : FullyCoherent before) {vpn rw pfn : Nat}
    {directory : Fin nrPdesPerPage} (indexed : pdeIndex vpn = some directory)
    (untagged : forall i, before.tags i ≠ some vpn)
    (mapped : Mapped (before.current, directory, pteIndex vpn) rw pfn before after) : FullyCoherent after := by
  have other : forall {i page : Nat}, before.tags i = some page ->
      after.page after.current page = before.page before.current page := by
    intro i page tagged
    rw [State.page_update indexed mapped.entry, mapped.same.current, if_neg]
    exact fun both => untagged i (both.2 ▸ tagged)
  refine coherent.of_pages mapped.tlb (fun i page tagged => ?_) (fun i page _ tagged => ?_)
  · rw [other tagged]
    exact coherent.mapped i page tagged
  · rw [other tagged]
    exact ⟨trivial, rfl, id⟩

/-- An upgrade keeps the frame of the page, a copy changes it. -/
theorem FullyCoherent.resolved {before after : State} (coherent : FullyCoherent before) {vpn : Nat}
    {directory : Fin nrPdesPerPage} (indexed : pdeIndex vpn = some directory)
    (resolved : Resolved (before.current, directory, pteIndex vpn) before after) :
    after.tlb = before.tlb ∧ Coherent (· ≠ vpn) after ∧
      (FullyCoherent after ∨ (1 < before.mapcounts (before.page before.current vpn).pfn ∧
        Exists fun frame => frame < nrPageframes ∧ before.mapcounts frame = 0)) := by
  have updated : forall {stored : Pte} {page : Nat}, SameProcesses before after ->
      after.entry = Function.update before.entry (before.current, directory, pteIndex vpn) stored ->
        after.page after.current page = if page = vpn then stored else before.page before.current page := by
    intro stored page same entry
    rw [State.page_update indexed entry, same.current]
    simp only [true_and]
  cases resolved with
  | upgraded same isProtected single entry mapcounts tlb =>
      have own := State.page_of_indexed indexed before before.current
      have full : FullyCoherent after := by
        refine coherent.of_pages tlb (fun i page tagged => ?_) (fun i page _ tagged => ⟨trivial, ?_⟩)
        · rw [updated same entry]
          split
          · exact isProtected.valid
          · exact coherent.mapped i page tagged
        · rw [updated same entry]
          split
          · rename_i here
            rw [here, own]
            exact ⟨rfl, fun _ => rfl⟩
          · exact ⟨rfl, id⟩
      exact ⟨tlb, full.weaken fun _ _ => trivial, Or.inl full⟩
  | copied pfn same isProtected shared inside free entry mapcounts tlb =>
      refine ⟨tlb, ?_, Or.inr ⟨?_, pfn, inside, free⟩⟩
      · refine coherent.of_pages tlb (fun i page tagged => ?_) (fun i page other tagged => ⟨trivial, ?_⟩)
        · rw [updated same entry]
          split
          · rfl
          · exact coherent.mapped i page tagged
        · rw [updated same entry, if_neg other]
          exact ⟨rfl, id⟩
      · rw [State.page_of_indexed indexed]
        exact shared
  | leaked same isProtected shared full process mapcounts tlb =>
      have kept : forall page, after.page after.current page = before.page before.current page := by
        intro page
        simp only [State.page, State.entry, State.pte, process, same.current]
      have whole : FullyCoherent after := by
        refine coherent.of_pages tlb (fun i page tagged => ?_) (fun i page _ tagged => ?_)
        · rw [kept]
          exact coherent.mapped i page tagged
        · rw [kept]
          exact ⟨trivial, rfl, id⟩
      exact ⟨tlb, whole.weaken fun _ _ => trivial, Or.inl whole⟩

/-- Clearing the only entry for a page leaves none for it. -/
theorem invalidateTlb_tags {vpn : Nat} {state : State} (coherent : FullyCoherent state)
    (single : state.SingleEntry vpn) (i : Nat) :
    (invalidateTlb vpn state).tags i = (if state.tags i = some vpn then none else state.tags i) ∧
      (state.tags i ≠ some vpn -> (invalidateTlb vpn state).tlb i = state.tlb i) := by
  unfold invalidateTlb
  split
  · rename_i missing
    have untagged : state.tags i ≠ some vpn := by
      intro tagged
      have there := State.tags_eq_some.mp tagged
      have range := coherent.ordered.index_lt tagged
      have skipped := List.find?_range_eq_none.mp missing i range
      simp [there.1, there.2] at skipped
    exact ⟨(if_neg untagged).symm, fun _ => rfl⟩
  · rename_i cleared matched
    have search := (List.find?_range_eq_some.mp matched).1
    have tagged : state.tags cleared = some vpn := by simpa [State.tags_eq_some] using search
    by_cases here : i = cleared
    · subst i
      rw [if_pos tagged, State.tags_eq_none]
      exact ⟨by simp only [Function.update_self]; rfl, fun untagged => absurd tagged untagged⟩
    · have untagged : state.tags i ≠ some vpn := fun also => here (single i cleared also tagged)
      rw [if_neg untagged, State.tags, State.tags]
      simp only [Function.update_of_ne here]
      exact ⟨trivial, fun _ => trivial⟩

/-- An entry that has been cleared is for no page. -/
theorem State.ne_of_cleared {cleared i page : Nat} {state : State}
    (tagged : State.tags { state with tlb := Function.update state.tlb cleared TlbEntry.zero } i = some page) :
    i ≠ cleared := by
  rintro rfl
  have valid := (State.tags_eq_some.mp tagged).1
  simp only [Function.update_self] at valid
  cases valid

/-- An entry that is left has not been touched. -/
theorem invalidateTlb_left {vpn i page : Nat} {state : State}
    (tagged : (invalidateTlb vpn state).tags i = some page) :
    state.tags i = some page ∧ (invalidateTlb vpn state).tlb i = state.tlb i := by
  unfold invalidateTlb at tagged ⊢
  split at tagged
  case h_1 => exact ⟨tagged, rfl⟩
  case h_2 cleared _ =>
    have here : i ≠ cleared := State.ne_of_cleared tagged
    have same : Function.update state.tlb cleared TlbEntry.zero i = state.tlb i := Function.update_of_ne here ..
    refine ⟨?_, same⟩
    rw [State.tags_eq_some] at tagged ⊢
    simp only [same] at tagged
    exact tagged

theorem FullyCoherent.freed {before after : State} (coherent : FullyCoherent before) {vpn : Nat}
    {directory : Fin nrPdesPerPage} (indexed : pdeIndex vpn = some directory)
    (single : before.SingleEntry vpn) (tlb : after.tlb = (invalidateTlb vpn before).tlb)
    (unmapped : Unmapped (before.current, directory, pteIndex vpn) before after) : FullyCoherent after := by
  have tags : forall i, after.tags i = if before.tags i = some vpn then none else before.tags i := by
    intro i
    rw [← (invalidateTlb_tags coherent single i).1, State.tags, State.tags, tlb]
  -- A page that still has an entry is another page.
  have kept : forall {i page : Nat}, after.tags i = some page ->
      before.tags i = some page ∧ page ≠ vpn ∧ after.tlb i = before.tlb i ∧
        after.page after.current page = before.page before.current page := by
    intro i page tagged
    rw [tags] at tagged
    split at tagged
    · cases tagged
    · rename_i other
      have different : page ≠ vpn := fun same => other (same ▸ tagged)
      refine ⟨tagged, different, ?_, ?_⟩
      · rw [tlb]
        exact (invalidateTlb_tags coherent single i).2 other
      · rw [State.page_update indexed unmapped.entry, if_neg fun both => different both.2, unmapped.same.current]
  refine ⟨fun i page tagged => coherent.inside i page (kept tagged).1, fun i page tagged => ?_,
    fun i page tagged => ?_, fun i earlier page less earlierTagged tagged => ?_, fun i page _ first => ?_⟩
  · rw [(kept tagged).2.2.2]
    exact coherent.mapped i page (kept tagged).1
  · rw [(kept tagged).2.2.1]
    exact coherent.flags i page (kept tagged).1
  · rw [(kept tagged).2.2.1]
    exact coherent.later i earlier page less (kept earlierTagged).1 (kept tagged).1
  · have there := kept first.1
    rw [there.2.2.1, there.2.2.2]
    refine coherent.first i page trivial ⟨there.1, fun earlier less also => first.2 earlier less ?_⟩
    rw [tags, if_neg fun same => there.2.1 (Option.some.inj (also.symm.trans same))]
    exact also

theorem freePage_tlb {vpn : Nat} {state after : State} {directory : Fin nrPdesPerPage}
    (indexed : pdeIndex vpn = some directory)
    (valid : (state.entry (state.current, directory, pteIndex vpn)).valid = true)
    (ran : Vm.freePage vpn state = .ok after) : after.tlb = (invalidateTlb vpn state).tlb := by
  have sameTlb : forall {other : State}, other.tlb = state.tlb ->
      (invalidateTlb vpn other).tlb = (invalidateTlb vpn state).tlb := by
    intro other same
    unfold invalidateTlb
    rw [same]
    split
    · exact same
    · rfl
  unfold Vm.freePage at ran
  rw [indexed] at ran
  dsimp only at ran
  rw [State.pte_of_valid valid] at ran
  dsimp only at ran
  rw [if_pos valid] at ran
  split at ran
  · cases ran
    exact sameTlb (setPte_tlb ..)
  · cases ran

/-- A switch empties the TLB, for it visits all entries that are filled. -/
theorem flushTlb_tags {before after : State} (inside : forall i vpn, before.tags i = some vpn -> i < nrPageframes)
    (tlb : after.tlb = (flushTlb before).tlb) (i : Nat) : after.tags i = none := by
  rw [State.tags_eq_none, tlb]
  simp only [flushTlb]
  split
  · rfl
  · rename_i outside
    cases valid : (before.tlb i).valid with
    | false => rfl
    | true => exact absurd (inside i _ (State.tags_eq_some.mpr ⟨valid, rfl⟩)) outside

theorem FullyCoherent.switched {before after : State} (coherent : FullyCoherent before)
    (tlb : after.tlb = (flushTlb before).tlb) : FullyCoherent after :=
  FullyCoherent.of_empty (flushTlb_tags coherent.inside tlb)

end Vm
end OsPa
