import Mathlib.Algebra.Order.BigOperators.Group.Finset

/-!
# How widely work is spread

Two ways to divide the same total among jobs can be compared by how much of it
the largest parts make up.  If every choice of parts of the one is covered by as
many parts of the other, the other is spread more widely, and has more empty
parts.  The comparison survives the arrival of new jobs, and a unit of work done
on each side as long as the wider side takes it from a smallest part.
-/

namespace OsPa
namespace Library

universe u

variable {Job : Type u} {jobs : Finset Job} {wide narrow : Job -> Nat}

/-- The first way spreads the same total more widely than the second. -/
structure Spreads (jobs : Finset Job) (wide narrow : Job -> Nat) : Prop where
  total : ∑ job ∈ jobs, narrow job = ∑ job ∈ jobs, wide job
  covered : forall chosen, chosen ⊆ jobs -> Exists fun covering => covering ⊆ jobs ∧
    covering.card ≤ chosen.card ∧ ∑ job ∈ chosen, narrow job ≤ ∑ job ∈ covering, wide job

namespace Spreads

theorem refl (jobs : Finset Job) (parts : Job -> Nat) : Spreads jobs parts parts :=
  ⟨rfl, fun chosen inside => ⟨chosen, inside, Nat.le_refl _, Nat.le_refl _⟩⟩

theorem congr (spreads : Spreads jobs wide narrow) {wide' narrow' : Job -> Nat}
    (sameWide : forall job, job ∈ jobs -> wide job = wide' job)
    (sameNarrow : forall job, job ∈ jobs -> narrow job = narrow' job) : Spreads jobs wide' narrow' := by
  constructor
  case total =>
    rw [← Finset.sum_congr rfl sameNarrow, ← Finset.sum_congr rfl sameWide]
    exact spreads.total
  case covered =>
    intro chosen inside
    rcases spreads.covered chosen inside with ⟨covering, coveringInside, fewer, enough⟩
    refine ⟨covering, coveringInside, fewer, ?_⟩
    rw [← Finset.sum_congr rfl fun job member => sameNarrow job (inside member),
      ← Finset.sum_congr rfl fun job member => sameWide job (coveringInside member)]
    exact enough

variable [DecidableEq Job]

/-- What is spread more widely leaves more jobs with nothing. -/
theorem card_empty_le (spreads : Spreads jobs wide narrow) :
    (jobs.filter fun job => narrow job = 0).card ≤ (jobs.filter fun job => wide job = 0).card := by
  rcases spreads.covered (jobs.filter fun job => ¬ narrow job = 0) (Finset.filter_subset _ _) with
    ⟨covering, inside, fewer, enough⟩
  rw [Finset.sum_filter_ne_zero jobs] at enough
  have nonempty : (jobs.filter fun job => ¬ wide job = 0) ⊆ covering := by
    intro job member
    rcases Finset.mem_filter.mp member with ⟨isJob, positive⟩
    by_contra outside
    have split := Finset.sum_sdiff inside (f := wide)
    have rest : wide job ≤ ∑ other ∈ jobs \ covering, wide other :=
      Finset.single_le_sum (fun _ _ => Nat.zero_le _) (Finset.mem_sdiff.mpr ⟨isJob, outside⟩)
    have total := spreads.total
    omega
  have narrowSplit := Finset.card_filter_add_card_filter_not (s := jobs) fun job => narrow job = 0
  have wideSplit := Finset.card_filter_add_card_filter_not (s := jobs) fun job => wide job = 0
  have bound := (Finset.card_le_card nonempty).trans fewer
  omega

/-- New jobs come in on both sides. -/
theorem add (spreads : Spreads jobs wide narrow) (extra : Job -> Nat)
    (fresh : forall job, job ∈ jobs -> extra job ≠ 0 -> narrow job = 0) :
    Spreads jobs (fun job => wide job + extra job) (fun job => narrow job + extra job) := by
  constructor
  case total =>
    rw [Finset.sum_add_distrib, Finset.sum_add_distrib, spreads.total]
  case covered =>
    intro chosen inside
    let old := chosen.filter fun job => extra job = 0
    let new := chosen.filter fun job => ¬ extra job = 0
    have oldInside : old ⊆ jobs := (Finset.filter_subset _ _).trans inside
    have newInside : new ⊆ jobs := (Finset.filter_subset _ _).trans inside
    rcases spreads.covered old oldInside with ⟨covering, coveringInside, fewer, enough⟩
    refine ⟨covering ∪ new, Finset.union_subset coveringInside newInside, ?_, ?_⟩
    · have split : old.card + new.card = chosen.card :=
        Finset.card_filter_add_card_filter_not fun job => extra job = 0
      have union := Finset.card_union_le covering new
      omega
    · have nothingNew : ∑ job ∈ new, narrow job = 0 := by
        apply Finset.sum_eq_zero
        intro job member
        exact fresh job (newInside member) (Finset.mem_filter.mp member).2
      have onlyNew : ∑ job ∈ new, extra job = ∑ job ∈ chosen, extra job := Finset.sum_filter_ne_zero chosen
      have split : ∑ job ∈ old, narrow job + ∑ job ∈ new, narrow job = ∑ job ∈ chosen, narrow job :=
        Finset.sum_filter_add_sum_filter_not chosen (fun job => extra job = 0) narrow
      calc
        ∑ job ∈ chosen, (narrow job + extra job) = ∑ job ∈ old, narrow job + ∑ job ∈ new, extra job := by
          rw [Finset.sum_add_distrib]
          omega
        _ ≤ ∑ job ∈ covering, wide job + ∑ job ∈ new, extra job := Nat.add_le_add_right enough _
        _ ≤ ∑ job ∈ covering ∪ new, wide job + ∑ job ∈ covering ∪ new, extra job :=
          Nat.add_le_add (Finset.sum_le_sum_of_subset Finset.subset_union_left)
            (Finset.sum_le_sum_of_subset Finset.subset_union_right)
        _ = ∑ job ∈ covering ∪ new, (wide job + extra job) := Finset.sum_add_distrib.symm

/-- What is left when a unit of the work of one job is done. -/
theorem sum_served (parts : Job -> Nat) {served : Job} (positive : 1 ≤ parts served) (chosen : Finset Job) :
    ∑ job ∈ chosen, parts job =
      ∑ job ∈ chosen, Function.update parts served (parts served - 1) job + if served ∈ chosen then 1 else 0 := by
  split
  case isTrue member =>
    rw [← Finset.add_sum_erase chosen parts member,
      ← Finset.add_sum_erase chosen (Function.update parts served (parts served - 1)) member, Function.update_self]
    have others : ∑ job ∈ chosen.erase served, Function.update parts served (parts served - 1) job =
        ∑ job ∈ chosen.erase served, parts job := by
      apply Finset.sum_congr rfl
      intro job erased
      exact Function.update_of_ne (Finset.ne_of_mem_erase erased) ..
    omega
  case isFalse absent =>
    apply Finset.sum_congr rfl
    intro job member
    have different : job ≠ served := fun same => absent (same ▸ member)
    exact (Function.update_of_ne different ..).symm

/-- A unit of work is done on both sides, on the wider side for a job with the
least to do. -/
theorem serve (spreads : Spreads jobs wide narrow) {least other : Job} (leastJob : least ∈ jobs)
    (leastWorks : 1 ≤ wide least) (smallest : forall job, job ∈ jobs -> 1 ≤ wide job -> wide least ≤ wide job)
    (otherJob : other ∈ jobs) (otherWorks : 1 ≤ narrow other) :
    Spreads jobs (Function.update wide least (wide least - 1))
      (Function.update narrow other (narrow other - 1)) := by
  constructor
  case total =>
    have total := spreads.total
    have narrowSum := sum_served narrow otherWorks jobs
    have wideSum := sum_served wide leastWorks jobs
    rw [if_pos otherJob] at narrowSum
    rw [if_pos leastJob] at wideSum
    omega
  case covered =>
    intro chosen inside
    rcases spreads.covered chosen inside with ⟨covering, coveringInside, fewer, enough⟩
    have narrowSum := sum_served narrow otherWorks chosen
    have wideSum := sum_served wide leastWorks covering
    by_cases kept : other ∈ chosen ∨ least ∉ covering ∨ ∑ job ∈ chosen, narrow job < ∑ job ∈ covering, wide job
    · -- The covering still covers.
      refine ⟨covering, coveringInside, fewer, ?_⟩
      rcases kept with otherChosen | leastOutside | less
      · rw [if_pos otherChosen] at narrowSum
        split at wideSum <;> omega
      · rw [if_neg leastOutside] at wideSum
        split at narrowSum <;> omega
      · split at wideSum <;> split at narrowSum <;> omega
    · push Not at kept
      rcases kept with ⟨otherUnchosen, leastCovered, tight⟩
      rw [if_neg otherUnchosen] at narrowSum
      rw [if_pos leastCovered] at wideSum
      -- A covering that leaves no work out would cover the other job, too.
      have leftOut : Exists fun job => job ∈ jobs ∧ job ∉ covering ∧ 1 ≤ wide job := by
        by_contra none
        push Not at none
        have all : ∑ job ∈ covering, wide job = ∑ job ∈ jobs, wide job := by
          apply Finset.sum_subset coveringInside
          intro job isJob outside
          have nothing := none job isJob outside
          omega
        have more : ∑ job ∈ insert other chosen, narrow job ≤ ∑ job ∈ jobs, narrow job :=
          Finset.sum_le_sum_of_subset (Finset.insert_subset otherJob inside)
        rw [Finset.sum_insert otherUnchosen, spreads.total] at more
        omega
      rcases leftOut with ⟨job, isJob, outside, works⟩
      -- It has at least as much to do as the least job, and takes its place.
      have larger := smallest job isJob works
      have erased : job ∉ covering.erase least := fun member => outside (Finset.mem_of_mem_erase member)
      have newSum := sum_served wide leastWorks (insert job (covering.erase least))
      have leastGone : least ∉ insert job (covering.erase least) := by
        intro member
        rcases Finset.mem_insert.mp member with same | never
        · exact outside (same ▸ leastCovered)
        · exact Finset.notMem_erase least covering never
      rw [if_neg leastGone, Finset.sum_insert erased] at newSum
      have split := Finset.add_sum_erase covering wide leastCovered
      refine ⟨insert job (covering.erase least), ?_, ?_, ?_⟩
      · exact Finset.insert_subset isJob ((Finset.erase_subset _ _).trans coveringInside)
      · rw [Finset.card_insert_of_notMem erased, Finset.card_erase_add_one leastCovered]
        exact fewer
      · omega

end Spreads
end Library
end OsPa
